import SchemaInference.Failure.Metadata

set_option autoImplicit false

namespace SchemaInference

namespace Failure

/-- Words in a message and the kinds that they hint at; the first that occurs counts. -/
def messageHints : List (String × FailureKind) :=
  [("timeout", .requestTimeout), ("too many requests", .rateLimit), ("throttle", .rateLimit),
    ("rate", .rateLimit), ("service unavailable", .serviceUnavailable)]

def occursIn (part : List Char) : List Char → Bool
  | [] => part.isEmpty
  | c :: rest => part.isPrefixOf (c :: rest) || occursIn part rest

def hinted? (message : String) : Option FailureKind :=
  let lowered := (Text.lower message).toList
  (messageHints.find? fun hint => occursIn hint.1.toList lowered).map (·.2)

/-- The message of an error: a mapping's entry of that name, else the error's own text. -/
def messageOf (v : Value) : Except ConversionError String :=
  match v with
  | .null => .ok ""
  | .mapping entries =>
    match (Value.lookup? entries "message").filter Value.truthy with
    | some m => m.written
    | none => .ok ""
  | v => v.written

def kindWithoutStatus (v : Value) (message : String) : FailureKind × Bool :=
  match v.part? "retryable", v with
  | some (.bool retryable), _ => (.unknown, retryable)
  | _, .object _ classes _ _ _ =>
    if classes.contains .timeout then (.requestTimeout, true)
    else if classes.contains .connection then (.serviceUnavailable, true)
    else byHint
  | _, _ => byHint
where
  byHint : FailureKind × Bool :=
    match hinted? message with
    | some kind => (kind, true)
    | none => (.unknown, false)

def kindOf (status : Option Int) (v : Value) (message : String) : FailureKind × Bool :=
  match status.bind FailureKind.ofStatus? with
  | some kind => kind
  | none => kindWithoutStatus v message

def ofMetadata (metadata : FailureMetadata) (component message : String) (v : Value) : Failure :=
  let (kind, retryable) := kindOf metadata.statusCode v message
  { make kind message component [("source", .text v.typeName)] with retryable, metadata }

def ofError (a : Almanac) (component : String) (v : Value) : Except ConversionError Failure := do
  let metadata ← FailureMetadata.ofError a v
  let message ← messageOf v
  .ok (ofMetadata metadata component message v)

end Failure

namespace Fault

def classify (a : Almanac) (component : String) : Fault → Except ConversionError Failure
  | failure f => .ok f
  | foreign e => Failure.ofError a component e.toValue

end Fault

end SchemaInference
