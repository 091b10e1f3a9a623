import SchemaInference.Failure.Metadata

set_option autoImplicit false

namespace SchemaInference

def ForeignError.family? (e : ForeignError) : Option Mongo.ErrorFamily :=
  e.classes.findSome? fun c => match c with
    | .driver family => some family
    | _ => none

namespace Mongo

namespace ErrorFamily

def isRefusal : ErrorFamily → Bool
  | executionTimeout => true
  | operationFailure => true
  | _ => false

end ErrorFamily

def driverError (typeName : String) (family : ErrorFamily) (arguments : List Value) (code details : Value)
    (attributes : List (String × Value)) : ForeignError :=
  let classes := [.driver family]
  let message := ForeignError.textOf classes arguments
  let shown : Except ConversionError String :=
    if family.isRefusal && !details.isNull then do
      let message ← message
      .ok (message ++ ", full error: " ++ (← details.written))
    else message
  { typeName, classes, shown
    attributes := attributes ++ (if family.isRefusal then [("code", code), ("details", details)] else []) }

def codeStatuses : List (Int × Int) :=
  [(16500, 429), (13, 401), (18, 401), (26, 404), (50, 408), (11000, 409)]

def statusOfCode? (code : Value) : Option Int :=
  (codeStatuses.find? fun entry => code.same (.whole entry.1)).map (·.2)

def retryAfterMark : String := "RetryAfterMs="

/-- The number behind the first mark that a digit follows. -/
def retryAfterIn? (text : String) : Except ConversionError (Option Int) :=
  search text.toList
where
  search : List Char → Except ConversionError (Option Int)
    | [] => .ok none
    | c :: rest =>
      let digits := (behindMark (c :: rest)).takeWhile Text.isDecimalDigit
      if digits.isEmpty then search rest
      else if Numeral.mostDigits < digits.length then .error (.tooManyDigits digits.length)
      else .ok (Numeral.readInteger? (String.ofList digits))
  behindMark (cs : List Char) : List Char :=
    if retryAfterMark.toList.isPrefixOf cs then cs.drop retryAfterMark.length else []

def requestErrorTypeName : String := "MongoRequestError"

def requestError (message : String) (status retryAfter : Option Int) (charge code : Value) : ForeignError :=
  let ofInt? (i : Option Int) : Value := match i with
    | some i => .whole i
    | none => .null
  ⟨requestErrorTypeName, [], .ok message, [("status_code", ofInt? status), ("retry_after_ms", ofInt? retryAfter),
    ("request_charge", charge), ("mongo_code", code)]⟩

def refusalDelay? (message : String) (said : Value) : Except ConversionError (Option Int) := do
  match ← retryAfterIn? message with
  | some ms => .ok (some ms)
  | none => retryAfterIn? (← said.written)

def requestErrorOf (family : ErrorFamily) (e : ForeignError) : Except ConversionError ForeignError := do
  let message ← e.shown
  let part (name : String) : Value := (e.attributes.lookup name).getD .null
  match family with
  | .executionTimeout => .ok (requestError message (some 408) none .null (part "code"))
  | .operationFailure =>
    let details := match part "details" with
      | .mapping entries => entries
      | _ => []
    let retryAfter ← refusalDelay? message ((Value.lookup? details "errmsg").getD (.text ""))
    .ok (requestError message (statusOfCode? (part "code")) retryAfter
      ((Value.lookup? details "RequestCharge").getD .null) (part "code"))
  | .networkTimeout => .ok (requestError message (some 408) none .null .null)
  | .connectionFailure => .ok (requestError message (some 503) none .null .null)
  | .other => .ok (requestError message none none .null .null)

/-- An error of the driver restated, with itself as the cause; any other error as it is.  What cannot be
restated is an error of its own. -/
def restated (r : Raised) : Raised :=
  match r.fault with
  | .foreign e =>
    match e.family? with
    | some family =>
      match requestErrorOf family e with
      | .ok request => ⟨.foreign request, r.chain⟩
      | .error err => .ofConversion err
    | none => r
  | .failure _ => r

def isRefusal (r : Raised) : Bool :=
  match r.fault with
  | .foreign e => e.family?.any (·.isRefusal)
  | .failure _ => false

end Mongo

end SchemaInference
