import SchemaInference.Failure.Kind
import SchemaInference.Number.Numeral
import SchemaInference.Value.Literal

set_option autoImplicit false

namespace SchemaInference

structure FailureMetadata where
  statusCode : Option Int
  activityId : Option String
  retryAfterMs : Option Number
  requestCharge : Option Number
  substatus : Option Int
deriving DecidableEq, Inhabited

def FailureMetadata.empty : FailureMetadata :=
  ⟨none, none, none, none, none⟩

def FailureMetadata.record (m : FailureMetadata) : Value :=
  let known (name : String) (v : Option Value) : List (String × Value) :=
    (v.map fun v => (name, v)).toList
  .record (known "status_code" (m.statusCode.map .whole) ++ known "activity_id" (m.activityId.map .text) ++
    known "retry_after_ms" (m.retryAfterMs.map .number) ++
    known "request_charge" (m.requestCharge.map .number) ++ known "substatus" (m.substatus.map .whole))

structure Failure where
  message : String
  kind : FailureKind
  severity : Severity
  retryable : Bool
  component : String
  details : List (String × Value)
  metadata : FailureMetadata
deriving Inhabited

structure ForeignError where
  typeName : String
  classes : List ErrorClass
  shown : Except ConversionError String
  attributes : List (String × Value)
deriving Inhabited

inductive Fault
  | failure (f : Failure)
  | foreign (e : ForeignError)
deriving Inhabited

structure Raised where
  fault : Fault
  causes : List Fault
deriving Inhabited

namespace Failure

/-- A failure with the kind's severity, and with the kind's wording in place of an empty message. -/
def make (kind : FailureKind) (message component : String) (details : List (String × Value)) : Failure where
  message := if message.isEmpty then kind.wording else message
  kind := kind
  severity := kind.severity
  retryable := false
  component := component
  details := details
  metadata := .empty

def validation (message component : String) (details : List (String × Value)) : Failure :=
  make .validation message component details

def configuration (message component : String) (details : List (String × Value)) : Failure :=
  make .configuration message component details

def aborted (component message : String) : Failure :=
  make .aborted message component []

def typeConflict (types : List String) (fieldName : Option String) : Failure :=
  let ordered := types.mergeSort fun a b => !decide (b < a)
  make .typeConflict ("Type conflict detected: " ++ " | ".intercalate ordered) "type-conflict-resolver"
    [("conflicting_types", .list (ordered.map .text)), ("field_name", .ofText? fieldName),
      ("type_count", .whole ordered.length)]

def generalText (n : Number) : Except ConversionError String :=
  (n.toDouble .binary64).map Double.generalText

/-- The request units spent on failed attempts exceed what was allowed. -/
def budgetExhausted (consumed budget : Number) (last : Failure) (component : String) :
    Except ConversionError Failure := do
  let spent ← generalText consumed
  let allowed ← generalText budget
  let failure := make .retryBudgetExhausted
    ("Retry RU budget exhausted: " ++ spent ++ "/" ++ allowed ++ " RU. Last error: " ++ last.message) component
    [("ru_consumed", .number consumed), ("ru_budget", .number budget),
      ("last_error_kind", .text last.kind.name)]
  .ok { failure with metadata := last.metadata }

def record (f : Failure) : Value :=
  .record [("name", .text "ClassifiedError"), ("message", .text f.message), ("kind", .text f.kind.name),
    ("severity", .text f.severity.name), ("retryable", .bool f.retryable),
    ("context", .record [("component", .text f.component), ("metadata", .record f.details)]),
    ("metadata", f.metadata.record)]

def literal (f : Failure) : String :=
  "ClassifiedError(kind=" ++ Text.quoted f.kind.name ++ ", message=" ++ Text.quoted f.message ++ ")"

end Failure

namespace ConversionError

def lengthLimit : String :=
  "Exceeds the limit (" ++ toString Numeral.mostDigits ++ " digits) for integer string conversion"

def limitAdvice : String :=
  "; use sys.set_int_max_str_digits() to increase the limit"

def plain : ConversionError → PlainError
  | integerTooLarge => .ofOverflow "int too large to convert to float"
  | infinityAsInteger => .ofOverflow "cannot convert float infinity to integer"
  | nanAsInteger => .ofValue "cannot convert float NaN to integer"
  | divisionByZero => ⟨"ZeroDivisionError", [], "integer division or modulo by zero"⟩
  | notDecimal text => .ofValue ("could not convert string to float: " ++ Text.quoted text)
  | notWhole text => .ofValue ("invalid literal for int() with base 10: " ++ Text.quoted text)
  | tooManyDigits count =>
    .ofValue (lengthLimit ++ ": value has " ++ toString count ++ " digits" ++ limitAdvice)
  | tooLongToWrite => .ofValue (lengthLimit ++ limitAdvice)
  | wrongKind => .ofType ""
  | dateTooLarge message => .ofOverflow message
  | offsetTooLarge =>
    .ofValue "offset must be a timedelta strictly between -timedelta(hours=24) and timedelta(hours=24)."
  | foreign e => e

end ConversionError

namespace ForeignError

def isA (e : ForeignError) (c : ErrorClass) : Bool :=
  e.classes.contains c

def ofPlain (e : PlainError) : ForeignError :=
  ⟨e.typeName, e.classes, .ok e.message, []⟩

/-- The text of an error: nothing, its one argument, or all of them.  A missing key is shown as written, and
the two arguments of an error of the system are a number and a text. -/
def textOf (classes : List ErrorClass) (arguments : List Value) : Except ConversionError String :=
  let all := Value.tuple arguments
  match arguments with
  | [] => .ok ""
  | [one] => if classes.contains .key then one.ifWritable one.literal else one.written
  | [number, text] =>
    if classes.contains .system then do
      .ok ("[Errno " ++ (← number.written) ++ "] " ++ (← text.written))
    else all.ifWritable all.literal
  | _ => all.ifWritable all.literal

def ofArguments (typeName : String) (classes : List ErrorClass) (arguments : List Value)
    (attributes : List (String × Value)) : ForeignError :=
  ⟨typeName, classes, textOf classes arguments, attributes⟩

def toValue (e : ForeignError) : Value :=
  .object e.typeName e.classes e.shown (.ok none) e.attributes

end ForeignError

namespace Raised

def ofFailure (f : Failure) : Raised := ⟨.failure f, []⟩

def ofForeign (e : ForeignError) : Raised := ⟨.foreign e, []⟩

def ofPlain (e : PlainError) : Raised := ofForeign (.ofPlain e)

def ofConversion (e : ConversionError) : Raised := ofPlain e.plain

def chain (r : Raised) : List Fault :=
  r.fault :: r.causes

end Raised

namespace Fault

def name : Fault → String
  | failure f => f.kind.name
  | foreign e => e.typeName

def shown : Fault → Except ConversionError String
  | failure f => .ok f.message
  | foreign e => e.shown

end Fault

end SchemaInference
