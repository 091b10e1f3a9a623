import SchemaInference.Failure
import SchemaInference.Moment.MailDate

set_option autoImplicit false

namespace SchemaInference

namespace Value

/-- The entry or attribute of a name, null counting as none. -/
def part? (v : Value) (name : String) : Option Value :=
  let found := match v with
    | mapping entries => lookup? entries name
    | object _ _ _ _ attributes => attributes.lookup name
    | _ => none
  found.filter fun p => !p.isNull

def firstPart? (v : Value) (names : List String) : Option Value :=
  names.findSome? v.part?

def headers? (v : Value) : Option (List (Value × Value)) :=
  let found := match v.firstPart? ["headers", "response_headers", "responseHeaders"] with
    | some headers => some headers
    | none => (v.part? "response").bind fun response => response.part? "headers"
  match found with
  | some (mapping entries) => some entries
  | _ => none

def loweredHeaders (entries : List (Value × Value)) : Except ConversionError (List (String × Value)) :=
  entries.mapM fun entry => entry.1.written.map fun name => (Text.lower name, entry.2)

/-- The last of the headers of a name. -/
def headerIn? (headers : List (String × Value)) (name : String) : Option Value :=
  ((headers.filter fun header => header.1 == name).getLast?.map (·.2)).filter fun p => !p.isNull

def header? (v : Value) (names : List String) : Except ConversionError (Option Value) :=
  match v.headers? with
  | some entries => (loweredHeaders entries).map fun headers => names.findSome? (headerIn? headers)
  | none => .ok none

/-- The finite number that a value or its text stands for; truth values stand for none. -/
def finiteNumber? (v : Value) : Except ConversionError (Option Double) :=
  match v with
  | number n => (n.toDouble .binary64).map fun x => if x.isFinite then some x else none
  | text s => .ok ((Numeral.readDouble? .binary64 s).filter (·.isFinite))
  | object _ _ _ amount _ => amount.map fun x => x.filter (·.isFinite)
  | _ => .ok none

def finiteNumberOf? (v : Option Value) : Except ConversionError (Option Double) :=
  match v with
  | some v => v.finiteNumber?
  | none => .ok none

end Value

namespace RetryAfter

/-- The date that a text in free form denotes; a reader's error about values or sizes means that it denotes none. -/
def freeDate? (a : Almanac) (s : String) : Except ConversionError (Option DateTime) :=
  match a.freeDate s with
  | .ok date => .ok (some date)
  | .error e => if e.isA .value || e.isA .overflow then .ok none else .error (.foreign e)

def date? (a : Almanac) (s : String) : Except ConversionError (Option DateTime) :=
  match MailDate.read s with
  | .ok date => .ok (some date)
  | .error .refused => freeDate? a s
  | .error (.tooLarge message) => .error (.dateTooLarge message)

def millisecondsUntil (a : Almanac) (date : DateTime) : Except ConversionError Int :=
  if date.isPlaced then Moment.millisecondsUntil .binary64 a.present date.moment else .error .offsetTooLarge

def untilDate? (a : Almanac) (s : String) : Except ConversionError (Option Int) := do
  match ← date? a s with
  | some date => (millisecondsUntil a date).map some
  | none => .ok none

def milliseconds? (a : Almanac) (v : Value) : Except ConversionError (Option Int) := do
  match ← v.finiteNumber? with
  | some seconds =>
    let ms ← (Double.mul .binary64 seconds (.finite 1000)).truncate
    .ok (some (max 0 ms))
  | none =>
    match v with
    | .text s => if (Text.trim s).isEmpty then .ok none else untilDate? a s
    | _ => .ok none

end RetryAfter

namespace FailureMetadata

/-- The whole number of a text of digits, of which some may be no decimal digits. -/
def readStatus (s : String) : Except ConversionError Int :=
  let decimals := (s.toList.takeWhile Text.isDecimalDigit).length
  if Numeral.mostDigits < decimals then .error (.tooManyDigits decimals)
  else
    match Numeral.readInteger? s with
    | some i => .ok i
    | none => .error (.notWhole s)

def statusOf? (v : Value) : Except ConversionError (Option Int) :=
  match v with
  | .whole i => .ok (some i)
  | .text s => if !s.isEmpty && s.toList.all Text.isDigitLike then (readStatus s).map some else .ok none
  | _ => .ok none

def firstStatus? (v : Value) : List String → Except ConversionError (Option Int)
  | [] => .ok none
  | name :: rest =>
    match v.part? name with
    | none => firstStatus? v rest
    | some p => do
      match ← statusOf? p with
      | some status => .ok (some status)
      | none => firstStatus? v rest

def status? (v : Value) : Except ConversionError (Option Int) := do
  match ← firstStatus? v ["code", "status_code", "statusCode", "status"] with
  | some status => .ok (some status)
  | none =>
    match (v.part? "response").bind fun response => response.firstPart? ["status_code", "status"] with
    | some (.whole i) => .ok (some i)
    | _ => .ok none

/-- A number under one of several names, or else in one of several headers. -/
def numberIn? (v : Value) (names headers : List String) : Except ConversionError (Option Double) := do
  match ← Value.finiteNumberOf? (v.firstPart? names) with
  | some x => .ok (some x)
  | none => Value.finiteNumberOf? (← v.header? headers)

def retryAfter? (a : Almanac) (v : Value) : Except ConversionError (Option Int) := do
  let given ← numberIn? v
    ["retry_after_ms", "retryAfterMs", "retryAfterInMilliseconds", "retry_after_in_milliseconds"]
    ["x-ms-retry-after-ms", "retry-after-ms"]
  match given with
  | some ms => ms.truncate.map some
  | none =>
    match ← v.header? ["retry-after"] with
    | some header => RetryAfter.milliseconds? a header
    | none => .ok none

def activity? (v : Value) : Except ConversionError (Option Value) :=
  match (v.firstPart? ["activity_id", "activityId"]).filter Value.truthy with
  | some activity => .ok (some activity)
  | none => v.header? ["x-ms-activity-id"]

def ofError (a : Almanac) (v : Value) : Except ConversionError FailureMetadata := do
  let retryAfter ← retryAfter? a v
  let charge ← numberIn? v ["request_charge", "requestCharge"] ["x-ms-request-charge"]
  let activity ← activity? v
  let substatus ← numberIn? v ["substatus", "sub_status", "subStatusCode"] ["x-ms-substatus"]
  let status ← status? v
  let activityId ← activity.mapM Value.written
  let detail ← substatus.mapM Double.truncate
  .ok
    { statusCode := status
      activityId
      retryAfterMs := retryAfter.map .whole
      requestCharge := charge.map .real
      substatus := detail }

end FailureMetadata

end SchemaInference
