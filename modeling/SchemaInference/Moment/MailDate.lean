import SchemaInference.Moment.Calendar
import SchemaInference.Number.Numeral
import SchemaInference.Text.Case

set_option autoImplicit false

namespace SchemaInference

namespace MailDate

def dayNames : List String := ["mon", "tue", "wed", "thu", "fri", "sat", "sun"]

def monthNames : List String :=
  ["jan", "feb", "mar", "apr", "may", "jun", "jul", "aug", "sep", "oct", "nov", "dec", "january", "february",
    "march", "april", "may", "june", "july", "august", "september", "october", "november", "december"]

def month? (word : String) : Option Int :=
  (monthNames.idxOf? (Text.lower word)).map fun i => ((i % 12 + 1 : Nat) : Int)

def zones : List (String × Int) :=
  [("UT", 0), ("UTC", 0), ("GMT", 0), ("Z", 0), ("AST", -400), ("ADT", -300), ("EST", -500), ("EDT", -400),
    ("CST", -600), ("CDT", -500), ("MST", -700), ("MDT", -600), ("PST", -800), ("PDT", -700)]

def offsetSeconds (hoursMinutes : Int) : Int :=
  let size := hoursMinutes.natAbs
  let seconds : Int := (size / 100 * 3600 + size % 100 * 60 : Nat)
  if hoursMinutes < 0 then -seconds else seconds

/-- The offset of a zone; an unknown zone counts as universal time. -/
def zoneOffset (zone : String) : Int :=
  match zones.lookup (Text.upper zone) with
  | some offset => offsetSeconds offset
  | none => offsetSeconds ((Numeral.readBounded? (Text.upper zone)).getD 0)

def wordsOf (s : String) : List String :=
  ((s.toList.splitOnP Text.isBlank).filter fun w => !w.isEmpty).map String.ofList

def partsAt (mark : Char) (word : String) : List String :=
  (word.toList.splitOn mark).map String.ofList

def afterComma (word : String) : String :=
  (partsAt ',' word).getLastD word

def endsInComma (word : String) : Bool :=
  word.toList.getLast? == some ','

def withoutWeekday : List String → List String
  | [] => []
  | first :: rest =>
    if endsInComma first || dayNames.contains (Text.lower first) then rest else afterComma first :: rest

def withoutHyphens : List String → List String
  | [date, time, zone] =>
    match partsAt '-' date with
    | [day, month, year] => [day, month, year, time, zone]
    | _ => [date, time, zone]
  | words => words

def signAt? (word : String) : Option Nat :=
  let cs := word.toList
  match cs.idxOf? '+' with
  | some i => some i
  | none => cs.idxOf? '-'

/-- Five words, where the zone may be joined to the time or missing. -/
def withZone : List String → Option (String × String × String × String × String)
  | [a, b, c, time] =>
    match signAt? time with
    | some i =>
      if 0 < i then some (a, b, c, String.ofList (time.toList.take i), String.ofList (time.toList.drop i))
      else some (a, b, c, time, "")
    | none => some (a, b, c, time, "")
  | a :: b :: c :: d :: e :: _ => some (a, b, c, d, e)
  | _ => none

def withoutComma (word : String) : String :=
  if endsInComma word then String.ofList word.toList.dropLast else word

def timeParts? (word : String) : Option (String × String × String) :=
  match partsAt ':' word with
  | [hour, minute] => some (hour, minute, "0")
  | [hour, minute, second] => some (hour, minute, second)
  | [_] =>
    match partsAt '.' word with
    | [hour, minute] => some (hour, minute, "0")
    | [hour, minute, second] => some (hour, minute, second)
    | _ => none
  | _ => none

def fullYear (year : Int) : Int :=
  if year < 100 then if 68 < year then year + 1900 else year + 2000 else year

inductive Fault
  | refused
  | tooLarge (message : String)
deriving DecidableEq

/-- The date of the five words day, month, year, time and zone, the first two and the middle two of which
may have changed places; with the offset of its zone. -/
def ofWords (day month year time zone : String) : Option (ClockTime × Int) := do
  if day.isEmpty || month.isEmpty || year.isEmpty then none
  let (day, month) := if (month? month).isSome then (day, month) else (month, day)
  let month ← month? month
  let day := withoutComma day
  let (year, time) := if (year.toList.idxOf? ':').any (0 < ·) then (time, year) else (year, time)
  let year := withoutComma year
  if year.isEmpty then none
  let (year, zone) := if (year.toList.head?).any Text.isDigitLike then (year, zone) else (zone, year)
  let (hour, minute, second) ← timeParts? (withoutComma time)
  let clock : ClockTime :=
    { year := fullYear (← Numeral.readBounded? year)
      month
      day := ← Numeral.readBounded? day
      hour := ← Numeral.readBounded? hour
      minute := ← Numeral.readBounded? minute
      second := ← Numeral.readBounded? second
      microsecond := 0 }
  some (clock, zoneOffset zone)

/-- A number that is counted with in one machine word of 32 bits, taken from one of 64. -/
def checkCounted (i : Int) : Except Fault Unit :=
  if i < -0x8000000000000000 ∨ 0x7fffffffffffffff < i then
    .error (.tooLarge "Python int too large to convert to C long")
  else if 0x7fffffff < i then .error (.tooLarge "signed integer is greater than maximum")
  else if i < -0x80000000 then .error (.tooLarge "signed integer is less than minimum")
  else .ok ()

def checkOffset (seconds : Int) : Except Fault Unit :=
  let days := seconds / 86400
  if days < -0x80000000 ∨ 0x7fffffff < days then
    .error (.tooLarge "Python int too large to convert to C int")
  else if 999999999 < days.natAbs then
    .error (.tooLarge ("days=" ++ toString days ++ "; must have magnitude <= 999999999"))
  else if seconds.natAbs < 86400 then .ok () else .error .refused

def place (clock : ClockTime) (offset : Int) : Except Fault DateTime := do
  checkOffset offset
  [clock.year, clock.month, clock.day, clock.hour, clock.minute, clock.second].forM checkCounted
  match DateTime.ofClock? clock (some offset) with
  | some t => .ok t
  | none => .error .refused

def read (s : String) : Except Fault DateTime :=
  let found := (withZone (withoutHyphens (withoutWeekday (wordsOf s)))).bind fun (a, b, c, d, e) =>
    ofWords a b c d e
  match found with
  | some (clock, offset) => place clock offset
  | none => .error .refused

end MailDate

end SchemaInference
