import SchemaInference.Number.Double

set_option autoImplicit false

namespace SchemaInference

structure Moment where
  microseconds : Int
deriving DecidableEq, Inhabited

structure ClockTime where
  year : Int
  month : Int
  day : Int
  hour : Int
  minute : Int
  second : Int
  microsecond : Int
deriving DecidableEq, Inhabited

namespace Calendar

def isLeap (year : Int) : Bool :=
  year % 4 = 0 && (year % 100 ≠ 0 || year % 400 = 0)

def monthLength (year month : Int) : Int :=
  if month = 2 then if isLeap year then 29 else 28
  else if month = 4 ∨ month = 6 ∨ month = 9 ∨ month = 11 then 30
  else 31

def daysBeforeMonth (year month : Int) : Int :=
  (List.range (month - 1).toNat).foldl (fun sum (m : Nat) => sum + monthLength year (m + 1)) 0

def dayNumber (year month day : Int) : Int :=
  let before := year - 1
  365 * before + before / 4 - before / 100 + before / 400 + daysBeforeMonth year month + (day - 1)

/-- The year of a day; `dayNumber year 1 1 ≤ n` holds for it and fails for the next year. -/
def yearOf (n : Int) : Int :=
  (List.range 32).foldl (fun y _ => if dayNumber (y + 1) 1 1 ≤ n then y + 1 else y) (n / 366 + 1)

def monthAndDay (year : Int) (rest : Int) : Int × Int :=
  let month := (List.range 11).foldl
    (fun m (i : Nat) => if daysBeforeMonth year (i + 2) ≤ rest then (i : Int) + 2 else m) (1 : Int)
  (month, rest - daysBeforeMonth year month + 1)

end Calendar

namespace ClockTime

def isValid (t : ClockTime) : Bool :=
  1 ≤ t.year && t.year ≤ 9999 && 1 ≤ t.month && t.month ≤ 12 && 1 ≤ t.day &&
    t.day ≤ Calendar.monthLength t.year t.month && 0 ≤ t.hour && t.hour < 24 && 0 ≤ t.minute &&
    t.minute < 60 && 0 ≤ t.second && t.second < 60 && 0 ≤ t.microsecond && t.microsecond < 1000000

def localSeconds (t : ClockTime) : Int :=
  86400 * Calendar.dayNumber t.year t.month t.day + 3600 * t.hour + 60 * t.minute + t.second

end ClockTime

/-- A date and a time that the calendar has; the offset of the zone, if there is one, is in seconds. -/
structure DateTime where
  clock : ClockTime
  isValid : clock.isValid = true
  offset : Option Int

namespace DateTime

def ofClock? (t : ClockTime) (offset : Option Int) : Option DateTime :=
  if h : t.isValid = true then some ⟨t, h, offset⟩ else none

def isPlaced (t : DateTime) : Bool :=
  decide ((t.offset.getD 0).natAbs < 86400)

def moment (t : DateTime) : Moment :=
  ⟨1000000 * (t.clock.localSeconds - t.offset.getD 0) + t.clock.microsecond⟩

end DateTime

/-- The present moment, and a reader of dates in free form, which may fail with any error. -/
structure Almanac where
  present : Moment
  freeDate : String → Except PlainError DateTime

namespace Moment

def dayNumber (m : Moment) : Int :=
  m.microseconds / 86400000000

/-- Milliseconds from one moment to another, not below zero.  The distance is first taken in seconds. -/
def millisecondsUntil (r : Rounding) (start finish : Moment) : Except ConversionError Int := do
  let seconds ← Double.quotient r (finish.microseconds - start.microseconds) 1000000
  let milliseconds ← (Double.mul r seconds (.finite 1000)).truncate
  .ok (max 0 milliseconds)

end Moment

end SchemaInference
