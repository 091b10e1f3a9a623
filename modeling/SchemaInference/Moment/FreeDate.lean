import SchemaInference.Moment.Calendar
import SchemaInference.Number.Numeral
import SchemaInference.Text.Case
import SchemaInference.Text.WordChar

/-!
# Dates in free form

One reader that an almanac may have.  A text is cut into words, numbers and marks, which are read from left to
right: numbers become parts of the date or of the time by their length and by what stands around them, words
are months, weekdays, units, halves of the day or zones.  A word that means nothing makes the whole text mean
nothing.  Parts of the date that are missing are those of the present day, or of the first day of the named
weekday from then on.
-/

set_option autoImplicit false

namespace SchemaInference

namespace FreeDate

/-! ## Cutting a text -/

inductive Shape
  | letters
  | digits
  | lettersAndPoints
  | digitsAndPoints
deriving DecidableEq

def isLetter (c : Char) : Bool :=
  Text.isWordChar c && c ≠ '_' && !Text.isDigitLike c

def Shape.grow (shape : Shape) (piece : List Char) (c : Char) : Option Shape :=
  let afterPoint := piece.getLast? == some '.'
  match shape with
  | letters => if isLetter c then some letters else if c = '.' then some lettersAndPoints else none
  | digits =>
    if Text.isDigitLike c then some digits
    else if c = '.' || (c = ',' && 2 ≤ piece.length) then some digitsAndPoints
    else none
  | lettersAndPoints =>
    if c = '.' || isLetter c then some lettersAndPoints
    else if Text.isDigitLike c && afterPoint then some digitsAndPoints
    else none
  | digitsAndPoints =>
    if c = '.' || Text.isDigitLike c then some digitsAndPoints
    else if isLetter c && afterPoint then some lettersAndPoints
    else none

def extend (shape : Shape) (piece : List Char) : List Char → Shape × List Char × List Char
  | [] => (shape, piece, [])
  | c :: rest =>
    match shape.grow piece c with
    | some shape => extend shape (piece ++ [c]) rest
    | none => (shape, piece, c :: rest)

def splitAtPoints (word : List Char) : List Char → List (List Char)
  | [] => if word.isEmpty then [] else [word]
  | c :: rest =>
    if c = '.' ∨ c = ',' then
      (if word.isEmpty then [[c]] else [word, [c]]) ++ splitAtPoints [] rest
    else splitAtPoints (word ++ [c]) rest

def broken (shape : Shape) (piece : List Char) : List (List Char) :=
  let points := piece.count '.'
  let endsOpen := piece.getLast?.any fun c => c = '.' || c = ','
  match shape with
  | .letters => [piece]
  | .digits => [piece]
  | .lettersAndPoints => splitAtPoints [] piece
  | .digitsAndPoints =>
    if piece.any isLetter || 1 < points || endsOpen then splitAtPoints [] piece
    else if points = 0 then [piece.map fun c => if c = ',' then '.' else c]
    else [piece]

/-- The pieces of a text; every blank is a piece.  Each step takes a character off, so `fuel` is the
length of the text. -/
def pieces : Nat → List Char → List (List Char)
  | 0, _ => []
  | _ + 1, [] => []
  | fuel + 1, c :: rest =>
    if isLetter c then
      let (shape, piece, rest) := extend .letters [c] rest
      broken shape piece ++ pieces fuel rest
    else if Text.isDigitLike c then
      let (shape, piece, rest) := extend .digits [c] rest
      broken shape piece ++ pieces fuel rest
    else if Text.isBlank c then [' '] :: pieces fuel rest
    else [c] :: pieces fuel rest

def piecesOf (s : String) : Array String :=
  let cs := s.toList.filter (·.toNat ≠ 0)
  ((pieces cs.length cs).map String.ofList).toArray

/-! ## Words -/

def fillers : List String :=
  [" ", ".", ",", ";", "-", "/", "'", "at", "on", "and", "ad", "m", "t", "of", "st", "nd", "rd", "th"]

def isFiller (piece : String) : Bool :=
  fillers.contains (Text.lower piece)

def weekdays : List (List String) :=
  [["mon", "monday"], ["tue", "tuesday"], ["wed", "wednesday"], ["thu", "thursday"], ["fri", "friday"],
    ["sat", "saturday"], ["sun", "sunday"]]

def weekday? (piece : String) : Option Int :=
  (weekdays.findIdx? (·.contains (Text.lower piece))).map fun i => (i : Int)

def months : List (List String) :=
  [["jan", "january"], ["feb", "february"], ["mar", "march"], ["apr", "april"], ["may"], ["jun", "june"],
    ["jul", "july"], ["aug", "august"], ["sep", "sept", "september"], ["oct", "october"],
    ["nov", "november"], ["dec", "december"]]

def month? (piece : String) : Option Int :=
  (months.findIdx? (·.contains (Text.lower piece))).map fun i => (i : Int) + 1

def units : List (List String) :=
  [["h", "hour", "hours"], ["m", "minute", "minutes"], ["s", "second", "seconds"]]

def unit? (piece : String) : Option Nat :=
  units.findIdx? (·.contains (Text.lower piece))

def half? (piece : String) : Option Bool :=
  let word := Text.lower piece
  if word = "am" ∨ word = "a" then some false
  else if word = "pm" ∨ word = "p" then some true
  else none

def isUniversal (piece : String) : Bool :=
  ["utc", "gmt", "z"].contains (Text.lower piece)

def hourInHalf (hour : Int) (second : Bool) : Int :=
  if hour < 12 ∧ second then hour + 12 else if hour = 12 ∧ !second then 0 else hour

def number? (piece : String) : Option Rat :=
  (Numeral.decimalOf (Numeral.plainDigits piece)).map Decimal.toRat

def isNamedNumber (piece : String) : Bool :=
  (Numeral.namedOf false piece.toList).isSome

def integer? (piece : String) : Option Int :=
  Numeral.readInteger? piece

def isDigits (piece : String) : Bool :=
  !piece.isEmpty && piece.toList.all Text.isDigitLike

def digits? (piece : String) (start stop : Nat) : Option Int :=
  integer? (String.ofList ((piece.toList.take stop).drop start))

def seconds? (piece : String) : Option (Int × Int) :=
  match piece.splitOn "." with
  | [whole] => (integer? whole).map fun s => (s, 0)
  | [whole, places] => do
    let s ← integer? whole
    let micro ← integer? (String.ofList ((places.toList ++ List.replicate 6 '0').take 6))
    some (s, micro)
  | _ => none

def minutesAndSeconds (value : Rat) : Int × Option Int :=
  let minute := value.floor
  let rest := value - minute
  (minute, if rest = 0 then none else some (60 * rest).floor)

/-! ## The parts of a date -/

structure DateParts where
  numbers : List Int
  yearAt : Option Nat
  monthAt : Option Nat
  hasCentury : Bool

namespace DateParts

def none : DateParts := ⟨[], .none, .none, false⟩

def addPlain (p : DateParts) (n : Int) : DateParts :=
  { p with numbers := p.numbers ++ [n] }

def addYear (p : DateParts) (n : Int) : Option DateParts :=
  if p.yearAt.isSome then .none
  else some { p with numbers := p.numbers ++ [n], yearAt := some p.numbers.length, hasCentury := true }

def addMonth (p : DateParts) (n : Int) : Option DateParts :=
  if p.monthAt.isSome then .none
  else some { p with numbers := p.numbers ++ [n], monthAt := some p.numbers.length }

def addDigits (p : DateParts) (piece : String) : Option DateParts :=
  match integer? piece with
  | .none => .none
  | some n => if isDigits piece && 2 < piece.length then p.addYear n else some (p.addPlain n)

/-- Adds a number by its amount; above one hundred it is a year. -/
def addAmount (p : DateParts) (value : Rat) : Option DateParts :=
  if 100 < value then p.addYear value.floor else some (p.addPlain value.floor)

def get (p : DateParts) (i : Nat) : Int :=
  p.numbers.getD i 0

def couldBeDay (p : DateParts) (value : Rat) : Bool :=
  match p.monthAt, p.yearAt with
  | .none, _ => 1 ≤ value && value ≤ 31
  | some m, .none => 1 ≤ value && value ≤ Calendar.monthLength 2000 (p.get m)
  | some m, some y => 1 ≤ value && value ≤ Calendar.monthLength (p.get y) (p.get m)

structure Resolved where
  year : Option Int
  month : Option Int
  day : Option Int

def resolveNumbers (p : DateParts) (a b c : Int) : Resolved :=
  if 31 < a ∨ p.yearAt = some 0 then ⟨a, b, c⟩
  else if 12 < a then ⟨c, b, a⟩
  else ⟨c, a, b⟩

/-- Gives every number its part: first by what is known, then by size, then month before day. -/
def resolve (p : DateParts) : Option Resolved :=
  match p.numbers, p.monthAt, p.yearAt with
  | [a, b, c], some m, some y => some ⟨p.get y, p.get m, [a, b, c].getD (3 - m - y) 0⟩
  | [_, _], some m, some y => some ⟨p.get y, p.get m, .none⟩
  | [a], some _, _ => some ⟨.none, a, .none⟩
  | [a], .none, some _ => some ⟨a, .none, .none⟩
  | [a], .none, .none => some (if 31 < a then ⟨a, .none, .none⟩ else ⟨.none, .none, a⟩)
  | [a, b], some m, .none =>
    let other := if m = 0 then b else a
    some (if 31 < other then ⟨other, p.get m, .none⟩ else ⟨.none, p.get m, other⟩)
  | [a, b], .none, _ =>
    some (if 31 < a then ⟨a, b, .none⟩ else if 31 < b then ⟨b, a, .none⟩ else ⟨.none, a, b⟩)
  | [a, b, c], some 0, .none => some (if 31 < b then ⟨b, a, c⟩ else ⟨c, a, b⟩)
  | [a, b, c], some 1, .none => some (if 31 < a then ⟨a, b, c⟩ else ⟨c, b, a⟩)
  | [a, b, c], some _, .none => some (if 31 < b then ⟨b, c, a⟩ else ⟨a, c, b⟩)
  | [a, b, c], .none, _ => some (p.resolveNumbers a b c)
  | [], _, _ => some ⟨.none, .none, .none⟩
  | _, _, _ => .none

end DateParts

/-! ## Reading the pieces -/

structure State where
  date : DateParts
  weekday : Option Int
  hour : Option Int
  minute : Option Int
  second : Option Int
  microsecond : Option Int
  zone : Option String
  offset : Option Int
  /-- Whether the next offset counts the other way, as it does after the name of a zone. -/
  reversed : Bool
  found : Bool

def State.initial : State where
  date := .none
  weekday := none
  hour := none
  minute := none
  second := none
  microsecond := none
  zone := none
  offset := none
  reversed := false
  found := false

def isAt (pieces : Array String) (i : Nat) (piece : String) : Bool :=
  pieces[i]? == some piece

def wordAt {α : Type} (pieces : Array String) (i : Nat) (meaning : String → Option α) : Option α :=
  pieces[i]?.bind meaning

def couldBeZone (s : State) (piece : String) : Bool :=
  s.hour.isSome && s.zone.isNone && s.offset.isNone && decide (piece.length ≤ 5) &&
    (piece.toList.all Char.isUpper || ["UTC", "GMT", "Z", "z"].contains piece)

/-- The position of the unit that belongs to the number at a position: after it, else before it. -/
def unitFor (pieces : Array String) (i : Nat) : Option Nat :=
  let hasUnit (k : Nat) : Bool := (wordAt pieces k unit?).isSome
  if hasUnit (i + 1) then some (i + 1)
  else if isAt pieces (i + 1) " " && hasUnit (i + 2) then some (i + 2)
  else if 0 < i && hasUnit (i - 1) then some (i - 1)
  else if 1 < i && i + 1 == pieces.size && isAt pieces (i - 1) " " && hasUnit (i - 2) then some (i - 2)
  else none

def setByUnit (s : State) (piece : String) (value : Rat) (unit : Nat) : Option State :=
  match unit with
  | 0 =>
    let hour := value.floor
    let rest := value - hour
    some { s with hour, minute := if rest = 0 then s.minute else some (60 * rest).floor }
  | 1 =>
    let (minute, second) := minutesAndSeconds value
    some { s with minute, second }
  | 2 => (seconds? piece).map fun (second, microsecond) =>
    { s with second := some second, microsecond := some microsecond }
  | _ => some s

def readClock (pieces : Array String) (i : Nat) (value : Rat) (s : State) : Option (Nat × State) := do
  let (minute, second) := minutesAndSeconds (← wordAt pieces (i + 2) number?)
  let s := { s with hour := some value.floor, minute, second }
  if isAt pieces (i + 3) ":" && decide (i + 4 < pieces.size) then
    let (second, microsecond) ← wordAt pieces (i + 4) seconds?
    some (i + 4, { s with second := some second, microsecond := some microsecond })
  else some (i + 2, s)

def readMarked (pieces : Array String) (i : Nat) (piece mark : String) (s : State) :
    Option (Nat × State) := do
  let date ← s.date.addDigits piece
  match pieces[i + 2]? with
  | none => some (i + 1, { s with date })
  | some next =>
    if isFiller next then some (i + 1, { s with date })
    else
      let date ← if isDigits next then date.addDigits next else (month? next).bind date.addMonth
      if isAt pieces (i + 3) mark then
        let last ← pieces[i + 4]?
        let date ← match month? last with
          | some m => date.addMonth m
          | none => date.addDigits last
        some (i + 4, { s with date })
      else some (i + 2, { s with date })

def readNumber (pieces : Array String) (i : Nat) (piece : String) (value : Rat) (s : State) :
    Option (Nat × State) :=
  let size := piece.length
  let next := pieces[i + 1]?
  let plainDigits := !piece.toList.contains '.'
  if s.date.numbers.length == 3 && (size == 2 || size == 4) && s.hour.isNone &&
      next.all (fun w => w ≠ ":" && (unit? w).isNone) then do
    let hour ← digits? piece 0 2
    let minute ← if size = 4 then (digits? piece 2 4).map some else some s.minute
    some (i, { s with hour := some hour, minute })
  else if size == 6 || (6 < size && piece.toList.idxOf? '.' == some 6) then
    if s.date.numbers.isEmpty && plainDigits then do
      let date ← s.date.addDigits (String.ofList (piece.toList.take 2))
      let date ← date.addDigits (String.ofList ((piece.toList.drop 2).take 2))
      let date ← date.addDigits (String.ofList (piece.toList.drop 4))
      some (i, { s with date })
    else do
      let (second, microsecond) ← seconds? (String.ofList (piece.toList.drop 4))
      some (i, { s with
        hour := some (← digits? piece 0 2)
        minute := some (← digits? piece 2 4)
        second := some second
        microsecond := some microsecond })
  else if size == 8 || size == 12 || size == 14 then do
    let date ← s.date.addYear (← digits? piece 0 4)
    let date := (date.addPlain (← digits? piece 4 6)).addPlain (← digits? piece 6 8)
    let s := { s with date }
    if size = 8 then some (i, s)
    else
      let second ← if size = 14 then (digits? piece 12 14).map some else some s.second
      some (i, { s with hour := some (← digits? piece 8 10), minute := some (← digits? piece 10 12), second })
  else
    match unitFor pieces i with
    | some k => do
      let unit ← wordAt pieces k unit?
      let s ← setByUnit s piece value (if i < k then unit else unit + 1)
      some (max i k, s)
    | none =>
      if next == some ":" && decide (i + 2 < pieces.size) then readClock pieces i value s
      else
        match next with
        | some "-" => readMarked pieces i piece "-" s
        | some "/" => readMarked pieces i piece "/" s
        | some "." => readMarked pieces i piece "." s
        | _ =>
          if next.all isFiller then
            match wordAt pieces (i + 2) half? with
            | some second => some (i + 2, { s with hour := some (hourInHalf value.floor second) })
            | none => (s.date.addAmount value).map fun date => (i + 1, { s with date })
          else
            match next.bind half? with
            | some second =>
              if 0 ≤ value ∧ value < 24 then
                some (i + 1, { s with hour := some (hourInHalf value.floor second) })
              else if s.date.couldBeDay value then
                (s.date.addAmount value).map fun date => (i, { s with date })
              else none
            | none =>
              if s.date.couldBeDay value then
                (s.date.addAmount value).map fun date => (i, { s with date })
              else none

/-- The century that a year of two digits belongs to: the year lies within fifty years of the present. -/
def fullYear (presentYear year : Int) (hasCentury : Bool) : Int :=
  if 100 ≤ year ∨ hasCentury then year
  else
    let y := year + presentYear / 100 * 100
    if presentYear + 50 ≤ y then y - 100 else if y < presentYear - 50 then y + 100 else y

def readMonth (presentYear : Int) (pieces : Array String) (i : Nat) (m : Int) (s : State) :
    Option (Nat × State) := do
  let date ← s.date.addMonth m
  match pieces[i + 1]? with
  | none => some (i, { s with date })
  | some mark =>
    if mark = "-" ∨ mark = "/" then
      let date ← date.addDigits (← pieces[i + 2]?)
      if isAt pieces (i + 3) mark then
        let date ← date.addDigits (← pieces[i + 4]?)
        some (i + 4, { s with date })
      else some (i + 2, { s with date })
    else if mark = " " && isAt pieces (i + 3) " " && (wordAt pieces (i + 2) fun w =>
        if Text.lower w = "of" then some () else none).isSome && decide (i + 4 < pieces.size) then
      let last ← pieces[i + 4]?
      if isDigits last then
        let date ← date.addYear (fullYear presentYear (← integer? last) false)
        some (i + 4, { s with date })
      else some (i + 4, { s with date })
    else some (i, { s with date })

def readOffset (pieces : Array String) (i : Nat) (negative : Bool) (s : State) : Option (Nat × State) := do
  let digits ← pieces[i + 1]?
  let size := digits.length
  let sign : Int := if negative then -1 else 1
  let (last, hours, minutes) ←
    if size = 4 then do some (i + 1, ← digits? digits 0 2, ← digits? digits 2 4)
    else if isAt pieces (i + 2) ":" then do some (i + 3, ← integer? digits, ← wordAt pieces (i + 3) integer?)
    else if size ≤ 2 then do some (i + 1, ← digits? digits 0 2, 0)
    else none
  let s := { s with offset := some (sign * (hours * 3600 + minutes * 60)) }
  match pieces[last + 3]? with
  | some name =>
    if (wordAt pieces (last + 1) fun w => if isFiller w then some () else none).isSome &&
        isAt pieces (last + 2) "(" && isAt pieces (last + 4) ")" && decide (3 ≤ name.length) &&
        couldBeZone { s with offset := none } name then
      some (last + 4, { s with zone := some name })
    else some (last, s)
  | none => some (last, s)

def readPiece (presentYear : Int) (pieces : Array String) (i : Nat) (piece : String) (s : State) :
    Option (Nat × State) :=
  if isNamedNumber piece then none
  else
    match number? piece with
    | some value => readNumber pieces i piece value { s with found := true }
    | none =>
      match weekday? piece, month? piece with
      | some weekday, _ => some (i, { s with weekday := some weekday, found := true })
      | none, some m => readMonth presentYear pieces i m { s with found := true }
      | none, none =>
        match half? piece, s.hour with
        | some second, some hour =>
          if 0 ≤ hour ∧ hour ≤ 12 then some (i, { s with hour := some (hourInHalf hour second) })
          else none
        | some _, none => none
        | none, _ =>
          if couldBeZone s piece then
            let signed := isAt pieces (i + 1) "+" || isAt pieces (i + 1) "-"
            if signed then
              some (i, { s with
                zone := if isUniversal piece then none else some piece
                offset := none
                reversed := true })
            else some (i, { s with zone := some piece, offset := if piece = "z" then some 0 else none })
          else if s.hour.isSome && (piece == "+" || piece == "-") then
            readOffset pieces i ((piece == "-") != s.reversed) { s with reversed := false }
          else if isFiller piece then some (i, s)
          else none

def readFrom (presentYear : Int) (pieces : Array String) : Nat → Nat → State → Option State
  | 0, _, s => some s
  | fuel + 1, i, s =>
    match pieces[i]? with
    | none => some s
    | some piece =>
      match readPiece presentYear pieces i piece s with
      | none => none
      | some (last, s) => readFrom presentYear pieces fuel (last + 1) s

/-- The offset that counts: a name of universal time goes before a number, and no zone is no offset. -/
def State.effectiveOffset (s : State) : Option Int :=
  if s.zone.any isUniversal then some 0 else s.offset

def onWeekday (weekday year month day : Int) : Int × Int × Int :=
  let start := Calendar.dayNumber year month day
  let found := start + (weekday - start) % 7
  let year := Calendar.yearOf found
  (year, Calendar.monthAndDay year (found - Calendar.dayNumber year 1 1))

def read? (present : Moment) (s : String) : Option DateTime := do
  let today := present.dayNumber
  let presentYear := Calendar.yearOf today
  let (presentMonth, presentDay) :=
    Calendar.monthAndDay presentYear (today - Calendar.dayNumber presentYear 1 1)
  let pieces := piecesOf s
  let state ← readFrom presentYear pieces pieces.size 0 .initial
  if !state.found then none
  let parts ← state.date.resolve
  let year := (parts.year.map fun y => fullYear presentYear y state.date.hasCentury).getD presentYear
  let month := parts.month.getD presentMonth
  let day := parts.day.getD (min presentDay (Calendar.monthLength year month))
  let clock := ClockTime.mk year month day (state.hour.getD 0) (state.minute.getD 0) (state.second.getD 0)
    (state.microsecond.getD 0)
  if !clock.isValid || (state.effectiveOffset.any fun o => 999999999 < (o / 86400).natAbs) then none
  match state.weekday, parts.day with
  | some weekday, none =>
    let (year, month, day) := onWeekday weekday year month day
    DateTime.ofClock? { clock with year, month, day } state.effectiveOffset
  | _, _ => DateTime.ofClock? clock state.effectiveOffset

def unknownForm (s : String) : PlainError :=
  ⟨"ParserError", [.value], "Unknown string format: " ++ s⟩

/-- An almanac of a given present moment whose free dates are read so. -/
def almanac (present : Moment) : Almanac :=
  ⟨present, fun s => (read? present s).elim (.error (unknownForm s)) .ok⟩

def atYear2000 : Almanac :=
  almanac ⟨63082281600000000⟩

end FreeDate

end SchemaInference
