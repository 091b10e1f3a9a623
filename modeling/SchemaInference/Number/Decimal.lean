import SchemaInference.Number.Double

/-!
# Decimal texts of doubles

`Decimal.shortest` finds the fewest digits that read back as the same double, the nearest such digits
when there are several.  `Decimal.significant` and `Decimal.places` round the exact value to a fixed
number of digits or of places, a half going to the even neighbour.  How digits are laid out on the
line is one record per output, below the digits.
-/

set_option autoImplicit false

namespace SchemaInference

structure Decimal where
  digits : Nat
  exponent : Int
deriving DecidableEq

namespace Decimal

def digitsOf (n : Nat) : List Char :=
  Nat.toDigits 10 n

/-- `num / den` times `10 ^ (-e)`, as a fraction of naturals. -/
def onGrid (num den : Nat) (e : Int) : Nat × Nat :=
  match e with
  | .ofNat k => (num, den * Nat.pow 10 k)
  | .negSucc k => (num * Nat.pow 10 (k + 1), den)

def leadingPlace (num den : Nat) : Int :=
  let guess : Int := ((digitsOf num).length : Int) - (digitsOf den).length
  let (a, b) := onGrid num den guess
  if a < b then guess - 1 else guess

def stripZeros : Nat → Decimal → Decimal
  | 0, d => d
  | fuel + 1, d =>
    if d.digits ≠ 0 ∧ d.digits % 10 = 0 then stripZeros fuel ⟨d.digits / 10, d.exponent + 1⟩ else d

def toRat (d : Decimal) : Rat :=
  match d.exponent with
  | .ofNat k => (d.digits * Nat.pow 10 k : Nat)
  | .negSucc k => mkRat d.digits (Nat.pow 10 (k + 1))

/-- The reals that round to a positive double: its neighbours' midpoints, and whether they count. -/
structure Neighbourhood where
  low : Rat
  high : Rat
  closed : Bool

def neighbourhood (q : Rat) : Neighbourhood :=
  let num := q.num.natAbs
  let e := Rounding.lastPlace num q.den
  let m := Rounding.significand num q.den e
  -- Below a power of two the doubles lie twice as close.
  let narrow : Bool := m == Nat.pow 2 52 && decide (-1074 < e)
  { low := if narrow then Rounding.scaled (4 * m - 1) (e - 2) else Rounding.scaled (2 * m - 1) (e - 1)
    high := Rounding.scaled (2 * m + 1) (e - 1)
    closed := m % 2 == 0 }

namespace Neighbourhood

def contains (n : Neighbourhood) (x : Rat) : Bool :=
  decide (n.low < x ∧ x < n.high) || (n.closed && (decide (x = n.low) || decide (x = n.high)))

end Neighbourhood

/-- The two points of the grid `10 ^ e` around `q`, those inside the neighbourhood, nearest first;
of two equally near the even one comes first. -/
def candidates (q : Rat) (n : Neighbourhood) (e : Int) : List Decimal :=
  let (a, b) := onGrid q.num.natAbs q.den e
  let below : Decimal := ⟨a / b, e⟩
  let above : Decimal := ⟨a / b + 1, e⟩
  let ordered := if Rounding.nearest a b = below.digits then [below, above] else [above, below]
  ordered.filter fun d => d.digits ≠ 0 && n.contains d.toRat

/-- The first grid, from coarse to fine, that has a point inside; seventeen digits always do. -/
def search (q : Rat) (n : Neighbourhood) : Nat → Int → Option Decimal
  | 0, _ => none
  | fuel + 1, e =>
    match candidates q n e with
    | d :: _ => some d
    | [] => search q n fuel (e - 1)

def shortest (q : Rat) : Decimal :=
  let top := leadingPlace q.num.natAbs q.den
  match search q (neighbourhood q) 20 (top + 1) with
  | some d => stripZeros 20 d
  | none => ⟨0, 0⟩

def atPlace (q : Rat) (e : Int) : Decimal :=
  let (a, b) := onGrid q.num.natAbs q.den e
  ⟨Rounding.nearest a b, e⟩

def significant (q : Rat) (n : Nat) : Decimal :=
  let top := leadingPlace q.num.natAbs q.den
  let d := atPlace q (top - n + 1)
  -- Rounding up to a power of ten gives one digit too many.
  if d.digits = Nat.pow 10 n then ⟨Nat.pow 10 (n - 1), d.exponent + 1⟩ else d

def withPoint (digits : List Char) (places : Nat) : List Char :=
  if places = 0 then digits
  else
    let padded := List.replicate (places + 1 - digits.length) '0' ++ digits
    padded.take (padded.length - places) ++ '.' :: padded.drop (padded.length - places)

def exponentText (e : Int) : List Char :=
  let digits := digitsOf e.natAbs
  (if e < 0 then '-' else '+') :: (List.replicate (2 - digits.length) '0' ++ digits)

def positional (d : Decimal) : List Char :=
  match d.exponent with
  | .ofNat k => digitsOf (d.digits * Nat.pow 10 k)
  | .negSucc k => withPoint (digitsOf d.digits) (k + 1)

def scientific (d : Decimal) : List Char :=
  let digits := digitsOf d.digits
  withPoint digits (digits.length - 1) ++ 'e' :: exponentText (d.exponent + digits.length - 1)

def leading (d : Decimal) : Int :=
  d.exponent + (digitsOf d.digits).length - 1

structure Layout where
  /-- Leading places from this one on are written positionally, -/
  lowestPositional : Int
  /-- up to and without this one. -/
  scientificFrom : Int
  /-- Whether a whole number keeps a point and a zero. -/
  markWhole : Bool

def plain : Layout := ⟨-4, 16, true⟩

def general (digits : Nat) : Layout := ⟨-4, digits, false⟩

def Layout.write (l : Layout) (d : Decimal) : List Char :=
  if d.leading < l.lowestPositional ∨ l.scientificFrom ≤ d.leading then d.scientific
  else if l.markWhole && decide (0 ≤ d.exponent) then d.positional ++ ['.', '0']
  else d.positional

end Decimal

namespace Double

def written (x : Double) (zero : List Char) (magnitude : Rat → List Char) : String :=
  match x with
  | nan => "nan"
  | infinite true => "-inf"
  | infinite false => "inf"
  | negativeZero => String.ofList ('-' :: zero)
  | finite q =>
    if q.num = 0 then String.ofList zero
    else if q.num < 0 then String.ofList ('-' :: magnitude (-q))
    else String.ofList (magnitude q)

def text (x : Double) : String :=
  x.written ['0', '.', '0'] fun q => Decimal.plain.write (Decimal.shortest q)

def significantText (digits : Nat) (x : Double) : String :=
  x.written (Decimal.withPoint ['0'] (digits - 1)) fun q =>
    (Decimal.general digits).write (Decimal.significant q digits)

def generalTextOf (digits : Nat) (x : Double) : String :=
  x.written ['0'] fun q =>
    (Decimal.general digits).write (Decimal.stripZeros digits (Decimal.significant q digits))

def generalText (x : Double) : String :=
  x.generalTextOf 6

def exponentialText (places : Nat) (x : Double) : String :=
  x.written (Decimal.withPoint ['0'] places ++ 'e' :: Decimal.exponentText 0) fun q =>
    (Decimal.significant q (places + 1)).scientific

def fixedText (places : Nat) (x : Double) : String :=
  x.written (Decimal.withPoint ['0'] places) fun q =>
    Decimal.withPoint (Decimal.digitsOf (Decimal.atPlace q (-(places : Int))).digits) places

/-- The double nearest to `digits * 10 ^ exponent`; far exponents are decided without the power. -/
def ofDecimal (r : Rounding) (negative : Bool) (d : Decimal) : Double :=
  let size : Int := (Decimal.digitsOf d.digits).length + d.exponent
  if d.digits = 0 ∨ size < -400 then zero negative
  else if 400 < size then infinite negative
  else
    let q := d.toRat
    ofExact r negative (if negative then -q else q)

end Double

namespace Number

def text : Number → String
  | whole i => toString i
  | real x => x.text

end Number

end SchemaInference
