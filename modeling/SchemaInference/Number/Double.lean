import SchemaInference.Error

/-!
# Double precision numbers over exact rationals

A finite double is kept as the rational it denotes, so each operation is the exact rational
operation followed by one rounding.  The rounding is a parameter: `Rounding.binary64` is the usual
one (53 bits, nearest, ties to even, gradual underflow), and `Rounding.exact` keeps every result.
What a computation does in doubles and what it does in exact arithmetic are then two instances of one
definition.
-/

set_option autoImplicit false

namespace SchemaInference

/-- How an exact result is brought back to a representable one; `none` when it is too large. -/
structure Rounding where
  apply : Rat → Option Rat

namespace Rounding

def nearest (num den : Nat) : Nat :=
  let q := num / den
  let r := num % den
  if 2 * r < den then q
  else if den < 2 * r then q + 1
  else if q % 2 = 0 then q else q + 1

def scaled (m : Int) (e : Int) : Rat :=
  match e with
  | .ofNat k => (m * Nat.pow 2 k : Int)
  | .negSucc k => mkRat m (Nat.pow 2 (k + 1))

/-- The exponent of the last of the 53 places that the positive `num / den` has. -/
def lastPlace (num den : Nat) : Int :=
  let guess : Int := (num.log2 : Int) - den.log2 - 53
  -- `num / den` lies strictly between `2 ^ (guess + 52)` and `2 ^ (guess + 54)`.
  let wide : Bool := match guess with
    | .ofNat k => decide (den * Nat.pow 2 (k + 53) ≤ num)
    | .negSucc k => decide (den * Nat.pow 2 53 ≤ num * Nat.pow 2 (k + 1))
  max (-1074) (if wide then guess + 1 else guess)

def significand (num den : Nat) (e : Int) : Nat :=
  match e with
  | .ofNat k => nearest num (den * Nat.pow 2 k)
  | .negSucc k => nearest (num * Nat.pow 2 (k + 1)) den

/-- Fifty-three bits, to the nearest, a tie to the even one; magnitudes from `2 ^ 1024` are too large. -/
def binary64 : Rounding where
  apply q :=
    if q.num = 0 then some 0
    else
      let num := q.num.natAbs
      let e := lastPlace num q.den
      let m := significand num q.den e
      let rounded := scaled (if q.num < 0 then -(m : Int) else m) e
      if rounded.num.natAbs < Nat.pow 2 1024 * rounded.den then some rounded else none

def exact : Rounding where
  apply := some

@[simp] theorem exact_apply (q : Rat) : exact.apply q = some q := rfl

end Rounding

inductive Double
  | nan
  | infinite (negative : Bool)
  | negativeZero
  | finite (q : Rat)
deriving DecidableEq, Inhabited

namespace Double

def toRat? : Double → Option Rat
  | nan => none
  | infinite _ => none
  | negativeZero => some 0
  | finite q => some q

def isNegative : Double → Bool
  | nan => false
  | infinite negative => negative
  | negativeZero => true
  | finite q => decide (q < 0)

def isNan : Double → Bool
  | nan => true
  | _ => false

def isFinite (x : Double) : Bool :=
  x.toRat?.isSome

def zero (negative : Bool) : Double :=
  if negative then negativeZero else finite 0

/-- The rounded exact result, `negative` being its sign in case it becomes zero. -/
def ofExact (r : Rounding) (negative : Bool) (q : Rat) : Double :=
  match r.apply q with
  | none => infinite negative
  | some v => if v.num = 0 then zero negative else finite v

def ofRat (r : Rounding) (q : Rat) : Double :=
  ofExact r (decide (q < 0)) q

def ofInt (r : Rounding) (i : Int) : Except ConversionError Double :=
  match r.apply i with
  | none => .error .integerTooLarge
  | some v => .ok (finite v)

def neg : Double → Double
  | nan => nan
  | infinite negative => infinite (!negative)
  | negativeZero => finite 0
  | finite q => if q.num = 0 then negativeZero else finite (-q)

def add (r : Rounding) : Double → Double → Double
  | nan, _ => nan
  | _, nan => nan
  | infinite s, infinite t => if s = t then infinite s else nan
  | infinite s, _ => infinite s
  | _, infinite t => infinite t
  | negativeZero, negativeZero => negativeZero
  | negativeZero, finite q => finite q
  | finite q, negativeZero => finite q
  | finite p, finite q => ofRat r (p + q)

def sub (r : Rounding) (x y : Double) : Double :=
  add r x y.neg

def mul (r : Rounding) (x y : Double) : Double :=
  let negative := x.isNegative != y.isNegative
  match x.toRat?, y.toRat? with
  | some p, some q => ofExact r negative (p * q)
  | some p, none => if y.isNan || p.num = 0 then nan else infinite negative
  | none, some q => if x.isNan || q.num = 0 then nan else infinite negative
  | none, none => if x.isNan || y.isNan then nan else infinite negative

def quotient (r : Rounding) (num den : Int) : Except ConversionError Double :=
  if den = 0 then .error .divisionByZero
  else .ok (ofExact r (decide (num < 0) != decide (den < 0)) ((num : Rat) / (den : Rat)))

def lt : Double → Double → Bool
  | nan, _ => false
  | _, nan => false
  | infinite s, infinite t => s && !t
  | infinite s, _ => s
  | _, infinite t => !t
  | x, y => match x.toRat?, y.toRat? with
    | some p, some q => decide (p < q)
    | _, _ => false

def eq : Double → Double → Bool
  | infinite s, infinite t => s == t
  | x, y => match x.toRat?, y.toRat? with
    | some p, some q => decide (p = q)
    | _, _ => false

def le (x y : Double) : Bool :=
  lt x y || eq x y

def truncate : Double → Except ConversionError Int
  | nan => .error .nanAsInteger
  | infinite _ => .error .infinityAsInteger
  | negativeZero => .ok 0
  | finite q => .ok (q.num.tdiv q.den)

def whole? : Double → Option Int
  | nan => none
  | infinite _ => none
  | negativeZero => some 0
  | finite q => if q.den = 1 then some q.num else none

@[simp] theorem toRat?_finite (q : Rat) : (finite q).toRat? = some q := rfl

@[simp] theorem toRat?_negativeZero : negativeZero.toRat? = some 0 := rfl

end Double

inductive Number
  | whole (i : Int)
  | real (x : Double)
deriving DecidableEq, Inhabited

namespace Number

def toDouble (r : Rounding) : Number → Except ConversionError Double
  | whole i => Double.ofInt r i
  | real x => .ok x

/-- Whole with whole stays whole; any other pair goes through doubles. -/
def combine (r : Rounding) (onWhole : Int → Int → Int) (onReal : Double → Double → Double) :
    Number → Number → Except ConversionError Number
  | whole i, whole j => .ok (whole (onWhole i j))
  | x, y => do
    let a ← x.toDouble r
    let b ← y.toDouble r
    .ok (real (onReal a b))

def add (r : Rounding) : Number → Number → Except ConversionError Number :=
  combine r (· + ·) (Double.add r)

def sub (r : Rounding) : Number → Number → Except ConversionError Number :=
  combine r (· - ·) (Double.sub r)

def mul (r : Rounding) : Number → Number → Except ConversionError Number :=
  combine r (· * ·) (Double.mul r)

/-- The exact value with its kind forgotten; only comparisons use it. -/
def widened : Number → Double
  | whole i => .finite i
  | real x => x

def lt (x y : Number) : Bool :=
  Double.lt x.widened y.widened

def eq (x y : Number) : Bool :=
  Double.eq x.widened y.widened

def least (x y : Number) : Number :=
  if lt y x then y else x

def greatest (x y : Number) : Number :=
  if lt x y then y else x

def truncate : Number → Except ConversionError Int
  | whole i => .ok i
  | real x => x.truncate

def isZero : Number → Bool
  | whole i => i == 0
  | real x => Double.eq x (.finite 0)

end Number

end SchemaInference
