import SchemaInference.Number.Decimal
import SchemaInference.Text.Blank
import SchemaInference.Text.Digit

set_option autoImplicit false

namespace SchemaInference

namespace Numeral

def plainDigits (s : String) : List Char :=
  (Text.trimBy Text.isWhite s.toList).map fun c =>
    match Text.digitValue? c with
    | some v => Char.ofNat (48 + v)
    | none => c

/-- The text without its underscores, each of which must stand between two digits. -/
def joined (afterDigit : Bool) : List Char → Option (List Char)
  | [] => some []
  | '_' :: d :: rest =>
    if afterDigit && d.isDigit then (joined true rest).map (d :: ·) else none
  | c :: rest => if c = '_' then none else (joined c.isDigit rest).map (c :: ·)

def valueOf (digits : List Char) : Nat :=
  digits.foldl (fun n c => 10 * n + (c.toNat - 48)) 0

def splitSign : List Char → Bool × List Char
  | '+' :: rest => (false, rest)
  | '-' :: rest => (true, rest)
  | cs => (false, cs)

def signed (negative : Bool) (n : Nat) : Int :=
  if negative then -(n : Int) else n

def integerOf (cs : List Char) : Option Int :=
  let (negative, digits) := splitSign cs
  if digits.isEmpty || !digits.all Char.isDigit then none
  else some (signed negative (valueOf digits))

def decimalOf (cs : List Char) : Option Decimal :=
  let whole := cs.takeWhile Char.isDigit
  let rest := cs.dropWhile Char.isDigit
  let afterPoint := match rest with
    | '.' :: r => r.takeWhile Char.isDigit
    | _ => []
  let tail := match rest with
    | '.' :: r => r.dropWhile Char.isDigit
    | r => r
  if whole.isEmpty && afterPoint.isEmpty then none
  else
    let digits := valueOf (whole ++ afterPoint)
    match tail with
    | [] => some ⟨digits, -(afterPoint.length : Int)⟩
    | e :: r =>
      if e = 'e' ∨ e = 'E' then
        (integerOf r).map fun exponent => ⟨digits, exponent - afterPoint.length⟩
      else none

def namedOf (negative : Bool) (cs : List Char) : Option Double :=
  let name := String.ofList (cs.map Char.toLower)
  if name = "inf" ∨ name = "infinity" then some (.infinite negative)
  else if name = "nan" then some .nan
  else none

/-- The most digits of a whole number that are read or written; more are refused. -/
def mostDigits : Nat := 4300

def readInteger? (s : String) : Option Int :=
  (joined false (plainDigits s)).bind integerOf

def readBounded? (s : String) : Option Int :=
  if mostDigits < s.toList.countP Text.isDecimalDigit then none else readInteger? s

def isWritable (i : Int) : Bool :=
  decide (i.natAbs < Nat.pow 10 mostDigits)

def readDouble? (r : Rounding) (s : String) : Option Double :=
  (joined false (plainDigits s)).bind fun cs =>
    let (negative, magnitude) := splitSign cs
    match decimalOf magnitude with
    | some d => some (Double.ofDecimal r negative d)
    | none => namedOf negative magnitude

end Numeral

end SchemaInference
