import SchemaInference.Text.Quoted

set_option autoImplicit false

namespace SchemaInference

/-- A character, or one half of a pair of units that stands alone. -/
inductive CodePoint
  | char (c : Char)
  /-- The unit `0xd800 + unit`. -/
  | lone (unit : Fin 0x800)
deriving DecidableEq, Inhabited

namespace CodePoint

def code : CodePoint → Nat
  | char c => c.toNat
  | lone unit => 0xd800 + unit

def ofCode (code : Nat) : CodePoint :=
  if 0xd800 ≤ code ∧ code < 0xe000 then lone (Fin.ofNat 0x800 (code - 0xd800)) else char (Char.ofNat code)

def shown : CodePoint → Char
  | char c => c
  | lone _ => Char.ofNat 0xfffd

/-- The code point in units of sixteen bits, of which a character beyond the first plane takes two. -/
def units : CodePoint → List CodePoint
  | lone unit => [lone unit]
  | char c =>
    if c.toNat < 0x10000 then [char c]
    else
      let offset := c.toNat - 0x10000
      [lone (Fin.ofNat 0x800 (offset / 0x400)), lone (Fin.ofNat 0x800 (0x400 + offset % 0x400))]

def pair? (first second : Fin 0x800) : Option Char :=
  if first.val < 0x400 ∧ 0x400 ≤ second.val then
    some (Char.ofNat (0x10000 + first.val * 0x400 + (second.val - 0x400)))
  else none

def escaped (quote : Char) : CodePoint → List Char
  | char c => Text.escapedChar quote c
  | lone unit => '\\' :: 'u' :: Text.hexPadded 4 (0xd800 + unit)

end CodePoint

/-- A text in which halves of pairs may stand alone; two of them side by side are not yet the character. -/
abbrev WideText := List CodePoint

namespace WideText

def ofString (s : String) : WideText :=
  s.toList.map .char

instance : Coe String WideText := ⟨ofString⟩

def shown (s : WideText) : String :=
  String.ofList (s.map CodePoint.shown)

def units (s : WideText) : WideText :=
  s.flatMap CodePoint.units

def joined : WideText → WideText
  | .lone first :: .lone second :: rest =>
    match CodePoint.pair? first second with
    | some c => .char c :: joined rest
    | none => .lone first :: joined (.lone second :: rest)
  | p :: rest => p :: joined rest
  | [] => []

def quoted (s : WideText) : String :=
  let quote := Text.quoteFor s.shown.toList
  String.ofList (quote :: s.flatMap (CodePoint.escaped quote) ++ [quote])

end WideText

end SchemaInference
