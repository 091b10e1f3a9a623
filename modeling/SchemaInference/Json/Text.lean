import SchemaInference.Number.Numeral
import SchemaInference.Text.Wide

/-!
# Canonical JSON text

Object members are written in order of their names and all text in ASCII, so that equal data has one
text.  An indent puts every item on a line of its own.
-/

set_option autoImplicit false

namespace SchemaInference

inductive Json
  | null
  | bool (b : Bool)
  | number (n : Number)
  | text (s : WideText)
  | list (items : List Json)
  | object (members : List (String × Json))
deriving Inhabited

namespace Json

def unitEscape (code : Nat) : List Char :=
  '\\' :: 'u' :: Text.hexPadded 4 code

def escapedChar (c : Char) : List Char :=
  let code := c.toNat
  if c = '"' then ['\\', '"']
  else if c = '\\' then ['\\', '\\']
  else if c = '\n' then ['\\', 'n']
  else if c = '\r' then ['\\', 'r']
  else if c = '\t' then ['\\', 't']
  else if code = 8 then ['\\', 'b']
  else if code = 12 then ['\\', 'f']
  else if 32 ≤ code ∧ code < 127 then [c]
  else unitEscape code

def escapedUnit : CodePoint → List Char
  | .char c => escapedChar c
  | .lone unit => unitEscape (CodePoint.lone unit).code

/-- The text in units, so that a character beyond the first plane is written as its two halves would be. -/
def quoted (s : WideText) : String :=
  String.ofList ('"' :: s.units.flatMap escapedUnit ++ ['"'])

def numberText : Number → String
  | .whole i => toString i
  | .real .nan => "NaN"
  | .real (.infinite true) => "-Infinity"
  | .real (.infinite false) => "Infinity"
  | .real x => x.text

abbrev Indent := Option Nat

def bracketed (indent : Indent) (level : Nat) (opening closing : String) (items : List String) : String :=
  if items.isEmpty then opening ++ closing
  else
    match indent with
    | none => opening ++ ", ".intercalate items ++ closing
    | some width =>
      let line (n : Nat) := "\n" ++ String.ofList (List.replicate (width * n) ' ')
      opening ++ line (level + 1) ++ ("," ++ line (level + 1)).intercalate items ++ line level ++ closing

mutual

def writeAt (indent : Indent) (level : Nat) : Json → String
  | null => "null"
  | bool true => "true"
  | bool false => "false"
  | number n => numberText n
  | text s => quoted s
  | list items => bracketed indent level "[" "]" (writeItems indent (level + 1) items)
  | object members =>
    let written := writeMembers indent (level + 1) members
    let ordered := written.mergeSort fun a b => !decide (b.1 < a.1)
    bracketed indent level "\x7b" "\x7d" (ordered.map (·.2))

def writeItems (indent : Indent) (level : Nat) : List Json → List String
  | [] => []
  | item :: rest => writeAt indent level item :: writeItems indent level rest

/-- Every member with its name, by which it will be put in order. -/
def writeMembers (indent : Indent) (level : Nat) : List (String × Json) → List (String × String)
  | [] => []
  | (name, value) :: rest =>
    (name, quoted name ++ ": " ++ writeAt indent level value) :: writeMembers indent level rest

end

def write (indent : Indent) (j : Json) : String :=
  writeAt indent 0 j

mutual

def isWritable : Json → Bool
  | number (.whole i) => Numeral.isWritable i
  | list items => areWritable items
  | object members => areMembersWritable members
  | _ => true

def areWritable : List Json → Bool
  | [] => true
  | item :: rest => isWritable item && areWritable rest

def areMembersWritable : List (String × Json) → Bool
  | [] => true
  | (_, value) :: rest => isWritable value && areMembersWritable rest

end

def line (j : Json) : Except ConversionError String :=
  if j.isWritable then .ok (j.write none) else .error .tooLongToWrite

def whole (n : Nat) : Json := number (.whole n)

def ofTexts (texts : List String) : Json :=
  list (texts.map fun (s : String) => text s)

def ofText? : Option String → Json
  | some s => text s
  | none => null

def ofNat? : Option Nat → Json
  | some n => whole n
  | none => null

end Json

end SchemaInference
