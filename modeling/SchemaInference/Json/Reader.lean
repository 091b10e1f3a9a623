import SchemaInference.Json.Text
import SchemaInference.Number.Numeral

set_option autoImplicit false

namespace SchemaInference

namespace Json

abbrev Reader (α : Type) := List Char → Option (α × List Char)

def isSpace (c : Char) : Bool :=
  c = ' ' || c = '\n' || c = '\t' || c = '\r'

def skipSpace (cs : List Char) : List Char :=
  cs.dropWhile isSpace

def hexValue? (cs : List Char) : Option Nat :=
  cs.foldl (fun acc c => acc.bind fun n =>
    if c.isDigit then some (16 * n + (c.toNat - 48))
    else
      let letter := c.toLower.toNat
      if 97 ≤ letter ∧ letter ≤ 102 then some (16 * n + (letter - 87)) else none) (some 0)

def plainEscape? (c : Char) : Option Char :=
  if c = 'n' then some '\n'
  else if c = 't' then some '\t'
  else if c = 'r' then some '\r'
  else if c = 'b' then some (Char.ofNat 8)
  else if c = 'f' then some (Char.ofNat 12)
  else if c = '"' ∨ c = '\\' ∨ c = '/' then some c
  else none

/-- Reads the rest of a text up to its closing quote, one escape as one unit. -/
def readUnits (read : WideText) : Reader WideText
  | [] => none
  | '"' :: rest => some (read.reverse, rest)
  | '\\' :: 'u' :: a :: b :: c :: d :: rest =>
    match hexValue? [a, b, c, d] with
    | some unit => readUnits (.ofCode unit :: read) rest
    | none => none
  | '\\' :: c :: rest =>
    match plainEscape? c with
    | some plain => readUnits (.char plain :: read) rest
    | none => none
  | c :: rest => readUnits (.char c :: read) rest

def readText : Reader WideText := fun cs =>
  (readUnits [] cs).map fun (units, rest) => (units.joined, rest)

def isNumberChar (c : Char) : Bool :=
  c.isDigit || c = '+' || c = '-' || c = '.' || c = 'e' || c = 'E'

def readNumber : Reader Json := fun cs =>
  let text := String.ofList (cs.takeWhile isNumberChar)
  let rest := cs.dropWhile isNumberChar
  let isReal := text.toList.any fun c => c = '.' || c = 'e' || c = 'E'
  if isReal then (Numeral.readDouble? .binary64 text).map fun x => (.number (.real x), rest)
  else (Numeral.readInteger? text).map fun i => (.number (.whole i), rest)

/-- Sets a member; one that is there keeps its position. -/
def setMember (members : List (String × Json)) (name : String) (value : Json) : List (String × Json) :=
  match members with
  | [] => [(name, value)]
  | (n, v) :: rest => if n = name then (n, value) :: rest else (n, v) :: setMember rest name value

mutual

def readValue : Nat → Reader Json
  | 0, _ => none
  | fuel + 1, cs =>
    match skipSpace cs with
    | '"' :: rest => (readText rest).map fun (s, rest) => (.text s, rest)
    | 't' :: 'r' :: 'u' :: 'e' :: rest => some (.bool true, rest)
    | 'f' :: 'a' :: 'l' :: 's' :: 'e' :: rest => some (.bool false, rest)
    | 'n' :: 'u' :: 'l' :: 'l' :: rest => some (.null, rest)
    | '[' :: rest =>
      match skipSpace rest with
      | ']' :: rest => some (.list [], rest)
      | rest => readItems fuel [] rest
    | '\x7b' :: rest =>
      match skipSpace rest with
      | '\x7d' :: rest => some (.object [], rest)
      | rest => readMembers fuel [] rest
    | rest => readNumber rest

def readItems : Nat → List Json → Reader Json
  | 0, _, _ => none
  | fuel + 1, read, cs =>
    match readValue fuel cs with
    | none => none
    | some (item, rest) =>
      match skipSpace rest with
      | ',' :: rest => readItems fuel (item :: read) rest
      | ']' :: rest => some (.list (item :: read).reverse, rest)
      | _ => none

def readMembers : Nat → List (String × Json) → Reader Json
  | 0, _, _ => none
  | fuel + 1, read, cs =>
    match skipSpace cs with
    | '"' :: rest =>
      match readText rest with
      | none => none
      | some (name, rest) =>
        match skipSpace rest with
        | ':' :: rest =>
          match readValue fuel rest with
          | none => none
          | some (value, rest) =>
            let read := setMember read name.shown value
            match skipSpace rest with
            | ',' :: rest => readMembers fuel read rest
            | '\x7d' :: rest => some (.object read, rest)
            | _ => none
        | _ => none
    | _ => none

end

def read? (text : String) : Option Json :=
  let cs := text.toList
  match readValue (cs.length + 1) cs with
  | some (value, rest) => if (skipSpace rest).isEmpty then some value else none
  | none => none

def member? (j : Json) (name : String) : Option Json :=
  match j with
  | object members => members.lookup name
  | _ => none

def part (j : Json) (name : String) : Json :=
  (j.member? name).getD null

def has (j : Json) (name : String) : Bool :=
  (j.member? name).isSome

def items : Json → List Json
  | list items => items
  | _ => []

def members : Json → List (String × Json)
  | object members => members
  | _ => []

def isNull : Json → Bool
  | null => true
  | _ => false

def wideText? : Json → Option WideText
  | text s => some s
  | _ => none

def text? (j : Json) : Option String :=
  j.wideText?.map WideText.shown

/-- A whole number; truth values count as one and zero. -/
def int? : Json → Option Int
  | number (.whole i) => some i
  | bool b => some (if b then 1 else 0)
  | _ => none

def isTrue : Json → Bool
  | bool b => b
  | _ => false

def texts (j : Json) : List String :=
  j.items.filterMap text?

end Json

end SchemaInference
