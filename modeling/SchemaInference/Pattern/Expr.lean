import SchemaInference.Text.Blank
import SchemaInference.Text.Case
import SchemaInference.Text.Digit
import SchemaInference.Text.WordChar

set_option autoImplicit false

namespace SchemaInference

namespace Pattern

/-- How a leaf compares letters: as they are, or without regard to case, in all scripts or in ASCII. -/
inductive Folding
  | exact
  | anyCase
  | asciiCase
deriving DecidableEq, Inhabited

inductive Category
  | digit
  | space
  | word
deriving DecidableEq, Inhabited

inductive SetItem
  | code (c : Nat)
  | range (low high : Nat)
  | category (kind : Category) (negated ascii : Bool)
deriving DecidableEq, Inhabited

inductive Anchor
  | textStart
  | lineStart
  /-- The end, or before a line end that is last. -/
  | lastLineEnd
  | lineEnd
  | textEnd
  | boundary (ascii : Bool)
  | noBoundary (ascii : Bool)
deriving DecidableEq, Inhabited

inductive Greed
  | greedy
  | lazy
  | possessive
deriving DecidableEq, Inhabited

inductive Expr
  | empty
  | code (c : Nat) (folding : Folding)
  | any (lineEnds : Bool)
  | set (negated : Bool) (items : List SetItem) (folding : Folding)
  | anchor (a : Anchor)
  | seq (first second : Expr)
  | alt (first second : Expr)
  | repeated (body : Expr) (least : Nat) (most : Option Nat) (greed : Greed)
  | group (number : Nat) (body : Expr)
  | atomic (body : Expr)
  | backreference (number : Nat) (folding : Folding)
  | ahead (negated : Bool) (body : Expr)
  | behind (negated : Bool) (width : Nat) (body : Expr)
  | ifGroup (number : Nat) (yes no : Expr)
deriving Inhabited

def Folding.lower (f : Folding) (code : Nat) : Nat :=
  match f with
  | exact => code
  | anyCase => Text.shifted Text.lowerRuns code
  | asciiCase => if 65 ≤ code ∧ code ≤ 90 then code + 32 else code

def Folding.isCased (f : Folding) (code : Nat) : Bool :=
  match f with
  | exact => false
  | anyCase =>
    Text.shifted Text.lowerRuns code != code || Text.shifted Text.upperRuns code != code ||
      (Text.upperSequences.lookup code).isSome
  | asciiCase => (65 ≤ code && code ≤ 90) || (97 ≤ code && code ≤ 122)

def Folding.alternates (f : Folding) (code : Nat) : List Nat :=
  match f with
  | anyCase => (Text.folds.lookup code).getD []
  | _ => []

def Folding.raised (f : Folding) (code : Nat) : List Nat :=
  match f with
  | exact => [code]
  | anyCase =>
    let moved := Text.lowerRuns.filterMap fun r =>
      let source : Int := code - r.distance
      if 0 ≤ source && r.covers source.toNat then some source.toNat else none
    (if f.lower code = code then [code] else []) ++ moved
  | asciiCase =>
    if 65 ≤ code ∧ code ≤ 90 then []
    else if 97 ≤ code ∧ code ≤ 122 then [code, code - 32]
    else [code]

/-- The code points that a range may name in order to match a lower case one. -/
def Folding.sources (f : Folding) (code : Nat) : List Nat :=
  f.raised code ++ (f.alternates code).flatMap f.raised

def Folding.agrees (f : Folding) (wanted found : Nat) : Bool :=
  if f.isCased wanted then
    let low := f.lower wanted
    let seen := f.lower found
    seen == low || (f.alternates low).contains seen
  else found == wanted

def Category.holds (kind : Category) (ascii : Bool) (code : Nat) : Bool :=
  if ascii && 128 ≤ code then false
  else
    match kind with
    | digit => Text.isDecimalDigit (Char.ofNat code)
    | space => if ascii then (9 ≤ code && code ≤ 13) || code == 32 else Text.blanks.holds code
    | word => Text.wordChars.holds code

/-- Whether a set has a member with another case, in which case the text is compared in lower case. -/
def SetItem.isCased (f : Folding) : SetItem → Bool
  | code c => f.isCased c
  | range low high =>
    match f with
    | .exact => false
    | .asciiCase => (low ≤ 90 && 65 ≤ high) || (low ≤ 122 && 97 ≤ high)
    | .anyCase =>
      let meets (r : Text.CaseRun) : Bool :=
        (List.range ((r.last - r.first) / r.step + 1)).any fun i =>
          low ≤ r.first + i * r.step && r.first + i * r.step ≤ high
      Text.lowerRuns.any meets || Text.upperRuns.any meets ||
        Text.upperSequences.any fun entry => low ≤ entry.1 && entry.1 ≤ high
  | category _ _ _ => false

def SetItem.holds (f : Folding) (found : Nat) : SetItem → Bool
  | code c => found == f.lower c || (f.alternates (f.lower c)).contains found
  | range low high =>
    match f with
    | .exact => low ≤ found && found ≤ high
    | _ => (f.sources found).any fun source => low ≤ source && source ≤ high
  | category kind negated ascii => kind.holds ascii found != negated

def setHolds (negated : Bool) (items : List SetItem) (f : Folding) (found : Nat) : Bool :=
  let seen := if items.any (·.isCased f) then f.lower found else found
  (items.any (·.holds f seen)) != negated

end Pattern

end SchemaInference
