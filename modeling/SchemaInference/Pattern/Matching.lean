import SchemaInference.Pattern.Expr

/-!
# Matching whole texts

`Expr.run` tries the ways in which an expression matches from a position, in order of preference, and
hands each to the rest of the match until one succeeds.  Captures belong to the state and so are undone
with the attempt that made them.  A repetition goes on only after progress, which bounds it.
-/

set_option autoImplicit false

namespace SchemaInference

namespace Pattern

structure MatchState where
  position : Nat
  groups : List (Nat × Nat × Nat)

abbrev Continuation := MatchState → Option MatchState

def Anchor.holds (text : Array Nat) (at_ : Nat) : Anchor → Bool
  | textStart => at_ == 0
  | lineStart => at_ == 0 || text[at_ - 1]? == some 10
  | lastLineEnd => at_ == text.size || (at_ + 1 == text.size && text[at_]? == some 10)
  | lineEnd => at_ == text.size || text[at_]? == some 10
  | textEnd => at_ == text.size
  | boundary ascii => text.size != 0 && wordBefore ascii != wordAfter ascii
  | noBoundary ascii => text.size != 0 && wordBefore ascii == wordAfter ascii
where
  isWord (ascii : Bool) (code : Option Nat) : Bool :=
    match code with
    | some c => Category.word.holds ascii c
    | none => false
  wordBefore (ascii : Bool) : Bool := at_ != 0 && isWord ascii text[at_ - 1]?
  wordAfter (ascii : Bool) : Bool := isWord ascii text[at_]?

def oneCode (text : Array Nat) (test : Nat → Bool) (s : MatchState) (k : Continuation) : Option MatchState :=
  match text[s.position]? with
  | some c => if test c then k { s with position := s.position + 1 } else none
  | none => none

/-- As many turns as possible first, fewer on failure; `last` is where the latest turn began. -/
def greedyTurns (step : MatchState → Continuation → Option MatchState) (least : Nat) (most : Option Nat) :
    Nat → Nat → Option Nat → MatchState → Continuation → Option MatchState
  | 0, _, _, s, k => k s
  | fuel + 1, count, last, s, k =>
    if count < least then
      step s fun t => greedyTurns step least most fuel (count + 1) last t k
    else if most.any (· ≤ count) || last == some s.position then k s
    else
      (step s fun t => greedyTurns step least most fuel (count + 1) (some s.position) t k) <|> k s

def lazyTurns (step : MatchState → Continuation → Option MatchState) (least : Nat) (most : Option Nat) :
    Nat → Nat → Option Nat → MatchState → Continuation → Option MatchState
  | 0, _, _, s, k => k s
  | fuel + 1, count, last, s, k =>
    if count < least then
      step s fun t => lazyTurns step least most fuel (count + 1) last t k
    else
      k s <|>
        (if most.any (· ≤ count) || last == some s.position then none
        else step s fun t => lazyTurns step least most fuel (count + 1) (some s.position) t k)

def possessiveTurns (step : MatchState → Continuation → Option MatchState) (least : Nat) (most : Option Nat) :
    Nat → Nat → Option Nat → MatchState → Option MatchState
  | 0, _, _, s => some s
  | fuel + 1, count, last, s =>
    if count < least then
      (step s some).bind fun t => possessiveTurns step least most fuel (count + 1) last t
    else if most.any (· ≤ count) || last == some s.position then some s
    else
      match step s some with
      | some t => possessiveTurns step least most fuel (count + 1) (some s.position) t
      | none => some s

def again (text : Array Nat) (f : Folding) (start : Nat) : Nat → MatchState → Continuation → Option MatchState
  | 0, s, k => k s
  | n + 1, s, k =>
    match text[start]?, text[s.position]? with
    | some wanted, some found =>
      if f.lower wanted == f.lower found then
        again text f (start + 1) n { s with position := s.position + 1 } k
      else none
    | _, _ => none

def Expr.run (text : Array Nat) : Expr → MatchState → Continuation → Option MatchState
  | empty, s, k => k s
  | code c f, s, k => oneCode text (f.agrees c) s k
  | any lineEnds, s, k => oneCode text (fun c => lineEnds || c != 10) s k
  | set negated items f, s, k => oneCode text (setHolds negated items f) s k
  | anchor a, s, k => if a.holds text s.position then k s else none
  | seq first second, s, k => first.run text s fun t => second.run text t k
  | alt first second, s, k => first.run text s k <|> second.run text s k
  | repeated body least most greed, s, k =>
    let fuel := least + (text.size - s.position) + 2
    match greed with
    | .greedy => greedyTurns (body.run text) least most fuel 0 none s k
    | .lazy => lazyTurns (body.run text) least most fuel 0 none s k
    | .possessive => (possessiveTurns (body.run text) least most fuel 0 none s).bind k
  | group number body, s, k =>
    body.run text s fun t => k { t with groups := (number, s.position, t.position) :: t.groups }
  | atomic body, s, k => (body.run text s some).bind k
  | backreference number f, s, k =>
    match s.groups.lookup number with
    | some (start, stop) => again text f start (stop - start) s k
    | none => none
  | ahead negated body, s, k =>
    match body.run text s some with
    | some t => if negated then none else k { t with position := s.position }
    | none => if negated then k s else none
  | behind negated width body, s, k =>
    if width ≤ s.position then
      match body.run text { s with position := s.position - width } some with
      | some t => if negated then none else k { t with position := s.position }
      | none => if negated then k s else none
    else if negated then k s else none
  | ifGroup number yes no, s, k =>
    if (s.groups.lookup number).isSome then yes.run text s k else no.run text s k

def Expr.matchesAll (e : Expr) (text : String) : Bool :=
  let codes := (text.toList.map Char.toNat).toArray
  (e.run codes ⟨0, []⟩ fun s => if s.position = codes.size then some s else none).isSome

end Pattern

end SchemaInference
