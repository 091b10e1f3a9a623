import SchemaInference.Journal
import SchemaInference.Sampling.Store

/-!
# One attempt at a sample

An attempt reads pages, counts the request units they take, and reports its progress.  It reads no page
once the units reach the limit.  The state of the store and that of chance outlive a failed attempt; the
count of units starts again with every attempt.
-/

set_option autoImplicit false

namespace SchemaInference

structure SamplingProgress where
  sampled : Nat
  target : Nat
  charge : Double
deriving Inhabited

structure SamplingAttempt (σ : Type) where
  store : σ
  charge : Double
  overBudget : Bool
  sampled : Nat
  progress : List SamplingProgress
  notes : List Journal.Note
  /-- The lists that chance has put in order so far. -/
  shuffled : List (List Value)

def SamplingAttempt.initial {σ : Type} (store : σ) (shuffled : List (List Value)) : SamplingAttempt σ where
  store := store
  charge := .finite 0
  overBudget := false
  sampled := 0
  progress := []
  notes := []
  shuffled := shuffled

abbrev Sampling (σ : Type) := ExceptT Raised (StateM (SamplingAttempt σ))

structure SamplingLimits where
  target : Nat
  maxCharge : Option Number

/-- The request units that a page took; none stated are none taken. -/
def FeedPage.spent (p : FeedPage) : Except Raised Double :=
  if !p.charge.truthy then .ok (.finite 0)
  else
    match p.charge with
    | .scalar s =>
      match s.asNumber? with
      | some n => (n.toDouble .binary64).mapError Raised.ofConversion
      | none => .error (notAddable p.charge)
    | _ => .error (notAddable p.charge)
where
  notAddable (v : Value) : Raised :=
    .ofPlain (.ofType ("unsupported operand type(s) for +=: 'float' and '" ++ v.typeName ++ "'"))

namespace Sampling

variable {σ φ : Type}

def note (text : String) : Sampling σ Unit :=
  modify fun a => { a with notes := a.notes ++ [⟨.warning, .sampler, text⟩] }

def openFeed (store : Store σ φ) (q : SampleQuery) : Sampling σ φ := do
  let a ← get
  let (feed, s) := store.start q a.store
  set { a with store := s }
  return feed

/-- Whether the units spent have reached the limit, once and for all. -/
def isOverBudget (limits : SamplingLimits) : Sampling σ Bool := do
  let a ← get
  let spent := Number.real a.charge
  let isOver := a.overBudget || limits.maxCharge.any fun most => most.lt spent || most.eq spent
  set { a with overBudget := isOver }
  return isOver

def fetchPage (store : Store σ φ) (feed : φ) : Sampling σ (List Value × φ) := do
  let a ← get
  let (page, feed, s) := store.fetch feed a.store
  set { a with store := s }
  let page ← liftExcept page
  let spent ← liftExcept page.spent
  modify fun a => { a with charge := Double.add .binary64 a.charge spent }
  return (page.rows, feed)
where
  liftExcept {α : Type} (e : Except Raised α) : Sampling σ α :=
    match e with
    | .ok a => pure a
    | .error r => throw r

def report (limits : SamplingLimits) (added : Nat) : Sampling σ Unit :=
  modify fun a =>
    let sampled := a.sampled + added
    { a with sampled, progress := a.progress ++ [⟨sampled, limits.target, a.charge⟩] }

def reached (limit : Option Nat) (rows : List Value) : Bool :=
  limit.any fun n => decide (n ≤ rows.length)

/-- Reads pages until there are enough rows, no more pages, or no more units; `fuel` bounds the pages. -/
def readPages (store : Store σ φ) (limits : SamplingLimits) (limit : Option Nat) :
    Nat → φ → List Value → Sampling σ (List Value)
  | 0, _, rows => return rows
  | fuel + 1, feed, rows => do
    if !store.hasMore feed then return rows
    if ← isOverBudget limits then return rows
    let (more, feed) ← fetchPage store feed
    let rows := rows ++ more
    if reached limit rows then return rows
    readPages store limits limit fuel feed rows

def drain (store : Store σ φ) (limits : SamplingLimits) (q : SampleQuery) (limit : Option Nat) :
    Sampling σ (List Value) := do
  let feed ← openFeed store q
  let a ← get
  let rows ← readPages store limits limit (store.bound feed a.store) feed []
  return match limit with
    | some n => rows.take n
    | none => rows

def documentsOf (rows : List Value) : Sampling σ (List Value) := do
  let documents := rows.filter Value.isMapping
  if documents.length ≠ rows.length then
    note ("dropped " ++ toString (rows.length - documents.length) ++ " non-object result(s)")
  return documents

end Sampling

end SchemaInference
