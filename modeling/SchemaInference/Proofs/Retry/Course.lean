import SchemaInference.Proofs.Failure.Conversion
import Mathlib.Data.List.Basic

/-!
# What a run meets, and what it makes of it

A course lays down what a run meets: the outcome of every call, the clock, the caller's answer and the number that
chance gives after every attempt, and after which acts the run is cancelled.  For each attempt the policy
then has a verdict of its own, to stop for a reason or to try again, and the acts that belong to it.  One
turn of a run is one such verdict carried out.
-/

set_option autoImplicit false

namespace SchemaInference

inductive RetryAct
  | call
  | consultation (f : Failure) (attempt : Nat)
  | announcement (f : Failure) (attempt : Nat) (delay : Int)
  | wait (delay : Int)

def RetryAct.isCall : RetryAct → Bool
  | call => true
  | _ => false

def callsIn (acts : List RetryAct) : Nat :=
  acts.countP (·.isCall)

structure RetryCourse (α : Type) where
  outcome : Nat → Except Raised α
  /-- The clock and the reader of dates when the outcome of a call is classified. -/
  almanac : Nat → Almanac
  answer : Nat → Value
  chance : Nat → Number
  /-- Whether the run is cancelled once these acts have taken place. -/
  isSet : List RetryAct → Bool
  /-- Whether a wait, the last of these acts, takes notice of a cancellation. -/
  heeds : List RetryAct → Bool

inductive RetryStop
  | succeeded
  | interrupted
  | unreckonable (e : ConversionError)
  | disabled
  | declined
  | exhausted
  | overspent (budget : Double)
deriving DecidableEq

/-- An attempt that failed; a charge of zero is none. -/
structure FailedAttempt where
  failure : Failure
  causes : List Fault
  charge : Option Double

def Failure.charge (f : Failure) : Except ConversionError (Option Double) :=
  match f.metadata.requestCharge with
  | none => .ok none
  | some charge => if charge.isZero then .ok none else (charge.toDouble .binary64).map some

theorem Failure.converts_charge {f : Failure} :
    Converts f.charge ↔ ∀ n, f.metadata.requestCharge = some (.whole n) → Fits n := by
  unfold charge
  cases f.metadata.requestCharge with
  | none => simp
  | some charge =>
    cases charge with
    | real x => by_cases hzero : (Number.real x).isZero <;> simp [hzero, Number.toDouble, Except.map]
    | whole n =>
      by_cases hzero : (Number.whole n).isZero
      · have hn : n = 0 := by simpa [Number.isZero] using hzero
        have hfits : Fits 0 := converts_ofInt.mp ⟨.finite 0, rfl⟩
        simp [hn, hfits, Number.isZero]
      · simp [hzero, Number.toDouble, converts_ofInt]

theorem Raised.converts_charge {a : Almanac} {component : String} {x : ForeignError}
    {causes chain : List Fault} {f : Failure}
    (h : Raised.classify a component ⟨.foreign x, causes⟩ = .ok (f, chain)) : Converts f.charge := by
  obtain ⟨charge, hcharge⟩ := requestCharge_of_classify_foreign h
  refine Failure.converts_charge.mpr fun n hn => ?_
  cases charge <;> simp [hcharge] at hn

def Failure.overBudget (spent budget : Double) (last : Failure) (component : String) : Failure :=
  { make .retryBudgetExhausted ("Retry RU budget exhausted: " ++ spent.generalText ++ "/" ++
        budget.generalText ++ " RU. Last error: " ++ last.message) component
      [("ru_consumed", .real spent), ("ru_budget", .real budget), ("last_error_kind", .text last.kind.name)] with
    metadata := last.metadata }

theorem Failure.budgetExhausted_real (spent budget : Double) (last : Failure) (component : String) :
    budgetExhausted (.real spent) (.real budget) last component = .ok (overBudget spent budget last component) :=
  rfl

def FailedAttempt.error (a : FailedAttempt) (spent : Double) (component : String) : RetryStop → Raised
  | .unreckonable n => .ofConversion n
  | .overspent budget =>
    ⟨.failure (.overBudget spent budget a.failure component), .failure a.failure :: a.causes⟩
  | _ => ⟨.failure a.failure, a.causes⟩

namespace RetryCourse

variable {α : Type} (c : RetryCourse α)

def decision? (i : Nat) : Option Bool :=
  match c.answer i with
  | .bool b => some b
  | _ => none

def call (acts : List RetryAct) : Except Raised α × List RetryAct :=
  (c.outcome (callsIn acts), acts ++ [.call])

/-- The surroundings of a run on this course; their state is what has been done so far. -/
def host : RetryHost (List RetryAct) where
  isCancelled := c.isSet
  almanac acts := c.almanac (callsIn acts - 1)
  consult f attempt acts := (c.decision? (callsIn acts - 1), acts ++ [.consultation f attempt])
  announce f attempt delay acts := acts ++ [.announcement f attempt delay]
  chance acts := (c.chance (callsIn acts - 1), acts)
  wait ms acts :=
    let acts := acts ++ [.wait ms]
    (if c.isSet acts && c.heeds acts then .error (.ofFailure .brokenWait) else .ok (), acts)
  note _ acts := acts

section Verdict

variable (p : RetryPolicy) (op : OperationName)

/-- An attempt as one that failed; otherwise why the run ends with it all the same. -/
def attempt (i : Nat) : Except RetryStop FailedAttempt :=
  match c.outcome i with
  | .ok _ => .error .succeeded
  | .error e =>
    if e.isCancellation then .error .interrupted
    else
      match e.classify (c.almanac i) op.component with
      | .error n => .error (.unreckonable n)
      | .ok (f, causes) =>
        match f.charge with
        | .error n => .error (.unreckonable n)
        | .ok charge => .ok ⟨f, causes, charge⟩

def charge? (i : Nat) : Option Double :=
  match c.attempt op i with
  | .ok a => a.charge
  | .error _ => none

def spent (n : Nat) : Double :=
  ((List.range n).filterMap (c.charge? op)).foldl (Double.add .binary64) (.finite 0)

def retries (i : Nat) (f : Failure) : Bool :=
  (if p.asksCaller then c.decision? i else none).getD f.retryable

/-- Why the run ends with an attempt, if it does; the reasons are tried in this order. -/
def stop? (i : Nat) : Option RetryStop :=
  match c.attempt op i with
  | .error stop => some stop
  | .ok a =>
    if !p.enabled then some .disabled
    else if !c.retries p i a.failure then some .declined
    else if p.maxRetries ≤ i then some .exhausted
    else
      match p.requestBudget.filter fun budget => budget.lt (c.spent op (i + 1)) with
      | some budget => some (.overspent budget)
      | none =>
        match p.delay .binary64 i a.failure.metadata.retryAfterMs (c.chance i) with
        | .error n => some (.unreckonable n)
        | .ok _ => none

def ending (i : Nat) (stop : RetryStop) : Except Raised α :=
  match c.attempt op i with
  | .ok a => .error (a.error (c.spent op (i + 1)) op.component stop)
  | .error (.unreckonable n) => .error (.ofConversion n)
  | .error _ => c.outcome i

def lastActs (i : Nat) : List RetryAct :=
  match c.attempt op i with
  | .ok a => .call :: if p.enabled && p.asksCaller then [.consultation a.failure i] else []
  | .error _ => [.call]

def delayAfter (i : Nat) : Int :=
  match c.attempt op i with
  | .ok a => (p.delay .binary64 i a.failure.metadata.retryAfterMs (c.chance i)).toOption.getD 0
  | .error _ => 0

def announcementAfter (i : Nat) : List RetryAct :=
  match c.attempt op i with
  | .ok a => if p.tellsCaller then [.announcement a.failure i (c.delayAfter p op i)] else []
  | .error _ => []

def acts (i : Nat) : List RetryAct :=
  c.lastActs p op i ++ c.announcementAfter p op i ++ [.wait (c.delayAfter p op i)]

def history (n : Nat) : List RetryAct :=
  (List.range n).flatMap (c.acts p op)

/-- A run whose first attempts have failed and been waited for. -/
def resumed (n : Nat) : Except Raised α × List RetryAct :=
  p.runFrom .binary64 c.host op c.call (p.maxRetries - n) n (c.spent op n) (c.history p op n)

theorem callsIn_append (before after : List RetryAct) :
    callsIn (before ++ after) = callsIn before + callsIn after :=
  List.countP_append

theorem callsIn_lastActs (i : Nat) : callsIn (c.lastActs p op i) = 1 := by
  unfold callsIn lastActs
  cases c.attempt op i with
  | error stop => rfl
  | ok a => dsimp only; split <;> rfl

theorem callsIn_acts (i : Nat) : callsIn (c.acts p op i) = 1 := by
  have hannouncement : callsIn (c.announcementAfter p op i) = 0 := by
    unfold callsIn announcementAfter
    cases c.attempt op i with
    | error stop => rfl
    | ok a => dsimp only; split <;> rfl
  rw [acts, callsIn_append, callsIn_append, callsIn_lastActs, hannouncement]
  rfl

theorem history_succ (n : Nat) :
    c.history p op (n + 1) = c.history p op n ++ c.acts p op n := by
  simp [history, List.range_succ]

theorem callsIn_history (n : Nat) : callsIn (c.history p op n) = n := by
  induction n with
  | zero => rfl
  | succ n ih => rw [history_succ, callsIn_append, callsIn_acts, ih]

theorem callsIn_history_call (n : Nat) : callsIn (c.history p op n ++ [.call]) = n + 1 := by
  rw [callsIn_append, callsIn_history]
  rfl

theorem spent_succ (n : Nat) : c.spent op (n + 1) =
    (c.charge? op n).elim (c.spent op n) (Double.add .binary64 (c.spent op n)) := by
  unfold spent
  rw [List.range_succ, List.filterMap_append, List.foldl_append]
  cases hcharge : c.charge? op n <;> simp [hcharge]

theorem attempt_eq_ok_iff {i : Nat} {a : FailedAttempt} : c.attempt op i = .ok a ↔
    ∃ e, c.outcome i = .error e ∧ e.isCancellation = false ∧
      e.classify (c.almanac i) op.component = .ok (a.failure, a.causes) ∧ a.failure.charge = .ok a.charge := by
  obtain ⟨failure, causes, charge⟩ := a
  unfold attempt
  cases c.outcome i with
  | ok v => simp
  | error e =>
    by_cases hcancellation : e.isCancellation
    case pos => simp [hcancellation]
    cases hclassify : e.classify (c.almanac i) op.component with
    | error n => simp [hcancellation, hclassify]
    | ok classified => cases hcharge : classified.1.charge <;> grind

theorem stop?_eq_none_iff {i : Nat} : c.stop? p op i = none ↔
    ∃ a d, c.attempt op i = .ok a ∧ p.enabled = true ∧ c.retries p i a.failure = true ∧
      i < p.maxRetries ∧ (p.requestBudget.filter fun budget => budget.lt (c.spent op (i + 1))) = none ∧
      p.delay .binary64 i a.failure.metadata.retryAfterMs (c.chance i) = .ok d := by
  unfold stop?
  cases c.attempt op i with
  | error stop => simp
  | ok a => grind

end Verdict

end RetryCourse

def RetryPolicy.steady : RetryPolicy :=
  { standard with jitter := .finite 0 }

end SchemaInference
