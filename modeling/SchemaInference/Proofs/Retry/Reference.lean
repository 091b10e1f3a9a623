import SchemaInference.Moment.FreeDate
import SchemaInference.Proofs.Retry.Delays
import SchemaInference.Proofs.Retry.Turns
import Mathlib.Tactic.IntervalCases

set_option autoImplicit false

namespace SchemaInference

namespace RetryAct

def wait? : RetryAct → Option Int
  | wait delay => some delay
  | _ => none

def consultation? : RetryAct → Option (Failure × Nat)
  | consultation f attempt => some (f, attempt)
  | _ => none

end RetryAct

def waitsIn (acts : List RetryAct) : List Int :=
  acts.filterMap (·.wait?)

def consultationsIn (acts : List RetryAct) : List (Failure × Nat) :=
  acts.filterMap (·.consultation?)

theorem waitsIn_append (before after : List RetryAct) :
    waitsIn (before ++ after) = waitsIn before ++ waitsIn after :=
  List.filterMap_append

theorem consultationsIn_append (before after : List RetryAct) :
    consultationsIn (before ++ after) = consultationsIn before ++ consultationsIn after :=
  List.filterMap_append

namespace RetryCourse

variable {α : Type} (c : RetryCourse α) (p : RetryPolicy) (op : OperationName)

/-- Every error of a call becomes a failure, and the charge of a failure is a double. -/
structure Classifies : Prop where
  notInterrupted : ∀ i e, c.outcome i = .error e → e.isCancellation = false
  classified : ∀ i e, c.outcome i = .error e → ∃ f causes, e.classify (c.almanac i) op.component = .ok (f, causes)
  charged : ∀ i f causes n, c.outcome i = .error ⟨.failure f, causes⟩ →
    f.metadata.requestCharge = some (.whole n) → Fits n

def failed? (i : Nat) : Option (Failure × Nat) :=
  match c.attempt op i with
  | .ok a => some (a.failure, i)
  | .error _ => none

/-- A run that stops with attempt `k` and has done what the policy says until then. -/
structure Follows (k : Nat) (stop : RetryStop) (result : Except Raised α) (acts : List RetryAct) : Prop where
  within : k ≤ p.maxRetries
  goesOn : ∀ i < k, c.stop? p op i = none
  stops : c.stop? p op k = some stop
  reckoned : stop ≠ .interrupted ∧ ∀ n, stop ≠ .unreckonable n
  result_eq : result = c.ending op k stop
  acts_eq : acts = (List.range k).flatMap (c.acts p op) ++ c.lastActs p op k
  acts_of_lt : ∀ i < k, ∃ a d, c.attempt op i = .ok a ∧
    p.delay .binary64 i a.failure.metadata.retryAfterMs (c.chance i) = .ok d ∧
    c.acts p op i = .call :: (if p.asksCaller then [.consultation a.failure i] else []) ++
      (if p.tellsCaller then [.announcement a.failure i d] else []) ++ [.wait d]
  calls : callsIn acts = k + 1
  waits : waitsIn acts = (List.range k).map (c.delayAfter p op)
  consultations : consultationsIn acts =
    if p.enabled && p.asksCaller then (List.range (k + 1)).filterMap (c.failed? op) else []

theorem acts_of_attempt {i : Nat} {a : FailedAttempt} {d : Int} (henabled : p.enabled = true)
    (ha : c.attempt op i = .ok a)
    (hdelay : p.delay .binary64 i a.failure.metadata.retryAfterMs (c.chance i) = .ok d) :
    c.acts p op i = .call :: (if p.asksCaller then [.consultation a.failure i] else []) ++
      (if p.tellsCaller then [.announcement a.failure i d] else []) ++ [.wait d] := by
  simp [acts, lastActs, announcementAfter, delayAfter, ha, henabled, hdelay, Except.toOption]

theorem waitsIn_lastActs (i : Nat) : waitsIn (c.lastActs p op i) = [] := by
  unfold waitsIn lastActs
  cases c.attempt op i with
  | error stop => rfl
  | ok a => dsimp only; split <;> rfl

theorem waitsIn_acts (i : Nat) : waitsIn (c.acts p op i) = [c.delayAfter p op i] := by
  unfold waitsIn acts lastActs announcementAfter
  cases c.attempt op i with
  | error stop => rfl
  | ok a => dsimp only; split <;> split <;> rfl

theorem consultationsIn_lastActs (i : Nat) : consultationsIn (c.lastActs p op i) =
    if p.enabled && p.asksCaller then (c.failed? op i).toList else [] := by
  unfold consultationsIn lastActs failed?
  cases c.attempt op i with
  | error stop => simp [RetryAct.consultation?]
  | ok a => dsimp only; split <;> rfl

theorem consultationsIn_acts (i : Nat) : consultationsIn (c.acts p op i) =
    if p.enabled && p.asksCaller then (c.failed? op i).toList else [] := by
  unfold consultationsIn acts lastActs announcementAfter failed?
  cases c.attempt op i with
  | error stop => simp [RetryAct.consultation?]
  | ok a => dsimp only; split <;> split <;> rfl

theorem waitsIn_history (n : Nat) :
    waitsIn (c.history p op n) = (List.range n).map (c.delayAfter p op) := by
  have hone : (fun i => (c.acts p op i).filterMap (·.wait?)) = fun i => [c.delayAfter p op i] :=
    funext (c.waitsIn_acts p op)
  rw [waitsIn, history, List.filterMap_flatMap, hone, List.map_eq_flatMap]

theorem consultationsIn_history (n : Nat) : consultationsIn (c.history p op n) =
    if p.enabled && p.asksCaller then (List.range n).filterMap (c.failed? op) else [] := by
  have hone : (fun i => (c.acts p op i).filterMap (·.consultation?)) =
      fun i => if p.enabled && p.asksCaller then (c.failed? op i).toList else [] :=
    funext (c.consultationsIn_acts p op)
  rw [consultationsIn, history, List.filterMap_flatMap, hone]
  split
  · rw [List.filterMap_eq_flatMap_toList]
  · simp

variable {c p op}

theorem Classifies.charge {i : Nat} {e : Raised} {f : Failure} {causes : List Fault}
    (h : c.Classifies op) (he : c.outcome i = .error e)
    (hclassify : e.classify (c.almanac i) op.component = .ok (f, causes)) : Converts f.charge := by
  obtain ⟨fault, _⟩ := e
  cases fault with
  | failure g =>
    cases hclassify
    exact Failure.converts_charge.mpr fun n hn => h.charged i _ _ n he hn
  | foreign x => exact Raised.converts_charge hclassify

theorem Classifies.attempt {i : Nat} {e : Raised} (h : c.Classifies op) (he : c.outcome i = .error e) :
    ∃ a, c.attempt op i = .ok a := by
  obtain ⟨f, causes, hclassify⟩ := h.classified i e he
  obtain ⟨charge, hcharge⟩ := h.charge he hclassify
  exact ⟨⟨f, causes, charge⟩, (c.attempt_eq_ok_iff op).mpr
    ⟨e, he, h.notInterrupted i e he, hclassify, hcharge⟩⟩

theorem Classifies.reckoned {i : Nat} {stop : RetryStop} (h : c.Classifies op)
    (hdelay : i < p.maxRetries → ∀ a, c.attempt op i = .ok a →
      ∃ d, p.delay .binary64 i a.failure.metadata.retryAfterMs (c.chance i) = .ok d)
    (hstop : c.stop? p op i = some stop) : stop ≠ .interrupted ∧ ∀ n, stop ≠ .unreckonable n := by
  cases houtcome : c.outcome i with
  | ok v =>
    have ha : c.attempt op i = .error .succeeded := by simp [RetryCourse.attempt, houtcome]
    grind [stop?]
  | error e =>
    obtain ⟨a, ha⟩ := h.attempt houtcome
    have hd := fun hlt => hdelay hlt a ha
    grind [stop?]

variable (c p op) in
/-- A run that nothing cancels follows the policy. -/
theorem run_follows (hset : ∀ acts, c.isSet acts = false) (hclassifies : c.Classifies op)
    (hdelay : ∀ i < p.maxRetries, ∀ a, c.attempt op i = .ok a →
      ∃ d, p.delay .binary64 i a.failure.metadata.retryAfterMs (c.chance i) = .ok d) :
    ∃ k stop, c.Follows p op k stop (p.run c.host op c.call []).1
      (p.run c.host op c.call []).2 := by
  obtain ⟨k, hgoesOn, ⟨-, stop, hstop, hresult, hacts⟩ | ⟨hcancelled, -⟩⟩ := c.run_endsAfter p op
  case inr => simp [hset] at hcancelled
  have hnone : ∀ i < k, c.stop? p op i = none := fun i hi => (hgoesOn i hi).2
  have hwithin : k ≤ p.maxRetries := by
    cases k with
    | zero => exact Nat.zero_le _
    | succ k => exact c.lt_maxRetries p op (hnone k (Nat.lt_succ_self k))
  refine ⟨k, stop, hwithin, hnone, hstop, hclassifies.reckoned (hdelay k) hstop, hresult, hacts, ?_, ?_, ?_, ?_⟩
  case refine_1 =>
    intro i hi
    obtain ⟨a, d, ha, henabled, -, -, -, hd⟩ := (c.stop?_eq_none_iff p op).mp (hnone i hi)
    exact ⟨a, d, ha, hd, c.acts_of_attempt p op henabled ha hd⟩
  case refine_2 => rw [hacts, callsIn_append, callsIn_history, callsIn_lastActs]
  case refine_3 => rw [hacts, waitsIn_append, waitsIn_history, waitsIn_lastActs, List.append_nil]
  case refine_4 =>
    -- The last attempt asks the caller as often as one after which the run goes on.
    rw [hacts, consultationsIn_append, consultationsIn_lastActs, ← consultationsIn_acts,
      ← consultationsIn_append, ← history_succ, consultationsIn_history]

def slowStart : RetryCourse Nat where
  outcome
    | 0 => .error (.ofForeign ⟨"TimeoutError", [.system, .timeout], .ok "slow",
        [("request_charge", .number (.real (.finite 4)))]⟩)
    | 1 => .error (.ofFailure { Failure.make .rateLimit "busy" "store" [] with
        metadata := { FailureMetadata.empty with retryAfterMs := some (.whole 50) } })
    | _ => .ok 7
  almanac _ := FreeDate.atYear2000
  answer i := if i = 1 then .bool true else .null
  chance _ := .real (.finite 0)
  isSet _ := false
  heeds _ := false

def insistentPolicy : RetryPolicy :=
  { RetryPolicy.steady with requestBudget := some (.finite 10), asksCaller := true }

theorem slowStart_classifies : slowStart.Classifies ⟨"store", "read"⟩ where
  notInterrupted i e he := by
    match i with
    | 0 => cases he; rfl
    | 1 => cases he; rfl
    | i + 2 => cases he
  classified i e he := by
    match i with
    | 0 => cases he; exact ⟨_, _, rfl⟩
    | 1 => cases he; exact ⟨_, _, rfl⟩
    | i + 2 => cases he
  charged i f causes n he hn := by
    match i with
    | 0 => cases he
    | 1 => cases he; cases hn
    | i + 2 => cases he

/-- The first wait is the policy's, the second is the one asked for; the caller insists on the retry that
the second failure would not have. -/
theorem run_follows_slowStart :
    let run := insistentPolicy.run slowStart.host ⟨"store", "read"⟩ slowStart.call []
    run.1 = .ok 7 ∧ callsIn run.2 = 3 ∧ waitsIn run.2 = [100, 50] ∧ (consultationsIn run.2).length = 2 := by
  intro run
  have hchance : insistentPolicy.usesChance = false := by decide +kernel
  obtain ⟨k, stop, h⟩ := run_follows slowStart insistentPolicy ⟨"store", "read"⟩ (fun _ => rfl)
    slowStart_classifies fun i _ a _ =>
      insistentPolicy.exists_delay (.inl hchance) i a.failure.metadata.retryAfterMs ⟨0, rfl, by simp⟩
  have hstops : [0, 1, 2].map (slowStart.stop? insistentPolicy ⟨"store", "read"⟩) =
      [none, none, some .succeeded] := by decide +kernel
  obtain ⟨hfirst, hsecond, hthird⟩ : _ ∧ _ ∧ _ := by simpa using hstops
  have hk : k = 2 := by
    rcases Nat.lt_trichotomy k 2 with hlt | heq | hgt
    · have hsome := h.stops
      interval_cases k <;> simp [hfirst, hsecond] at hsome
    · exact heq
    · simpa [hthird] using h.goesOn 2 hgt
  subst hk
  obtain rfl : RetryStop.succeeded = stop := Option.some_inj.mp (hthird.symm.trans h.stops)
  refine ⟨h.result_eq, h.calls, h.waits.trans (by decide +kernel), ?_⟩
  exact (congrArg List.length h.consultations).trans (by decide +kernel)

end RetryCourse

end SchemaInference
