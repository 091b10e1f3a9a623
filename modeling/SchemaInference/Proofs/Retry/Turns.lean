import SchemaInference.Proofs.Retry.Course

set_option autoImplicit false

namespace SchemaInference

namespace RetryPolicy

theorem assess_eq (almanac : Almanac) (op : OperationName) (spent : Double) (e : Raised) :
    assess .binary64 almanac op spent e =
      match e.classify almanac op.component with
      | .error n => .error n
      | .ok (f, causes) =>
        match f.charge with
        | .error n => .error n
        | .ok charge => .ok (f, causes, charge.elim spent (Double.add .binary64 spent)) := by
  unfold assess spentAfter Failure.charge
  cases e.classify almanac op.component with
  | error n => rfl
  | ok classified =>
    obtain ⟨f, causes⟩ := classified
    cases hcharge : f.metadata.requestCharge with
    | none => simp [hcharge, bind, Except.bind]
    | some charge =>
      by_cases hzero : charge.isZero
      · simp [hcharge, hzero, bind, Except.bind]
      · simp only [hcharge, hzero, Bool.false_eq_true, ↓reduceIte, bind, Except.bind]
        cases charge.toDouble .binary64 <;> rfl

theorem delay_eq_of_not_drawn (p : RetryPolicy) (r : Rounding) (attempt : Int) (retryAfter : Option Number)
    (h : (p.usesChance && (p.requestedDelay? retryAfter).isNone) = false) (x y : Number) :
    p.delay r attempt retryAfter x = p.delay r attempt retryAfter y := by
  unfold delay
  cases hrequested : p.requestedDelay? retryAfter with
  | some ms => rfl
  | none =>
    have hchance : p.usesChance = false := by simpa [hrequested] using h
    simp [hchance]

theorem overspent?_eq (p : RetryPolicy) (spent : Double) (f : Failure) (component : String) :
    p.overspent? spent f component = .ok ((p.requestBudget.filter fun budget => budget.lt spent).map
      fun budget => (budget, .overBudget spent budget f component)) := by
  unfold overspent?
  cases p.requestBudget with
  | none => rfl
  | some budget =>
    by_cases hover : budget.lt spent
    · simp [Option.filter, hover, Failure.budgetExhausted_real, Except.map]
    · simp [Option.filter, hover]

end RetryPolicy

namespace RetryCourse

variable {α : Type} (c : RetryCourse α) (p : RetryPolicy) (op : OperationName)

theorem nextDelay_host (f : Failure) {i : Nat} {acts : List RetryAct} (hcalls : callsIn acts = i + 1) :
    p.nextDelay .binary64 c.host f i acts = (p.delay .binary64 i f.metadata.retryAfterMs (c.chance i), acts) := by
  unfold RetryPolicy.nextDelay
  by_cases hdrawn : p.usesChance && (p.requestedDelay? f.metadata.retryAfterMs).isNone
  · simp [hdrawn, host, hcalls]
  · rw [if_neg hdrawn]
    rw [p.delay_eq_of_not_drawn .binary64 i _ (Bool.eq_false_iff.mpr hdrawn) (.whole 0) (c.chance i)]

theorem prepareRetry_host (f : Failure) {i : Nat} {acts : List RetryAct} (hcalls : callsIn acts = i + 1) :
    p.prepareRetry .binary64 c.host op f i acts =
      match p.delay .binary64 i f.metadata.retryAfterMs (c.chance i) with
      | .error n => (.error (.ofConversion n), acts)
      | .ok d => c.host.wait d (acts ++ if p.tellsCaller then [.announcement f i d] else []) := by
  simp only [RetryPolicy.prepareRetry, c.nextDelay_host p f hcalls]
  cases p.delay .binary64 i f.metadata.retryAfterMs (c.chance i) with
  | error n => rfl
  | ok d => cases htells : p.tellsCaller <;> simp [host]

theorem consultCaller_host (f : Failure) {i : Nat} {acts : List RetryAct} (hcalls : callsIn acts = i + 1) :
    p.consultCaller c.host f i acts = (if p.asksCaller then c.decision? i else none,
      acts ++ if p.asksCaller then [.consultation f i] else []) := by
  unfold RetryPolicy.consultCaller
  split <;> simp [host, hcalls]

/-- What becomes of a failed attempt follows its verdict: the run ends with it, or waits. -/
theorem afterFailure_host {i : Nat} {a : FailedAttempt} (ha : c.attempt op i = .ok a) :
    p.afterFailure .binary64 c.host op (p.maxRetries - i) i (c.spent op (i + 1)) a.failure a.causes
        (c.history p op i ++ [.call]) =
      match c.stop? p op i with
      | some stop => (.error (a.error (c.spent op (i + 1)) op.component stop),
          c.history p op i ++ c.lastActs p op i)
      | none => c.host.wait (c.delayAfter p op i)
          (c.history p op i ++ c.lastActs p op i ++ c.announcementAfter p op i) := by
  have hcalls := c.callsIn_history_call p op i
  have hasked (q : Bool) : callsIn ((c.history p op i ++ [.call]) ++
      if q then [RetryAct.consultation a.failure i] else []) = i + 1 := by
    rw [← hcalls]
    cases q <;> simp [callsIn, RetryAct.isCall]
  have hleft : p.maxRetries - i = 0 ↔ p.maxRetries ≤ i := Nat.sub_eq_zero_iff_le
  simp only [RetryPolicy.afterFailure, c.consultCaller_host p a.failure hcalls, stop?, lastActs, ha, hleft,
    retries]
  by_cases henabled : p.enabled
  case neg => simp [henabled, FailedAttempt.error]
  simp only [henabled, Bool.not_true, Bool.false_eq_true, ↓reduceIte, Bool.true_and]
  by_cases hretries : (if p.asksCaller then c.decision? i else none).getD a.failure.retryable
  case neg => simp [hretries, FailedAttempt.error]
  simp only [hretries, Bool.not_true, Bool.false_eq_true, ↓reduceIte]
  by_cases hexhausted : p.maxRetries ≤ i
  case pos => simp [hexhausted, FailedAttempt.error, host]
  simp only [hexhausted, ↓reduceIte, RetryPolicy.overspent?_eq]
  cases p.requestBudget.filter fun budget => budget.lt (c.spent op (i + 1)) with
  | some budget => simp [host, FailedAttempt.error]
  | none =>
    simp only [Option.map_none, c.prepareRetry_host p op a.failure (hasked p.asksCaller)]
    cases hdelay : p.delay .binary64 i a.failure.metadata.retryAfterMs (c.chance i) with
    | error n => simp [FailedAttempt.error]
    | ok d => simp [delayAfter, announcementAfter, ha, hdelay, Except.toOption]

theorem wait_host (i : Nat) :
    c.host.wait (c.delayAfter p op i)
        (c.history p op i ++ c.lastActs p op i ++ c.announcementAfter p op i) =
      (if c.isSet (c.history p op (i + 1)) && c.heeds (c.history p op (i + 1)) then
        .error (.ofFailure .brokenWait) else .ok (), c.history p op (i + 1)) := by
  simp [host, history_succ, acts]

theorem lt_maxRetries {i : Nat} (h : c.stop? p op i = none) : i < p.maxRetries := by
  obtain ⟨_, _, _, _, _, hlt, _, _⟩ := (c.stop?_eq_none_iff p op).mp h
  exact hlt

theorem call_history (i : Nat) :
    c.call (c.history p op i) = (c.outcome i, c.history p op i ++ [.call]) := by
  rw [call, callsIn_history]

theorem almanac_history (i : Nat) : c.host.almanac (c.history p op i ++ [.call]) = c.almanac i := by
  simp [host, callsIn_history_call]

theorem resumed_of_ended {i : Nat} {stop : RetryStop} (hset : c.isSet (c.history p op i) = false)
    (ha : c.attempt op i = .error stop) :
    c.resumed p op i = (c.ending op i stop, c.history p op i ++ [.call]) := by
  have hunset : c.host.isCancelled (c.history p op i) = false := hset
  rw [resumed, RetryPolicy.runFrom, hunset, call_history, ending, ha]
  cases houtcome : c.outcome i with
  | ok v =>
    have hsucceeded : stop = .succeeded := by simpa [attempt, houtcome, eq_comm] using ha
    simp [hsucceeded]
  | error e =>
    by_cases hcancellation : e.isCancellation
    case pos =>
      have hinterrupted : stop = .interrupted := by
        simpa [attempt, houtcome, hcancellation, eq_comm] using ha
      simp [hcancellation, hinterrupted]
    cases hclassify : e.classify (c.almanac i) op.component with
    | error n =>
      have hunreckonable : stop = .unreckonable n := by
        simpa [attempt, houtcome, hcancellation, hclassify, eq_comm] using ha
      simp [hcancellation, almanac_history, RetryPolicy.assess_eq, hclassify, hunreckonable]
    | ok classified =>
      cases hcharge : classified.1.charge with
      | error n =>
        have hunreckonable : stop = .unreckonable n := by
          simpa [attempt, houtcome, hcancellation, hclassify, hcharge, eq_comm] using ha
        simp [hcancellation, almanac_history, RetryPolicy.assess_eq, hclassify, hcharge, hunreckonable]
      | ok charge => simp [attempt, houtcome, hcancellation, hclassify, hcharge] at ha

theorem resumed_of_failed {i : Nat} {a : FailedAttempt} (hset : c.isSet (c.history p op i) = false)
    (ha : c.attempt op i = .ok a) : c.resumed p op i =
      match c.stop? p op i with
      | some stop => (c.ending op i stop, c.history p op i ++ c.lastActs p op i)
      | none =>
        if c.isSet (c.history p op (i + 1)) && c.heeds (c.history p op (i + 1)) then
          (.error (.ofFailure .brokenWait), c.history p op (i + 1))
        else c.resumed p op (i + 1) := by
  obtain ⟨e, houtcome, hcancellation, hclassify, hcharge⟩ := (c.attempt_eq_ok_iff op).mp ha
  have hunset : c.host.isCancelled (c.history p op i) = false := hset
  have hassess : RetryPolicy.assess .binary64 (c.almanac i) op (c.spent op i) e =
      .ok (a.failure, a.causes, c.spent op (i + 1)) := by
    simp [RetryPolicy.assess_eq, hclassify, hcharge, spent_succ, charge?, ha]
  rw [resumed, RetryPolicy.runFrom, hunset, call_history, houtcome]
  simp only [Bool.false_eq_true, ↓reduceIte, hcancellation, almanac_history, hassess, c.afterFailure_host p op ha]
  cases hstop : c.stop? p op i with
  | some stop => simp [ending, ha]
  | none =>
    obtain ⟨left, hleft⟩ : ∃ left, p.maxRetries - i = left + 1 :=
      Nat.exists_eq_succ_of_ne_zero (Nat.sub_ne_zero_of_lt (c.lt_maxRetries p op hstop))
    have hleft' : p.maxRetries - (i + 1) = left := by omega
    simp only [c.wait_host p op i, hleft, resumed, hleft']
    by_cases hbroken : c.isSet (c.history p op (i + 1)) && c.heeds (c.history p op (i + 1))
    · simp only [hbroken, ↓reduceIte]
    · simp only [hbroken, Bool.false_eq_true, ↓reduceIte]

theorem resumed_eq (i : Nat) : c.resumed p op i =
    if c.isSet (c.history p op i) then
      (.error (.ofFailure (.aborted op.component (op.name ++ " aborted"))), c.history p op i)
    else
      match c.stop? p op i with
      | some stop => (c.ending op i stop, c.history p op i ++ c.lastActs p op i)
      | none =>
        if c.isSet (c.history p op (i + 1)) && c.heeds (c.history p op (i + 1)) then
          (.error (.ofFailure .brokenWait), c.history p op (i + 1))
        else c.resumed p op (i + 1) := by
  by_cases hset : c.isSet (c.history p op i)
  case pos =>
    have hcancelled : c.host.isCancelled (c.history p op i) = true := hset
    rw [if_pos hset, resumed, RetryPolicy.runFrom, if_pos hcancelled]
  rw [if_neg hset]
  replace hset := Bool.eq_false_iff.mpr hset
  cases ha : c.attempt op i with
  | ok a => exact c.resumed_of_failed p op hset ha
  | error stop =>
    have hstop : c.stop? p op i = some stop := by simp [stop?, ha]
    simp [c.resumed_of_ended p op hset ha, hstop, lastActs, ha]

/-- How a run ends that has waited for so many attempts: with the next one, or cancelled before it. -/
structure EndsAfter (n : Nat) (result : Except Raised α) (acts : List RetryAct) : Prop where
  goesOn : ∀ i < n, c.isSet (c.history p op i) = false ∧ c.stop? p op i = none
  ends : (c.isSet (c.history p op n) = false ∧ ∃ stop, c.stop? p op n = some stop ∧
      result = c.ending op n stop ∧ acts = c.history p op n ++ c.lastActs p op n) ∨
    (c.isSet (c.history p op n) = true ∧ acts = c.history p op n ∧
      ∃ component message, result = .error (.ofFailure (.aborted component message)))

theorem endsAfter_resumed (i : Nat)
    (h : ∀ j < i, c.isSet (c.history p op j) = false ∧ c.stop? p op j = none) :
    ∃ n, c.EndsAfter p op n (c.resumed p op i).1 (c.resumed p op i).2 := by
  rw [resumed_eq]
  by_cases hset : c.isSet (c.history p op i)
  case pos =>
    exact ⟨i, h, .inr ⟨hset, by rw [if_pos hset], _, _, by rw [if_pos hset]⟩⟩
  simp only [hset, Bool.false_eq_true, ↓reduceIte]
  cases hstop : c.stop? p op i with
  | some stop => exact ⟨i, h, .inl ⟨by simpa using hset, stop, hstop, rfl, rfl⟩⟩
  | none =>
    have hnext : ∀ j < i + 1, c.isSet (c.history p op j) = false ∧ c.stop? p op j = none := by
      intro j hj
      rcases Nat.lt_succ_iff_lt_or_eq.mp hj with hj | rfl
      · exact h j hj
      · exact ⟨by simpa using hset, hstop⟩
    by_cases hbroken : c.isSet (c.history p op (i + 1)) && c.heeds (c.history p op (i + 1))
    case pos =>
      have hset' : c.isSet (c.history p op (i + 1)) = true := (Bool.and_eq_true_iff.mp hbroken).1
      exact ⟨i + 1, hnext, .inr ⟨hset', by rw [if_pos hbroken], _, _, by rw [if_pos hbroken]; rfl⟩⟩
    simp only [hbroken, Bool.false_eq_true, ↓reduceIte]
    have hlt := c.lt_maxRetries p op hstop
    exact endsAfter_resumed (i + 1) hnext
termination_by p.maxRetries - i

theorem run_endsAfter :
    ∃ n, c.EndsAfter p op n (p.run c.host op c.call []).1 (p.run c.host op c.call []).2 :=
  c.endsAfter_resumed p op 0 (by simp)

end RetryCourse

end SchemaInference
