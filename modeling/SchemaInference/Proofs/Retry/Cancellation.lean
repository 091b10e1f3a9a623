import SchemaInference.Moment.FreeDate
import SchemaInference.Proofs.Retry.Turns

set_option autoImplicit false

namespace SchemaInference

theorem eq_nil_of_callsIn_eq_one {rest before after : List RetryAct}
    (hone : callsIn (.call :: rest) = 1) (h : .call :: rest = before ++ .call :: after) : before = [] := by
  cases before with
  | nil => rfl
  | cons first before =>
    obtain ⟨rfl, rfl⟩ : RetryAct.call = first ∧ rest = before ++ .call :: after := by simpa using h
    simp [callsIn, RetryAct.isCall] at hone

namespace RetryCourse

variable {α : Type} (c : RetryCourse α) (p : RetryPolicy) (op : OperationName)

theorem exists_lastActs_eq_cons (i : Nat) : ∃ rest, c.lastActs p op i = .call :: rest := by
  unfold lastActs
  cases c.attempt op i with
  | error stop => exact ⟨[], rfl⟩
  | ok a => exact ⟨_, rfl⟩

theorem exists_acts_eq_cons (i : Nat) : ∃ rest, c.acts p op i = .call :: rest := by
  obtain ⟨rest, hrest⟩ := c.exists_lastActs_eq_cons p op i
  exact ⟨_, by rw [acts, hrest]; rfl⟩

variable {c p op}

theorem eq_history_of_append_eq {n : Nat} {rest before after : List RetryAct}
    (hone : callsIn (.call :: rest) = 1)
    (h : c.history p op n ++ .call :: rest = before ++ .call :: after) :
    ∃ i ≤ n, before = c.history p op i := by
  induction n generalizing rest after with
  | zero => exact ⟨0, Nat.le_refl _, eq_nil_of_callsIn_eq_one hone h⟩
  | succ n ih =>
    rcases List.append_eq_append_iff.mp h with ⟨between, hbefore, hrest⟩ | ⟨between, hhistory, hafter⟩
    · obtain rfl := eq_nil_of_callsIn_eq_one hone hrest
      exact ⟨n + 1, Nat.le_refl _, by simpa using hbefore⟩
    · cases between with
      | nil => exact ⟨n + 1, Nat.le_refl _, by simpa using hhistory.symm⟩
      | cons act between =>
        obtain ⟨rfl, -⟩ : RetryAct.call = act ∧ after = between ++ .call :: rest := by simpa using hafter
        obtain ⟨whole, hwhole⟩ := c.exists_acts_eq_cons p op n
        have hcalls := c.callsIn_acts p op n
        rw [history_succ, hwhole] at hhistory
        obtain ⟨i, hi, hbefore⟩ := ih (hwhole ▸ hcalls) hhistory
        exact ⟨i, Nat.le_succ_of_le hi, hbefore⟩

theorem eq_history_of_eq {n : Nat} {before after : List RetryAct}
    (h : c.history p op n = before ++ .call :: after) : ∃ i < n, before = c.history p op i := by
  cases n with
  | zero => simp [history] at h
  | succ n =>
    obtain ⟨rest, hrest⟩ := c.exists_acts_eq_cons p op n
    have hcalls := c.callsIn_acts p op n
    rw [history_succ, hrest] at h
    obtain ⟨i, hi, hbefore⟩ := eq_history_of_append_eq (hrest ▸ hcalls) h
    exact ⟨i, Nat.lt_succ_of_le hi, hbefore⟩

theorem isSet_append (hkeeps : ∀ acts act, c.isSet acts = true → c.isSet (acts ++ [act]) = true)
    {before : List RetryAct} (after : List RetryAct) (h : c.isSet before = true) :
    c.isSet (before ++ after) = true := by
  induction after generalizing before with
  | nil => rwa [List.append_nil]
  | cons act after ih =>
    rw [List.append_cons]
    exact ih (hkeeps before act h)

/-- Every call of a run begins after whole attempts, while the run is not cancelled. -/
theorem EndsAfter.begins {n : Nat} {result : Except Raised α} {acts before after : List RetryAct}
    (h : c.EndsAfter p op n result acts) (hacts : acts = before ++ .call :: after) :
    ∃ i, before = c.history p op i ∧ c.isSet (c.history p op i) = false := by
  obtain ⟨hgoesOn, ⟨hunset, stop, -, -, hlast⟩ | ⟨-, hwhole, -⟩⟩ := h
  · obtain ⟨rest, hrest⟩ := c.exists_lastActs_eq_cons p op n
    have hcalls := c.callsIn_lastActs p op n
    rw [hrest] at hlast hcalls
    obtain ⟨i, hi, hbefore⟩ := eq_history_of_append_eq hcalls (hlast.symm.trans hacts)
    rcases Nat.lt_or_eq_of_le hi with hlt | rfl
    · exact ⟨i, hbefore, (hgoesOn i hlt).1⟩
    · exact ⟨i, hbefore, hunset⟩
  · obtain ⟨i, hi, hbefore⟩ := eq_history_of_eq (hwhole.symm.trans hacts)
    exact ⟨i, hbefore, (hgoesOn i hi).1⟩

/-- No call begins once a run is cancelled: it ends with the call that was made last, or as aborted. -/
theorem run_cancelled (c : RetryCourse α) (p : RetryPolicy) (op : OperationName)
    (hkeeps : ∀ acts act, c.isSet acts = true → c.isSet (acts ++ [act]) = true) :
    let run := p.run c.host op c.call []
    (∀ before after, run.2 = before ++ after → c.isSet before = true → RetryAct.call ∉ after) ∧
    ((∃ i stop, callsIn run.2 = i + 1 ∧ c.stop? p op i = some stop ∧ run.1 = c.ending op i stop) ∨
      (c.isSet run.2 = true ∧ (∀ i, callsIn run.2 = i + 1 → c.stop? p op i = none) ∧
        ∃ component message, run.1 = .error (.ofFailure (.aborted component message)))) := by
  intro run
  obtain ⟨n, hrun⟩ := c.run_endsAfter p op
  constructor
  · intro before after hacts hset hcall
    obtain ⟨between, last, rfl⟩ := List.append_of_mem hcall
    rw [← List.append_assoc] at hacts
    obtain ⟨i, hbefore, hunset⟩ := hrun.begins hacts
    -- The cancellation that came earlier is still there when the call begins.
    have hstill := isSet_append hkeeps between hset
    simp [← hbefore, hstill] at hunset
  · obtain ⟨hgoesOn, ⟨-, stop, hstop, hresult, hacts⟩ | ⟨hset, hacts, haborted⟩⟩ := hrun
    · exact .inl ⟨n, stop, by rw [hacts, callsIn_append, callsIn_history, callsIn_lastActs], hstop, hresult⟩
    · refine .inr ⟨hacts ▸ hset, fun i hi => ?_, haborted⟩
      rw [hacts, callsIn_history] at hi
      exact (hgoesOn i (by omega)).2

def busyStore : RetryCourse Nat where
  outcome _ := .error (.ofFailure { Failure.make .rateLimit "busy" "store" [] with retryable := true })
  almanac _ := FreeDate.atYear2000
  answer _ := .null
  chance _ := .real (.finite 0)
  isSet acts := decide (2 ≤ callsIn acts)
  heeds _ := false

/-- The run waits once more and is then aborted. -/
theorem run_cancelled_busyStore :
    let run := RetryPolicy.steady.run busyStore.host ⟨"store", "read"⟩ busyStore.call []
    callsIn run.2 = 2 ∧ ∃ component message, run.1 = .error (.ofFailure (.aborted component message)) := by
  intro run
  have hcalls : callsIn run.2 = 2 := by decide +kernel
  have hnone : busyStore.stop? RetryPolicy.steady ⟨"store", "read"⟩ 1 = none := by decide +kernel
  have hkeeps (acts : List RetryAct) (act : RetryAct) (hset : busyStore.isSet acts = true) :
      busyStore.isSet (acts ++ [act]) = true := by
    simp only [busyStore, decide_eq_true_eq] at hset ⊢
    exact Nat.le_trans hset (by rw [callsIn_append]; exact Nat.le_add_right _ _)
  obtain ⟨-, ⟨i, stop, hi, hstop, -⟩ | ⟨-, -, haborted⟩⟩ :=
    run_cancelled busyStore RetryPolicy.steady ⟨"store", "read"⟩ hkeeps
  · obtain rfl : 1 = i := Nat.succ.inj (hcalls.symm.trans hi)
    simp [hnone] at hstop
  · exact ⟨hcalls, haborted⟩

end RetryCourse

end SchemaInference
