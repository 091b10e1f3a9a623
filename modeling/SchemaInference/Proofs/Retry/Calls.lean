import SchemaInference.Retry.Run

set_option autoImplicit false

namespace SchemaInference

variable {σ τ υ α : Type}

/-- Whatever the host does, some part of the state stays as it is. -/
structure RetryHost.Keeps (h : RetryHost σ) (view : σ → τ) : Prop where
  consult : ∀ f n s, view (h.consult f n s).2 = view s
  announce : ∀ f n delay s, view (h.announce f n delay s) = view s
  chance : ∀ s, view (h.chance s).2 = view s
  wait : ∀ ms s, view (h.wait ms s).2 = view s
  note : ∀ n s, view (h.note n s) = view s

theorem RetryHost.within_keeps (h : RetryHost υ) {get : σ → υ} {set : υ → σ → σ} {view : σ → τ}
    (hset : ∀ u s, view (set u s) = view s) : (h.within get set).Keeps view where
  consult _ _ _ := hset _ _
  announce _ _ _ _ := hset _ _
  chance _ := hset _ _
  wait _ _ := hset _ _
  note _ _ := hset _ _

namespace RetryPolicy

variable (r : Rounding) (p : RetryPolicy) {h : RetryHost σ} {view : σ → τ} (hkeeps : h.Keeps view)
include hkeeps

theorem view_consultCaller (f : Failure) (attempt : Nat) (s : σ) :
    view (p.consultCaller h f attempt s).2 = view s := by
  unfold consultCaller
  split
  · exact hkeeps.consult f attempt s
  · rfl

theorem view_nextDelay (f : Failure) (attempt : Nat) (s : σ) :
    view (p.nextDelay r h f attempt s).2 = view s := by
  unfold nextDelay
  split
  · exact hkeeps.chance s
  · rfl

theorem view_prepareRetry (op : OperationName) (f : Failure) (attempt : Nat) (s : σ) :
    view (p.prepareRetry r h op f attempt s).2 = view s := by
  have hdelay := p.view_nextDelay r hkeeps f attempt s
  unfold prepareRetry
  split
  next s' heq => rwa [heq] at hdelay
  next delay s' heq =>
    rw [heq] at hdelay
    dsimp only
    rw [hkeeps.wait]
    split
    · rw [hkeeps.announce, hkeeps.note, hdelay]
    · rw [hkeeps.note, hdelay]

theorem view_afterFailure (op : OperationName) (left attempt : Nat) (spent : Double) (f : Failure)
    (causes : List Fault) (s : σ) :
    view (p.afterFailure r h op left attempt spent f causes s).2 = view s := by
  have hconsult := p.view_consultCaller hkeeps f attempt s
  unfold afterFailure
  split
  · rfl
  · dsimp only
    split
    · exact hconsult
    · split
      · rw [hkeeps.note, hconsult]
      · split
        · exact hconsult
        · rw [hkeeps.note, hconsult]
        · rw [p.view_prepareRetry r hkeeps, hconsult]

omit hkeeps

/-- From one state to another an operation is called again and again and always fails; every call starts
where the one before it has left off. -/
inductive Retried (step : τ → Except Raised α × τ) : τ → List τ → τ → Prop
  | none (t : τ) : Retried step t [] t
  | failed {t last : τ} {e : Raised} {starts : List τ} (hfails : (step t).1 = .error e)
      (hrest : Retried step (step t).2 starts last) : Retried step t (t :: starts) last

theorem Retried.unique {step : τ → Except Raised α × τ} {t last last' : τ} {starts starts' : List τ} {a a' : α}
    (hretried : Retried step t starts last) (hlast : (step last).1 = .ok a) (hretried' : Retried step t starts' last')
    (hlast' : (step last').1 = .ok a') : starts = starts' ∧ last = last' := by
  induction hretried generalizing starts' with
  | none t =>
    cases hretried' with
    | none => exact ⟨rfl, rfl⟩
    | failed hfails _ => rw [hfails] at hlast; cases hlast
  | failed hfails _ ih =>
    cases hretried' with
    | none => rw [hfails] at hlast'; cases hlast'
    | failed _ hrest =>
      obtain ⟨hstarts, hends⟩ := ih hlast hrest
      exact ⟨congrArg _ hstarts, hends⟩

theorem Retried.eq_second {step : τ → Except Raised α × τ} {t last : τ} {starts : List τ} {a : α}
    (hfails : (step t).1.isOk = false) (hsucceeds : (step (step t).2).1.isOk = true)
    (hretried : Retried step t starts last) (hlast : (step last).1 = .ok a) : starts = [t] ∧ last = (step t).2 := by
  obtain ⟨e, he⟩ : ∃ e, (step t).1 = .error e := by
    cases hresult : (step t).1 with
    | error e => exact ⟨e, rfl⟩
    | ok a => rw [hresult] at hfails; cases hfails
  obtain ⟨a', ha'⟩ : ∃ a', (step (step t).2).1 = .ok a' := by
    cases hresult : (step (step t).2).1 with
    | error e => rw [hresult] at hsucceeds; cases hsucceeds
    | ok a => exact ⟨a, rfl⟩
  exact hretried.unique hlast (.failed he (.none _)) ha'

include hkeeps

theorem runFrom_retried (op : OperationName) {call : σ → Except Raised α × σ}
    {step : τ → Except Raised α × τ} (hcall : ∀ s, step (view s) = ((call s).1, view (call s).2))
    (left attempt : Nat) (spent : Double) (s : σ) :
    ∃ starts last, Retried step (view s) starts last ∧
      match p.runFrom r h op call left attempt spent s with
      | (.ok a, after) => step last = (.ok a, view after)
      | (.error _, after) => last = view after := by
  have hfailed {s s' : σ} {e : Raised} {starts : List τ} {last : τ} (hcalled : call s = (.error e, s'))
      (hrest : Retried step (view s') starts last) : Retried step (view s) (view s :: starts) last := by
    have hstep : step (view s) = (.error e, view s') := by rw [hcall, hcalled]
    exact .failed (congrArg Prod.fst hstep) (congrArg Prod.snd hstep ▸ hrest)
  have hwaited {left attempt : Nat} {spent : Double} {f : Failure} {causes : List Fault} {s s' : σ}
      {result : Except Raised Unit}
      (hafter : p.afterFailure r h op left attempt spent f causes s = (result, s')) : view s = view s' := by
    rw [← p.view_afterFailure r hkeeps op left attempt spent f causes s, hafter]
  fun_induction RetryPolicy.runFrom r p h op call left attempt spent s with
  | case1 _ _ _ s => exact ⟨[], view s, .none _, rfl⟩
  | case2 _ _ _ s _ a after hcalled => exact ⟨[], view s, .none _, by rw [hcall, hcalled]⟩
  | case3 _ _ _ s _ e after hcalled => exact ⟨[view s], view after, hfailed hcalled (.none _), rfl⟩
  | case4 _ _ _ s _ e after hcalled => exact ⟨[view s], view after, hfailed hcalled (.none _), rfl⟩
  | case5 _ _ _ s _ e after hcalled _ f causes spent _ stop waited hafter =>
    rw [hafter]
    exact ⟨[view s], view after, hfailed hcalled (.none _), hwaited hafter⟩
  | case6 _ _ s _ e after hcalled _ f causes spent _ waited left hafter ih =>
    rw [hafter]
    obtain ⟨starts, last, hretried, hlast⟩ := ih
    exact ⟨view s :: starts, last, hfailed hcalled (hwaited hafter ▸ hretried), hlast⟩
  | case7 _ _ s _ e after hcalled _ f causes spent _ waited hafter =>
    rw [hafter]
    exact ⟨[view s], view after, hfailed hcalled (.none _), hwaited hafter⟩

/-- A run calls its operation until it succeeds, or gives up between two calls. -/
theorem run_retried (op : OperationName) {call : σ → Except Raised α × σ}
    {step : τ → Except Raised α × τ} (hcall : ∀ s, step (view s) = ((call s).1, view (call s).2)) (s : σ) :
    ∃ starts last, Retried step (view s) starts last ∧
      match p.run h op call s with
      | (.ok a, after) => step last = (.ok a, view after)
      | (.error _, after) => last = view after :=
  p.runFrom_retried .binary64 hkeeps op hcall p.maxRetries 0 (.finite 0) s

omit hkeeps

theorem run_eq_of_call (op : OperationName) {call : σ → Except Raised α × σ} {s s' : σ} {a : α}
    (hopen : h.isCancelled s = false) (hcall : call s = (.ok a, s')) : p.run h op call s = (.ok a, s') := by
  rw [run, runBy, runFrom.eq_def]
  simp only [hopen, Bool.false_eq_true, ↓reduceIte, hcall]

end RetryPolicy

end SchemaInference
