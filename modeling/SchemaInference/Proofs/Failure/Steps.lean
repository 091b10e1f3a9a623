import SchemaInference.Failure

set_option autoImplicit false

namespace SchemaInference.Steps

variable {S T α β : Type} {P Q R : S → T → Prop}

theorem run_bind (m : ExceptT Raised (StateM S) α) (f : α → ExceptT Raised (StateM S) β) (s : S) :
    (m >>= f).run s =
      match m.run s with
      | (.ok x, t) => (f x).run t
      | (.error e, t) => (.error e, t) := by
  change ExceptT.bindCont f (m s).1 (m s).2 = match m s with
      | (.ok x, t) => (f x).run t
      | (.error e, t) => (.error e, t)
  obtain ⟨result, t⟩ := m s
  cases result <;> rfl

/-- The second step does on what is viewed of a state what the first one does on the whole. -/
def Mirrors (view : S → T) (m : ExceptT Raised (StateM S) α) (n : ExceptT Raised (StateM T) α) : Prop :=
  ∀ s, n.run (view s) = ((m.run s).1, view (m.run s).2)

theorem Mirrors.bind {view : S → T} {m : ExceptT Raised (StateM S) α} {n : ExceptT Raised (StateM T) α}
    {f : α → ExceptT Raised (StateM S) β} {g : α → ExceptT Raised (StateM T) β} (h : Mirrors view m n)
    (hnext : ∀ x, Mirrors view (f x) (g x)) : Mirrors view (m >>= f) (n >>= g) := by
  intro s
  rw [run_bind, run_bind, h s]
  obtain ⟨result, t⟩ := m.run s
  cases result with
  | error e => rfl
  | ok x => exact hnext x t

/-- From related states the step succeeds with the value that is computed on the other state, and leaves
states that are related again. -/
def Computes (before after : S → T → Prop) (m : ExceptT Raised (StateM S) α) (value : StateM T α) : Prop :=
  ∀ s t, before s t → ∃ s', m.run s = (.ok (value t).1, s') ∧ after s' (value t).2

theorem Computes.pure (x : α) : Computes P P (pure x) (pure x) :=
  fun s _ h => ⟨s, rfl, h⟩

theorem Computes.bind {m : ExceptT Raised (StateM S) α} {value : StateM T α}
    {f : α → ExceptT Raised (StateM S) β} {g : α → StateM T β} (h : Computes P Q m value)
    (hnext : ∀ x, Computes Q R (f x) (g x)) : Computes P R (m >>= f) (value >>= g) := by
  intro s t hs
  obtain ⟨s', hrun, hs'⟩ := h s t hs
  obtain ⟨s'', hrun', hs''⟩ := hnext (value t).1 s' (value t).2 hs'
  refine ⟨s'', ?_, hs''⟩
  rw [run_bind, hrun]
  exact hrun'

theorem Computes.quiet_bind {m : ExceptT Raised (StateM S) α} {x : α} {f : α → ExceptT Raised (StateM S) β}
    {value : StateM T β} (h : Computes P Q m (Pure.pure x)) (hnext : Computes Q R (f x) value) :
    Computes P R (m >>= f) value := by
  intro s t hs
  obtain ⟨s', hrun, hs'⟩ := h s t hs
  obtain ⟨s'', hrun', hs''⟩ := hnext s' t hs'
  refine ⟨s'', ?_, hs''⟩
  rw [run_bind, hrun]
  exact hrun'

/-- From a state with `P` the step succeeds, with a value and a state for which `Q` holds. -/
def Succeeds (P : S → Prop) (m : ExceptT Raised (StateM S) α) (Q : α → S → Prop) : Prop :=
  ∀ s, P s → ∃ x t, m.run s = (.ok x, t) ∧ Q x t

section Succeeds

variable {P : S → Prop} {Q : α → S → Prop} {R : β → S → Prop}

theorem Succeeds.pure {x : α} (h : ∀ s, P s → Q x s) : Succeeds P (pure x) Q :=
  fun s hs => ⟨x, s, rfl, h s hs⟩

theorem Succeeds.modify {f : S → S} {Q : S → Prop} (h : ∀ s, P s → Q (f s)) :
    Succeeds P (modify f) fun (_ : PUnit) => Q :=
  fun s hs => ⟨⟨⟩, f s, rfl, h s hs⟩

theorem Succeeds.bind {m : ExceptT Raised (StateM S) α} {f : α → ExceptT Raised (StateM S) β}
    (h : Succeeds P m Q) (hnext : ∀ x, Succeeds (Q x) (f x) R) : Succeeds P (m >>= f) R := by
  intro s hs
  obtain ⟨x, t, hrun, ht⟩ := h s hs
  obtain ⟨y, u, hrun', hu⟩ := hnext x t ht
  refine ⟨y, u, ?_, hu⟩
  rw [run_bind, hrun]
  exact hrun'

theorem Succeeds.get_bind {f : S → ExceptT Raised (StateM S) β} (h : ∀ s, P s → Succeeds P (f s) R) :
    Succeeds P (get >>= f) R :=
  fun s hs => h s hs s hs

theorem Succeeds.assuming {p : Prop} {m : ExceptT Raised (StateM S) α} (h : p → Succeeds P m Q) :
    Succeeds (fun s => p ∧ P s) m Q :=
  fun s hs => h hs.1 s hs.2

end Succeeds

end SchemaInference.Steps
