import SchemaInference.Proofs.Sampling.Relating

set_option autoImplicit false

namespace SchemaInference

variable {σ τ φ : Type}

/-- The second store answers on what is viewed of a state as the first one does on the whole. -/
structure Store.Mirrors (view : σ → τ) (store : Store σ φ) (other : Store τ φ) : Prop where
  hasMore : other.hasMore = store.hasMore
  start : ∀ q s, other.start q (view s) = ((store.start q s).1, view (store.start q s).2)
  fetch : ∀ feed s, other.fetch feed (view s) =
    ((store.fetch feed s).1, (store.fetch feed s).2.1, view (store.fetch feed s).2.2)
  bound : ∀ feed s, other.bound feed (view s) = store.bound feed s
  partitionPath : Option.Rel (fun ask tell => ∀ s, tell (view s) = ((ask s).1, view (ask s).2))
    store.partitionPath other.partitionPath

def SamplingAttempt.onView (view : σ → τ) (a : SamplingAttempt σ) : SamplingAttempt τ :=
  { a with store := view a.store }

namespace Sampling

def attemptOn (store : Store σ φ) (plan : SamplingPlan) (s : σ) (shuffled : List (List Value)) :
    Except Raised Sample × SamplingAttempt σ :=
  (byPlan store plan).run (.initial s shuffled)

variable {view : σ → τ} {store : Store σ φ} {other : Store τ φ} (h : store.Mirrors view other)
include h

theorem mirrors_fetchPage (feed : φ) :
    Steps.Mirrors (SamplingAttempt.onView view) (fetchPage store feed) (fetchPage other feed) := by
  intro a
  have hfetch : other.fetch feed (a.onView view).store = _ := h.fetch feed a.store
  rw [fetchPage_run, fetchPage_run, hfetch]
  obtain ⟨page, feed, s⟩ := store.fetch feed a.store
  cases page with
  | error e => rfl
  | ok page =>
    dsimp only
    cases page.spent <;> rfl

theorem mirrors_openFeed (q : SampleQuery) :
    Steps.Mirrors (SamplingAttempt.onView view) (openFeed store q) (openFeed other q) := by
  intro a
  change (Except.ok (other.start q (view a.store)).1,
    { a.onView view with store := (other.start q (view a.store)).2 }) = _
  rw [h.start]
  rfl

theorem mirrors_askStore :
    Steps.Mirrors (SamplingAttempt.onView view) (resolvePartitionPath.askStore store)
      (resolvePartitionPath.askStore other) := by
  intro a
  have hpath := h.partitionPath
  unfold resolvePartitionPath.askStore
  generalize store.partitionPath = asks, other.partitionPath = tells at hpath ⊢
  cases hpath with
  | none => rfl
  | @some ask tell htell =>
    change ((tell (view a.store)).1, { a.onView view with store := (tell (view a.store)).2 }) = _
    rw [htell]
    rfl

theorem mirrors_respected (limits : SamplingLimits) :
    Respected store other limits limits (fun _ => True) fun _ => Steps.Mirrors (SamplingAttempt.onView view) where
  target := rfl
  hasMore := h.hasMore
  pure _ _ := rfl
  bind := .bind
  note _ _ := rfl
  report _ _ := rfl
  isOverBudget _ := rfl
  shuffled _ _ _ := rfl
  askStore := mirrors_askStore h
  openFeed q _ _ hnext := .bind (mirrors_openFeed h q) fun feed => hnext feed trivial
  bound feed _ _ hnext a := hnext a (a.onView view) (h.bound feed a.store) a
  fetchPage _ _ hnext := .bind (mirrors_fetchPage h _) fun page => hnext page.1 page.2 trivial

theorem attemptOn_mirrors (plan : SamplingPlan) (s : σ) (shuffled : List (List Value)) :
    attemptOn other plan (view s) shuffled =
      ((attemptOn store plan s shuffled).1, (attemptOn store plan s shuffled).2.onView view) := by
  have hsample := (mirrors_respected h plan.limits).sampleBy rfl (.initial s shuffled)
  unfold attemptOn
  rw [byPlan_run, byPlan_run]
  replace hsample : (sampleBy other plan).run (.initial (view s) shuffled) = _ := hsample
  rw [hsample]
  obtain ⟨result, a⟩ := (sampleBy store plan).run (.initial s shuffled)
  cases result <;> rfl

end Sampling

end SchemaInference
