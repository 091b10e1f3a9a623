import SchemaInference.Proofs.Sampling.Mirroring

set_option autoImplicit false

namespace SchemaInference

variable {σ φ α : Type}

def Store.recorded (store : Store σ φ) : Store (σ × List FeedPage) φ where
  start q s := ((store.start q s.1).1, (store.start q s.1).2, s.2)
  hasMore := store.hasMore
  fetch feed s :=
    match store.fetch feed s.1 with
    | (.error e, feed, t) => (.error e, feed, t, s.2)
    | (.ok page, feed, t) => (.ok page, feed, t, s.2 ++ [page])
  bound feed s := store.bound feed s.1
  partitionPath := store.partitionPath.map fun ask s => ((ask s.1).1, (ask s.1).2, s.2)

def SamplingAttempt.forget (a : SamplingAttempt (σ × List FeedPage)) : SamplingAttempt σ where
  store := a.store.1
  charge := a.charge
  overBudget := a.overBudget
  sampled := a.sampled
  progress := a.progress
  notes := a.notes
  shuffled := a.shuffled

namespace Sampling

/-- The pages that an attempt is delivered, whether it succeeds or not. -/
def pagesOn (store : Store σ φ) (plan : SamplingPlan) (s : σ) (shuffled : List (List Value)) : List FeedPage :=
  (attemptOn store.recorded plan (s, []) shuffled).2.store.2

theorem attemptOn_eq_ok (store : Store σ φ) (plan : SamplingPlan) {s : σ} {shuffled : List (List Value)}
    {sample : Sample} {a : SamplingAttempt σ} (h : attemptOn store plan s shuffled = (.ok sample, a)) :
    ∃ taken, (sampleBy store plan).run (.initial s shuffled) = (.ok taken, a) ∧ sample = finish taken a := by
  rw [attemptOn, byPlan_run] at h
  generalize (sampleBy store plan).run (.initial s shuffled) = result at h
  obtain ⟨result, b⟩ := result
  cases result with
  | error e => cases h
  | ok taken =>
    obtain ⟨⟨⟩, rfl⟩ := Prod.mk.inj h
    exact ⟨taken, rfl, rfl⟩

abbrev Records (m : Sampling (σ × List FeedPage) α) (n : Sampling σ α) : Prop :=
  Steps.Mirrors SamplingAttempt.forget m n

variable (store : Store σ φ)

theorem mirrors_recorded : store.recorded.Mirrors Prod.fst store where
  hasMore := rfl
  start _ _ := rfl
  fetch feed s := by
    simp only [Store.recorded]
    obtain ⟨page, feed, t⟩ := store.fetch feed s.1
    cases page <;> rfl
  bound _ _ := rfl
  partitionPath := by
    simp only [Store.recorded]
    cases store.partitionPath with
    | none => exact .none
    | some ask => exact .some fun s => rfl

theorem records_respected (limits : SamplingLimits) :
    Respected store.recorded store limits limits (fun _ => True) fun _ => Records :=
  mirrors_respected (mirrors_recorded store) limits

/-- To record the pages changes nothing of an attempt. -/
theorem attemptOn_recorded (plan : SamplingPlan) (s : σ) (pages : List FeedPage) (shuffled : List (List Value)) :
    attemptOn store plan s shuffled =
      ((attemptOn store.recorded plan (s, pages) shuffled).1,
        (attemptOn store.recorded plan (s, pages) shuffled).2.forget) :=
  attemptOn_mirrors (mirrors_recorded store) plan (s, pages) shuffled

end Sampling

end SchemaInference
