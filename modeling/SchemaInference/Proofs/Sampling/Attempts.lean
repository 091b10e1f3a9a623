import SchemaInference.Proofs.Retry.Calls
import SchemaInference.Proofs.Sampling.Choosing

/-!
# The attempts at a sample

What holds of one attempt is read off its recording.  A sample is drawn by one attempt after the other,
each on the store as the one before it has left it; an attempt that fails leaves chance as it was.
-/

set_option autoImplicit false

namespace SchemaInference.Sampling

variable {σ φ η : Type} (store : Store σ φ) (plan : SamplingPlan)

def afresh (s : σ) : Except Raised Sample × σ :=
  ((attemptOn store plan s []).1, (attemptOn store plan s []).2.store)

/-- The sample is made of rows of these pages, and says what they have cost. -/
structure MadeFrom (pages : List FeedPage) (sample : Sample) : Prop where
  atMost : sample.documents.length ≤ plan.limits.target
  mappings : ∀ d ∈ sample.documents, d.isMapping = true
  fromRows : sample.documents.Subperm (rowsOf pages)
  inOrder : plan.strategy ≠ .random → sample.documents.Sublist (rowsOf pages)
  charge : sample.charge = chargeAfter (.finite 0) pages
  exceeded : sample.status = .budgetExceeded → plan.limits.reachedBy sample.charge = true

/-- What becomes of an attempt to which these pages are delivered. -/
structure Runs (shuffled : List (List Value)) (pages : List FeedPage) (result : Except Raised Sample)
    (a : SamplingAttempt σ) : Prop where
  below : ∀ k < pages.length, plan.limits.reachedBy (chargeAfter (.finite 0) (pages.take k)) = false
  shuffled : result.isOk = false → a.shuffled = shuffled
  reports : ∀ p ∈ a.progress, p.sampled ≤ plan.limits.target
  sample : ∀ sample, result = .ok sample → MadeFrom plan pages sample ∧
    ∀ p, a.progress.getLast? = some p → p.sampled = sample.documents.length

variable (hshuffle : ∀ earlier documents, (plan.shuffle.order earlier documents).Perm documents)

section Attempt

variable (s : σ) (shuffled : List (List Value))
include hshuffle

theorem attemptOn_recorded_runs :
    let attempt := attemptOn store.recorded plan (s, []) shuffled
    Runs plan shuffled attempt.2.store.2 attempt.1 attempt.2 := by
  obtain ⟨hshuffled, pages, added, hadded, hreads, hsample⟩ :=
    sampleBy_readsTo store plan hshuffle (.initial (s, []) shuffled)
  rw [attemptOn, byPlan_run]
  generalize (sampleBy store.recorded plan).run (.initial (s, []) shuffled) = taken at *
  obtain ⟨result, a⟩ := taken
  obtain rfl : a.store.2 = pages := hreads.kept
  have hsampled : a.sampled = added := hreads.sampled.trans (Nat.zero_add added)
  obtain ⟨reports, hprogress, -, hreports, hlast⟩ := hreads.reports
  replace hprogress : a.progress = reports := hprogress
  cases result with
  | error e =>
    exact
      { below := hreads.below
        shuffled := fun _ => hshuffled fun _ => rfl
        reports := fun p hp => Nat.le_trans (hreports p (hprogress ▸ hp)) (hsampled ▸ hadded)
        sample := by simp }
  | ok sample =>
    obtain ⟨hpicked, hopen, hordered⟩ := hsample sample rfl
    have hmade : MadeFrom plan a.store.2 (finish sample a) :=
      { atMost := Nat.le_trans (Nat.le_of_eq hpicked.size) hadded
        mappings := hpicked.mappings
        fromRows := hpicked.fromRows
        inOrder := hordered
        charge := hreads.paid rfl
        exceeded := by
          intro hstatus
          have hover : a.overBudget = true := by
            by_contra hover
            exact hopen (by simpa [finish, hover] using hstatus)
          exact hreads.reached (by simp [SamplingAttempt.initial]) hover }
    exact
      { below := hreads.below
        shuffled := by simp [Except.isOk, Except.toBool]
        reports := fun p hp => Nat.le_trans (hreports p (hprogress ▸ hp)) (hsampled ▸ hadded)
        sample := by
          rintro _ ⟨⟩
          refine ⟨hmade, fun p hp => ?_⟩
          rw [hlast p (hprogress ▸ hp), hsampled]
          exact hpicked.size.symm }

theorem attemptOn_runs :
    Runs plan shuffled (pagesOn store plan s shuffled) (attemptOn store plan s shuffled).1
      (attemptOn store plan s shuffled).2 := by
  have hrecorded := attemptOn_recorded_runs store plan hshuffle s shuffled
  rw [attemptOn_recorded store plan s [] shuffled]
  exact ⟨hrecorded.below, hrecorded.shuffled, hrecorded.reports, hrecorded.sample⟩

end Attempt

structure Trail (σ : Type) where
  store : σ
  progress : List SamplingProgress
  shuffled : List (List Value)

def Trail.ofCourse (s : SamplingCourse σ η) : Trail σ :=
  ⟨s.store, s.progress, s.shuffled⟩

def advance (t : Trail σ) : Except Raised Sample × Trail σ :=
  let (result, a) := attemptOn store plan t.store t.shuffled
  (result, ⟨a.store, t.progress ++ a.progress, a.shuffled⟩)

theorem advance_ofCourse (h : RetryHost η) (s : SamplingCourse σ η) :
    advance store plan (.ofCourse s) = ((attempt store h plan s).1, .ofCourse (attempt store h plan s).2) :=
  rfl

theorem hostWithin_keeps (h : RetryHost η) :
    (hostWithin h).Keeps (Trail.ofCourse : SamplingCourse σ η → Trail σ) :=
  h.within_keeps fun _ _ => rfl

include hshuffle in
theorem retried_afresh {t last : Trail σ} {starts : List (Trail σ)} (hnone : t.shuffled = [])
    (h : RetryPolicy.Retried (advance store plan) t starts last) :
    RetryPolicy.Retried (afresh store plan) t.store (starts.map (·.store)) last.store ∧ last.shuffled = [] ∧
      ∃ reports, last.progress = t.progress ++ reports ∧ ∀ p ∈ reports, p.sampled ≤ plan.limits.target := by
  induction h with
  | none t => exact ⟨.none _, hnone, [], by simp, by simp⟩
  | @failed t last e starts hfails _ ih =>
    obtain ⟨s, progress, shuffled⟩ := t
    obtain rfl : shuffled = [] := hnone
    -- A random attempt asks chance last, after all that can fail, so that the next attempt starts like this one.
    have hruns := attemptOn_runs store plan hshuffle s []
    have hfailed : (attemptOn store plan s []).1 = .error e := hfails
    have hkept : (attemptOn store plan s []).2.shuffled = [] := hruns.shuffled (by rw [hfailed]; rfl)
    obtain ⟨hretried, hlast, reports, hprogress, hreports⟩ := ih hkept
    refine ⟨.failed hfailed hretried, hlast, (attemptOn store plan s []).2.progress ++ reports, ?_, ?_⟩
    · rw [hprogress, ← List.append_assoc]
      rfl
    · exact List.forall_mem_append.mpr ⟨hruns.reports, hreports⟩

def noteSize (h : RetryHost η) (plan : SamplingPlan) (host : η) : η :=
  match SamplingPlan.sizeNote? plan.limits.target with
  | some n => h.note n host
  | none => host

theorem draw_eq (h : RetryHost η) (policy : RetryPolicy) (s : SamplingState σ η) :
    draw store h policy plan s =
      ((policy.run (hostWithin h) ⟨SamplingPlan.component, plan.strategy.name ++ " sampling"⟩
          (attempt store h plan) { s with host := noteSize h plan s.host, shuffled := [] }).1,
        (policy.run (hostWithin h) ⟨SamplingPlan.component, plan.strategy.name ++ " sampling"⟩
          (attempt store h plan) { s with host := noteSize h plan s.host, shuffled := [] }).2.toSamplingState) :=
  rfl

include hshuffle in
/-- A sample is drawn by one attempt after the other, and it is the sample of the last one. -/
theorem draw_retried (h : RetryHost η) (policy : RetryPolicy) (s : SamplingState σ η) :
    ∃ starts last reports, RetryPolicy.Retried (afresh store plan) s.store starts last ∧
      (∀ p ∈ reports, p.sampled ≤ plan.limits.target) ∧
      match draw store h policy plan s with
      | (.ok sample, after) => ∃ final, attemptOn store plan last [] = (.ok sample, final) ∧
          after.store = final.store ∧ after.progress = s.progress ++ reports ++ final.progress
      | (.error _, after) => after.store = last ∧ after.progress = s.progress ++ reports := by
  obtain ⟨starts, last, hretried, hlast⟩ := policy.run_retried (hostWithin_keeps h)
    ⟨SamplingPlan.component, plan.strategy.name ++ " sampling"⟩ (advance_ofCourse store plan h)
    { s with host := noteSize h plan s.host, shuffled := [] }
  obtain ⟨hafresh, hchance, reports, hprogress, hreports⟩ := retried_afresh store plan hshuffle rfl hretried
  refine ⟨_, last.store, reports, hafresh, hreports, ?_⟩
  rw [draw_eq]
  generalize policy.run (hostWithin h) _ (attempt store h plan) _ = drawn at hlast ⊢
  obtain ⟨result, after⟩ := drawn
  obtain ⟨start, progress, shuffled⟩ := last
  obtain rfl : shuffled = [] := hchance
  replace hprogress : progress = s.progress ++ reports := hprogress
  subst hprogress
  cases result with
  | error e => exact ⟨congrArg Trail.store hlast.symm, congrArg Trail.progress hlast.symm⟩
  | ok sample =>
    replace hlast : advance store plan ⟨start, s.progress ++ reports, []⟩ = (.ok sample, .ofCourse after) := hlast
    have hresult : (attemptOn store plan start []).1 = .ok sample := congrArg Prod.fst hlast
    have hafter := congrArg Prod.snd hlast
    exact ⟨(attemptOn store plan start []).2, Prod.ext hresult rfl, congrArg Trail.store hafter.symm,
      congrArg Trail.progress hafter.symm⟩

include hshuffle in
theorem exists_afresh_of_draw {h : RetryHost η} {policy : RetryPolicy} {s : SamplingState σ η}
    {sample : Sample} (hsample : (draw store h policy plan s).1 = .ok sample) :
    ∃ starts last, RetryPolicy.Retried (afresh store plan) s.store starts last ∧
      (afresh store plan last).1 = .ok sample := by
  obtain ⟨starts, last, reports, hretried, -, hdrawn⟩ := draw_retried store plan hshuffle h policy s
  generalize draw store h policy plan s = drawn at hsample hdrawn
  obtain ⟨result, after⟩ := drawn
  obtain rfl : result = .ok sample := hsample
  obtain ⟨final, hfinal, -, -⟩ := hdrawn
  exact ⟨starts, last, hretried, congrArg Prod.fst hfinal⟩

end SchemaInference.Sampling
