import SchemaInference.Moment.FreeDate
import SchemaInference.Proofs.Sampling.Attempts
import SchemaInference.Retry.Script
import SchemaInference.Sampling.Memory

set_option autoImplicit false

namespace SchemaInference.Sampling

variable {σ φ η : Type}

/-- A sample is what the last attempt takes afresh.  It is made of rows of the pages delivered to that
attempt, in their order unless they are shuffled.  No attempt reports more documents than were asked for,
and the last report of the last attempt counts the documents of the sample. -/
theorem draw_lastAttempt (store : Store σ φ) (h : RetryHost η) (policy : RetryPolicy)
    (plan : SamplingPlan) (s : SamplingState σ η)
    (hshuffle : ∀ earlier documents, (plan.shuffle.order earlier documents).Perm documents) :
    let drawn := draw store h policy plan s
    (∃ reports, drawn.2.progress = s.progress ++ reports ∧ ∀ p ∈ reports, p.sampled ≤ plan.limits.target) ∧
    ∀ sample, drawn.1 = .ok sample → ∃ starts last final earlier,
      RetryPolicy.Retried (afresh store plan) s.store starts last ∧
      attemptOn store plan last [] = (.ok sample, final) ∧ drawn.2.store = final.store ∧
      sample.documents.length ≤ plan.limits.target ∧ (∀ d ∈ sample.documents, d.isMapping = true) ∧
      sample.documents.Subperm (rowsOf (pagesOn store plan last [])) ∧
      (plan.strategy ≠ .random → sample.documents.Sublist (rowsOf (pagesOn store plan last []))) ∧
      drawn.2.progress = earlier ++ final.progress ∧
      ∀ p, final.progress.getLast? = some p → p.sampled = sample.documents.length := by
  intro drawn
  obtain ⟨starts, last, reports, hretried, hreports, hdrawn⟩ :=
    draw_retried store plan hshuffle h policy s
  have hdef : draw store h policy plan s = drawn := rfl
  rw [hdef] at hdrawn
  clear_value drawn
  obtain ⟨result, after⟩ := drawn
  cases result with
  | error e => exact ⟨⟨reports, hdrawn.2, hreports⟩, by simp⟩
  | ok sample =>
    obtain ⟨final, hfinal, hstore, hprogress⟩ := hdrawn
    have hruns := attemptOn_runs store plan hshuffle last []
    rw [hfinal] at hruns
    obtain ⟨hmade, hlast⟩ := hruns.sample sample rfl
    refine ⟨⟨reports ++ final.progress, ?_, List.forall_mem_append.mpr ⟨hreports, hruns.reports⟩⟩, ?_⟩
    · rw [hprogress, List.append_assoc]
    · rintro _ ⟨⟩
      exact ⟨starts, last, final, s.progress ++ reports, hretried, hfinal, hstore, hmade.atMost, hmade.mappings,
        hmade.fromRows, hmade.inOrder, hprogress, hlast⟩

def brokenFeed : FeedStore where
  feeds :=
    [[.ok ⟨[.mapping [(.text "a", .whole 1)]], .real (.ofRat .binary64 5)⟩,
        .error (.ofForeign ⟨"TimeoutError", [.system, .timeout], .ok "slow", []⟩)],
      [.ok ⟨[.mapping [(.text "b", .whole 1)], .null, .mapping [(.text "c", .whole 1)]],
        .real (.ofRat .binary64 2)⟩]]
  queries := []

def twoReversed : SamplingPlan where
  strategy := .random
  limits := ⟨2, none⟩
  partitionPath := none
  variants := 3
  shuffle := (List.reverse : List Value → List Value)

/-- The attempt that breaks off has read a document which is not in the sample. -/
theorem draw_lastAttempt_brokenFeed :
    ∃ sample after, draw (FeedStore.store none) (RetryScript.host FreeDate.atYear2000) RetryPolicy.standard twoReversed
        ⟨brokenFeed, .start false none [] [], []⟩ = (.ok sample, after) ∧
      sample.documents.length = 2 ∧ (∀ p ∈ after.progress, p.sampled ≤ 2) ∧
      ∃ starts last, RetryPolicy.Retried (afresh (FeedStore.store none) twoReversed) brokenFeed starts last ∧
        sample.documents.Subperm (rowsOf (pagesOn (FeedStore.store none) twoReversed last [])) := by
  have hlength : (draw (FeedStore.store none) (RetryScript.host FreeDate.atYear2000) RetryPolicy.standard twoReversed
      ⟨brokenFeed, .start false none [] [], []⟩).1.toOption.map (fun sample => sample.documents.length) = some 2 := by
    decide +kernel
  have hlast := draw_lastAttempt (FeedStore.store none) (RetryScript.host FreeDate.atYear2000) RetryPolicy.standard twoReversed
    ⟨brokenFeed, .start false none [] [], []⟩ fun _ documents => documents.reverse_perm
  generalize draw (FeedStore.store none) (RetryScript.host FreeDate.atYear2000) RetryPolicy.standard twoReversed
    ⟨brokenFeed, .start false none [] [], []⟩ = drawn at hlength hlast ⊢
  obtain ⟨⟨reports, hprogress, hreports⟩, hsample⟩ := hlast
  obtain ⟨result, after⟩ := drawn
  cases result with
  | error e => simp [Except.toOption] at hlength
  | ok sample =>
    have htwo : sample.documents.length = 2 := by simpa [Except.toOption] using hlength
    obtain ⟨starts, last, final, earlier, hretried, -, -, -, -, hfromRows, -⟩ := hsample sample rfl
    refine ⟨sample, after, rfl, htwo, fun p hp => hreports p ?_, starts, last, hretried, hfromRows⟩
    rwa [hprogress, List.nil_append] at hp

end SchemaInference.Sampling
