import SchemaInference.Moment.FreeDate
import SchemaInference.Proofs.Sampling.LastAttempt

set_option autoImplicit false

namespace SchemaInference.Sampling

variable {σ φ η : Type}

def pagesOfAll (store : Store σ φ) (plan : SamplingPlan) (starts : List σ) : List FeedPage :=
  starts.flatMap fun s => pagesOn store plan s []

/-- The charge of these pages is counted from the first one on, and each is read below the limit. -/
structure Accounts (limits : SamplingLimits) (pages : List FeedPage) (charge : Double) : Prop where
  charge : charge = chargeAfter (.finite 0) pages
  below : ∀ k < pages.length, limits.reachedBy (chargeAfter (.finite 0) (pages.take k)) = false

/-- The charge of a sample is that of the pages of its attempt.  Every attempt keeps below the limit by its own
account, and the sample accounts for the whole run if the failed attempts were delivered nothing. -/
theorem draw_accounts (store : Store σ φ) (h : RetryHost η) (policy : RetryPolicy)
    (plan : SamplingPlan) (s : SamplingState σ η)
    (hshuffle : ∀ earlier documents, (plan.shuffle.order earlier documents).Perm documents) :
    ∀ sample, (draw store h policy plan s).1 = .ok sample → ∃ starts last,
      RetryPolicy.Retried (afresh store plan) s.store starts last ∧ (afresh store plan last).1 = .ok sample ∧
      Accounts plan.limits (pagesOn store plan last []) sample.charge ∧
      (∀ start ∈ starts, Accounts plan.limits (pagesOn store plan start [])
        (chargeAfter (.finite 0) (pagesOn store plan start []))) ∧
      (pagesOfAll store plan starts = [] →
        Accounts plan.limits (pagesOfAll store plan (starts ++ [last])) sample.charge) := by
  intro sample hsample
  obtain ⟨starts, last, hretried, hafresh⟩ := exists_afresh_of_draw store plan hshuffle hsample
  have hruns (start : σ) := attemptOn_runs store plan hshuffle start []
  have hlast : Accounts plan.limits (pagesOn store plan last []) sample.charge :=
    ⟨((hruns last).sample sample hafresh).1.charge, (hruns last).below⟩
  refine ⟨starts, last, hretried, hafresh, hlast, fun start _ => ⟨rfl, (hruns start).below⟩, ?_⟩
  intro hnothing
  have hall : pagesOfAll store plan (starts ++ [last]) = pagesOn store plan last [] := by
    simpa [pagesOfAll] using hnothing
  rwa [hall]

def lateFeed : FeedStore where
  feeds :=
    [[.error (.ofForeign ⟨"TimeoutError", [.system, .timeout], .ok "slow", []⟩)],
      [.ok ⟨[.mapping [(.text "a", .whole 1)]], .real (.ofRat .binary64 2)⟩,
        .ok ⟨[.mapping [(.text "b", .whole 1)]], .real (.ofRat .binary64 2)⟩]]
  queries := []

def firstTwo : SamplingPlan where
  strategy := .top
  limits := ⟨2, some (.whole 6)⟩
  partitionPath := none
  variants := 3
  shuffle := (id : List Value → List Value)

theorem draw_accounts_lateFeed :
    ∃ sample, (draw (FeedStore.store none) (RetryScript.host FreeDate.atYear2000) RetryPolicy.standard firstTwo
        ⟨lateFeed, .start false none [] [], []⟩).1 = .ok sample ∧
      sample.charge = chargeAfter (.finite 0) (pagesOfAll (FeedStore.store none) firstTwo
        [lateFeed, (afresh (FeedStore.store none) firstTwo lateFeed).2]) := by
  have hsucceeds : (draw (FeedStore.store none) (RetryScript.host FreeDate.atYear2000) RetryPolicy.standard firstTwo
      ⟨lateFeed, .start false none [] [], []⟩).1.isOk = true := by decide +kernel
  have haccounts := draw_accounts (FeedStore.store none) (RetryScript.host FreeDate.atYear2000) RetryPolicy.standard firstTwo
    ⟨lateFeed, .start false none [] [], []⟩ fun _ documents => .refl documents
  generalize (draw (FeedStore.store none) (RetryScript.host FreeDate.atYear2000) RetryPolicy.standard firstTwo
    ⟨lateFeed, .start false none [] [], []⟩).1 = drawn at hsucceeds haccounts ⊢
  cases drawn with
  | error e => cases hsucceeds
  | ok sample =>
    obtain ⟨starts, last, hretried, hlast, -, -, hall⟩ := haccounts sample rfl
    obtain ⟨rfl, rfl⟩ := hretried.eq_second (by decide +kernel) (by decide +kernel) hlast
    exact ⟨sample, rfl, (hall (by decide +kernel)).charge⟩

def cheaperFeed : FeedStore where
  feeds :=
    [[.ok ⟨[.mapping [(.text "a", .whole 1)]], .real (.ofRat .binary64 5)⟩,
        .error (.ofForeign ⟨"TimeoutError", [.system, .timeout], .ok "slow", []⟩)],
      [.ok ⟨[.mapping [(.text "b", .whole 1)]], .real (.ofRat .binary64 2)⟩,
        .ok ⟨[.mapping [(.text "c", .whole 1)]], .real (.ofRat .binary64 2)⟩]]
  queries := []

/-- The page of the attempt that breaks off is missing from the charge of the sample, and the last page is read
although seven units are spent by then, where six are allowed. -/
theorem draw_not_accounts_cheaperFeed :
    ∃ sample starts last, (draw (FeedStore.store none) (RetryScript.host FreeDate.atYear2000) RetryPolicy.standard firstTwo
        ⟨cheaperFeed, .start false none [] [], []⟩).1 = .ok sample ∧
      RetryPolicy.Retried (afresh (FeedStore.store none) firstTwo) cheaperFeed starts last ∧
      (afresh (FeedStore.store none) firstTwo last).1 = .ok sample ∧
      sample.charge ≠ chargeAfter (.finite 0) (pagesOfAll (FeedStore.store none) firstTwo (starts ++ [last])) ∧
      ∃ k < (pagesOfAll (FeedStore.store none) firstTwo (starts ++ [last])).length,
        firstTwo.limits.reachedBy (chargeAfter (.finite 0)
          ((pagesOfAll (FeedStore.store none) firstTwo (starts ++ [last])).take k)) = true := by
  have hsucceeds : (draw (FeedStore.store none) (RetryScript.host FreeDate.atYear2000) RetryPolicy.standard firstTwo
      ⟨cheaperFeed, .start false none [] [], []⟩).1.isOk = true := by decide +kernel
  have hfirst : (afresh (FeedStore.store none) firstTwo cheaperFeed).1.isOk = false := by decide +kernel
  have hsecond : (afresh (FeedStore.store none) firstTwo
      (afresh (FeedStore.store none) firstTwo cheaperFeed).2).1.isOk = true := by decide +kernel
  have hcharge : (afresh (FeedStore.store none) firstTwo
      (afresh (FeedStore.store none) firstTwo cheaperFeed).2).1.toOption.map (·.charge) =
        some (.ofRat .binary64 4) := by decide +kernel
  have hspent : Double.ofRat .binary64 4 ≠ chargeAfter (.finite 0) (pagesOfAll (FeedStore.store none) firstTwo
      [cheaperFeed, (afresh (FeedStore.store none) firstTwo cheaperFeed).2]) := by decide +kernel
  have hreached : ∃ k < (pagesOfAll (FeedStore.store none) firstTwo
        [cheaperFeed, (afresh (FeedStore.store none) firstTwo cheaperFeed).2]).length,
      firstTwo.limits.reachedBy (chargeAfter (.finite 0) ((pagesOfAll (FeedStore.store none) firstTwo
        [cheaperFeed, (afresh (FeedStore.store none) firstTwo cheaperFeed).2]).take k)) = true :=
    ⟨2, by decide +kernel, by decide +kernel⟩
  generalize hdrawn : (draw (FeedStore.store none) (RetryScript.host FreeDate.atYear2000) RetryPolicy.standard firstTwo
    ⟨cheaperFeed, .start false none [] [], []⟩).1 = drawn at hsucceeds
  cases drawn with
  | error e => cases hsucceeds
  | ok sample =>
    obtain ⟨starts, last, hretried, hlast⟩ :=
      exists_afresh_of_draw (FeedStore.store none) firstTwo (fun _ documents => .refl documents) hdrawn
    have hends := hretried.eq_second hfirst hsecond hlast
    rw [hends.1, hends.2] at hretried
    rw [hends.2] at hlast
    rw [hlast] at hcharge
    have hfour : sample.charge = .ofRat .binary64 4 := Option.some.inj hcharge
    refine ⟨sample, [cheaperFeed], _, rfl, hretried, hlast, ?_, hreached⟩
    rwa [hfour]

end SchemaInference.Sampling
