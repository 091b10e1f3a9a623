import SchemaInference.Proofs.Sampling.Attempts
import SchemaInference.Sampling.Memory

set_option autoImplicit false

namespace SchemaInference

variable {σ τ φ η α β : Type}

/-- In good states nothing fails, and the store stays in such states; the feeds it opens are sound. -/
structure Store.Reliable (store : Store σ φ) (good : σ → Prop) (sound : φ → Prop) : Prop where
  start : ∀ q s, good s → sound (store.start q s).1 ∧ good (store.start q s).2
  fetch : ∀ feed s, sound feed → store.hasMore feed = true → good s →
    (∃ page spent, (store.fetch feed s).1 = .ok page ∧ page.spent = .ok spent) ∧
      sound (store.fetch feed s).2.1 ∧ good (store.fetch feed s).2.2
  partitionPath : ∀ ask, store.partitionPath = some ask → ∀ s, good s →
    (∃ path, (ask s).1 = .ok path) ∧ good (ask s).2

/-- All pages of the feed are there, with charges that are numbers. -/
def PageFeed.Delivers (feed : PageFeed) : Prop :=
  ∀ fetched ∈ feed, ∃ page spent, fetched = .ok page ∧ page.spent = .ok spent

theorem FeedPage.exists_spent_real (rows : List Value) (x : Double) :
    ∃ spent, FeedPage.spent ⟨rows, .real x⟩ = .ok spent := by
  unfold FeedPage.spent
  split
  · exact ⟨_, rfl⟩
  · exact ⟨x, rfl⟩

theorem FeedStore.reliable (path : Option String) :
    (FeedStore.store path).Reliable (fun s => ∀ feed ∈ s.feeds, feed.Delivers) PageFeed.Delivers where
  start q s hs := by
    refine ⟨?_, fun feed hfeed => hs feed (List.mem_of_mem_tail hfeed)⟩
    change PageFeed.Delivers (s.feeds.headD [])
    cases hfeeds : s.feeds with
    | nil => exact List.forall_mem_nil _
    | cons feed feeds => exact hs feed (by simp [hfeeds])
  fetch feed s hfeed hmore hs := by
    cases feed with
    | nil => cases hmore
    | cons fetched feed =>
      obtain ⟨page, spent, rfl, hspent⟩ := hfeed fetched List.mem_cons_self
      exact ⟨⟨page, spent, rfl, hspent⟩, fun other hother => hfeed other (List.mem_cons_of_mem _ hother), hs⟩
  partitionPath := by
    rintro _ ⟨⟩ s hs
    exact ⟨⟨path, rfl⟩, hs⟩

namespace Sampling

def Succeeds (good : σ → Prop) (m : Sampling σ α) : Prop :=
  ∀ a, good a.store → ∃ x b, m.run a = (.ok x, b) ∧ good b.store

theorem Succeeds.bind {good : σ → Prop} {m : Sampling σ α} {f : α → Sampling σ β} (h : Succeeds good m)
    (hnext : ∀ x, Succeeds good (f x)) : Succeeds good (m >>= f) :=
  Steps.Succeeds.bind h hnext

variable {store : Store σ φ} {good : σ → Prop} {sound : φ → Prop} (hreliable : store.Reliable good sound)
include hreliable

theorem succeeds_openFeed (q : SampleQuery) {f : φ → Sampling σ α}
    (hnext : ∀ feed, sound feed → Succeeds good (f feed)) : Succeeds good (openFeed store q >>= f) := by
  intro a ha
  obtain ⟨hsound, hgood⟩ := hreliable.start q a.store ha
  exact hnext _ hsound { a with store := (store.start q a.store).2 } hgood

theorem succeeds_fetchPage {feed : φ} {f : List Value × φ → Sampling σ α} (hfeed : sound feed)
    (hmore : store.hasMore feed = true) (hnext : ∀ rows next, sound next → Succeeds good (f (rows, next))) :
    Succeeds good (fetchPage store feed >>= f) := by
  intro a ha
  obtain ⟨⟨page, spent, hpage, hspent⟩, hsound, hgood⟩ := hreliable.fetch feed a.store hfeed hmore ha
  rw [Steps.run_bind, fetchPage_run]
  generalize store.fetch feed a.store = result at hpage hsound hgood
  obtain ⟨fetched, next, s⟩ := result
  obtain rfl : fetched = .ok page := hpage
  simp only [hspent]
  exact hnext page.rows next hsound { a with store := s, charge := a.charge.add .binary64 spent } hgood

theorem succeeds_askStore : Succeeds good (resolvePartitionPath.askStore store) := by
  intro a ha
  unfold resolvePartitionPath.askStore
  cases hask : store.partitionPath with
  | none => exact ⟨none, a, rfl, ha⟩
  | some ask =>
    obtain ⟨⟨path, hpath⟩, hgood⟩ := hreliable.partitionPath ask hask a.store ha
    exact ⟨path, { a with store := (ask a.store).2 }, Prod.ext hpath rfl, hgood⟩

theorem succeeds_respected (limits : SamplingLimits) :
    Respected store store limits limits sound fun _ m _ => Succeeds good m where
  target := rfl
  hasMore := rfl
  pure x a ha := ⟨x, a, rfl, ha⟩
  bind := .bind
  note _ _ ha := ⟨_, _, rfl, ha⟩
  report _ _ ha := ⟨_, _, rfl, ha⟩
  isOverBudget _ ha := ⟨_, _, rfl, ha⟩
  shuffled _ _ _ ha := ⟨_, _, rfl, ha⟩
  askStore := succeeds_askStore hreliable
  openFeed q _ _ hnext := succeeds_openFeed hreliable q hnext
  bound _ _ _ hnext a ha := hnext a a rfl a ha
  fetchPage hfeed hmore hnext := succeeds_fetchPage hreliable hfeed hmore hnext

theorem exists_attemptOn (plan : SamplingPlan) {s : σ} (hs : good s) (shuffled : List (List Value)) :
    ∃ sample a, attemptOn store plan s shuffled = (.ok sample, a) := by
  obtain ⟨sample, a, hrun, -⟩ := (succeeds_respected hreliable plan.limits).sampleBy rfl (.initial s shuffled) hs
  refine ⟨finish sample a, a, ?_⟩
  rw [attemptOn, byPlan_run]
  replace hrun : (sampleBy store plan).run (.initial s shuffled) = _ := hrun
  rw [hrun]

omit hreliable

theorem exists_draw_of_attemptOn {plan : SamplingPlan} {h : RetryHost η} (policy : RetryPolicy)
    {s : SamplingState σ η} {sample : Sample} {a : SamplingAttempt σ}
    (hhost : h.isCancelled (noteSize h plan s.host) = false)
    (hattempt : attemptOn store plan s.store [] = (.ok sample, a)) :
    ∃ after, draw store h policy plan s = (.ok sample, after) ∧ after.store = a.store := by
  have hcall : attempt store h plan { s with host := noteSize h plan s.host, shuffled := [] } = (.ok sample, _) :=
    Prod.ext (show (attemptOn store plan s.store []).1 = _ by rw [hattempt]) rfl
  have hopen : (hostWithin h).isCancelled
      ({ s with host := noteSize h plan s.host, shuffled := [] } : SamplingCourse σ η) = false := hhost
  rw [draw_eq, policy.run_eq_of_call _ hopen hcall]
  exact ⟨_, rfl, show (attemptOn store plan s.store []).2.store = _ by rw [hattempt]⟩

theorem draw_of_attemptOn {plan : SamplingPlan} {h : RetryHost η} {policy : RetryPolicy}
    {s : SamplingState σ η} {sample : Sample} {a : SamplingAttempt σ}
    (hhost : h.isCancelled (noteSize h plan s.host) = false)
    (hattempt : attemptOn store plan s.store [] = (.ok sample, a)) :
    (draw store h policy plan s).1 = .ok sample := by
  obtain ⟨after, hdrawn, -⟩ := exists_draw_of_attemptOn policy hhost hattempt
  rw [hdrawn]

end Sampling

end SchemaInference
