import SchemaInference.Moment.FreeDate
import SchemaInference.Proofs.Number.Comparison
import SchemaInference.Proofs.Sampling.Accounting
import SchemaInference.Proofs.Sampling.Reliability
import SchemaInference.Retry.Script
import Mathlib.Data.List.Infix
import Mathlib.Tactic.Linarith
import Mathlib.Tactic.NormNum

set_option autoImplicit false

namespace SchemaInference

variable {σ φ η α β : Type}

def SamplingLimits.unlimited (limits : SamplingLimits) : SamplingLimits :=
  { limits with maxCharge := none }

theorem SamplingLimits.target_unlimited (limits : SamplingLimits) : limits.unlimited.target = limits.target := rfl

def SamplingPlan.unlimited (plan : SamplingPlan) : SamplingPlan :=
  { plan with limits := plan.limits.unlimited }

namespace Sampling

/-- The one step ends over the limit, or it starts below and is the other. -/
def Cuts (m n : Sampling σ α) : Prop :=
  ∀ a, (m.run a).2.overBudget = true ∨ a.overBudget = false ∧ m.run a = n.run a

namespace Cuts

variable {m n : Sampling σ α}

theorem of_kept (h : ∀ a, (m.run a).2.overBudget = a.overBudget) (hsame : ∀ a, m.run a = n.run a) : Cuts m n := by
  intro a
  rw [h]
  cases a.overBudget with
  | true => exact .inl rfl
  | false => exact .inr ⟨rfl, hsame a⟩

theorem bind {f g : α → Sampling σ β} (h : Cuts m n) (hnext : ∀ x, Cuts (f x) (g x)) :
    Cuts (m >>= f) (n >>= g) := by
  intro a
  rw [Steps.run_bind, Steps.run_bind]
  obtain hover | ⟨hopen, hsame⟩ := h a
  · generalize m.run a = result at hover
    obtain ⟨result, b⟩ := result
    cases result with
    | error e => exact .inl hover
    | ok x =>
      obtain hover' | ⟨hopen', -⟩ := hnext x b
      · exact .inl hover'
      · rw [show b.overBudget = true from hover] at hopen'
        cases hopen'
  · rw [← hsame]
    generalize hresult : m.run a = result
    obtain ⟨result, b⟩ := result
    cases result with
    | error e => exact .inr ⟨hopen, rfl⟩
    | ok x => exact (hnext x b).imp id fun hnext => ⟨hopen, hnext.2⟩

end Cuts

variable (store : Store σ φ) (limits : SamplingLimits)

theorem cuts_isOverBudget : Cuts (σ := σ) (isOverBudget limits) (isOverBudget limits.unlimited) := by
  intro a
  rw [isOverBudget_run, isOverBudget_run]
  cases hover : a.overBudget || limits.reachedBy a.charge with
  | true => exact .inl rfl
  | false =>
    obtain ⟨hopen, -⟩ := Bool.or_eq_false_iff.mp hover
    exact .inr ⟨hopen, by simp [hopen, SamplingLimits.unlimited, SamplingLimits.reachedBy]⟩

theorem overBudget_fetchPage (feed : φ) (a : SamplingAttempt σ) :
    ((fetchPage store feed).run a).2.overBudget = a.overBudget := by
  rw [fetchPage_run]
  obtain ⟨page, feed, s⟩ := store.fetch feed a.store
  cases page with
  | error e => rfl
  | ok page =>
    dsimp only
    cases page.spent <;> rfl

theorem overBudget_askStore (a : SamplingAttempt σ) :
    ((resolvePartitionPath.askStore store).run a).2.overBudget = a.overBudget := by
  unfold resolvePartitionPath.askStore
  cases store.partitionPath <;> rfl

theorem cuts_respected :
    Respected store store limits limits.unlimited (fun _ => True) fun _ => Cuts where
  target := rfl
  hasMore := rfl
  pure _ := .of_kept (fun _ => rfl) fun _ => rfl
  bind := .bind
  note _ := .of_kept (fun _ => rfl) fun _ => rfl
  report _ := .of_kept (fun _ => rfl) fun _ => rfl
  isOverBudget := cuts_isOverBudget limits
  shuffled _ _ := .of_kept (fun _ => rfl) fun _ => rfl
  askStore := .of_kept (overBudget_askStore store) fun _ => rfl
  openFeed _ _ _ hnext := .bind (.of_kept (fun _ => rfl) fun _ => rfl) fun feed => hnext feed trivial
  bound _ _ _ hnext a := hnext a a rfl a
  fetchPage _ _ hnext := .bind (.of_kept (overBudget_fetchPage store _) fun _ => rfl) fun page =>
    hnext page.1 page.2 trivial

theorem attemptOn_unlimited (plan : SamplingPlan) (s : σ) (shuffled : List (List Value))
    (hbelow : (attemptOn store plan s shuffled).2.overBudget = false) :
    attemptOn store plan s shuffled = attemptOn store plan.unlimited s shuffled := by
  have hcuts : Cuts (sampleBy store plan) (sampleBy store plan.unlimited) :=
    (cuts_respected store plan.limits).sampleBy rfl
  unfold attemptOn at hbelow ⊢
  rw [byPlan_run] at hbelow ⊢
  rw [byPlan_run]
  obtain hover | ⟨-, hsame⟩ := hcuts (.initial s shuffled)
  · generalize (sampleBy store plan).run (.initial s shuffled) = taken at hover hbelow
    obtain ⟨result, a⟩ := taken
    replace hover : a.overBudget = true := hover
    cases result <;> simp [hover] at hbelow
  · rw [hsame]

def Curtails (P : α → α → Prop) (m n : Sampling σ α) : Prop :=
  ∀ a, a.overBudget = false → ∀ x y, (m.run a).1 = .ok x → (n.run a).1 = .ok y → P x y

namespace Curtails

variable {limits} {P : α → α → Prop} {Q : β → β → Prop} {m n : Sampling σ α}

theorem pure {x y : α} (h : P x y) : Curtails (σ := σ) P (pure x) (pure y) := by
  rintro a - _ _ ⟨⟩ ⟨⟩
  exact h

theorem bind {m : Sampling σ β} {f g : β → Sampling σ α} (hkept : ∀ a, (m.run a).2.overBudget = a.overBudget)
    (hnext : ∀ x, Curtails P (f x) (g x)) : Curtails P (m >>= f) (m >>= g) := by
  intro a hopen x y hx hy
  have hb := hkept a
  rw [Steps.run_bind] at hx hy
  generalize m.run a = result at hx hy hb
  obtain ⟨result, b⟩ := result
  cases result with
  | error e => cases hx
  | ok z => exact hnext z b (hb.trans hopen) x y hx hy

theorem get_bind {f g : SamplingAttempt σ → Sampling σ α} (h : ∀ a, Curtails P (f a) (g a)) :
    Curtails P (get >>= f) (get >>= g) :=
  fun a => h a a

/-- The one may stop at the limit with what it has; the other goes on. -/
theorem check {x : α} (hstop : ∀ a y, ((isOverBudget limits.unlimited >>= fun isOver =>
      if isOver then Pure.pure x else n).run a).1 = .ok y → P x y) (hgo : Curtails P m n) :
    Curtails P (isOverBudget limits >>= fun isOver => if isOver then Pure.pure x else m)
      (isOverBudget limits.unlimited >>= fun isOver => if isOver then Pure.pure x else n) := by
  intro a hopen y z hy hz
  replace hstop := hstop a z hz
  have hgoes : (a.overBudget || limits.unlimited.reachedBy a.charge) = false := by
    simp [hopen, SamplingLimits.unlimited, SamplingLimits.reachedBy]
  rw [Steps.run_bind, isOverBudget_run] at hy hz
  dsimp only at hy hz
  simp only [hgoes, Bool.false_eq_true, ↓reduceIte] at hz
  cases hover : a.overBudget || limits.reachedBy a.charge with
  | true =>
    simp only [hover, ↓reduceIte] at hy
    obtain rfl : x = y := Except.ok.inj hy
    exact hstop
  | false =>
    simp only [hover, Bool.false_eq_true, ↓reduceIte] at hy
    exact hgo { a with overBudget := false } rfl y z hy hz

theorem andThen {f g : α → Sampling σ β} {value : α → β} (h : Curtails P m n)
    (hf : ∀ x a, ((f x).run a).1 = .ok (value x)) (hg : ∀ x a, ((g x).run a).1 = .ok (value x))
    (hvalue : ∀ x y, P x y → Q (value x) (value y)) : Curtails Q (m >>= f) (n >>= g) := by
  intro a hopen x y hx hy
  have hrelated := h a hopen
  rw [Steps.run_bind] at hx hy
  generalize m.run a = result at hx hrelated
  generalize n.run a = result' at hy hrelated
  obtain ⟨result, b⟩ := result
  obtain ⟨result', b'⟩ := result'
  cases result with
  | error e => cases hx
  | ok z =>
    cases result' with
    | error e => cases hy
    | ok z' =>
      obtain rfl : value z = x := Except.ok.inj ((hf z b).symm.trans hx)
      obtain rfl : value z' = y := Except.ok.inj ((hg z' b').symm.trans hy)
      exact hvalue z z' (hrelated z z' rfl rfl)

end Curtails

theorem documentsOf_run_fst (rows : List Value) (a : SamplingAttempt σ) :
    ((documentsOf rows).run a).1 = .ok (rows.filter Value.isMapping) := by
  unfold documentsOf
  dsimp only
  split <;> rfl

theorem exists_yields {limits : SamplingLimits} {most : Nat} {asks : Bool} {m : Sampling (σ × List FeedPage) α}
    {n : Sampling σ α} {Yields : List FeedPage → Nat → α → Prop} (hreads : ReadsTo limits most asks m Yields)
    (hrecords : Records m n) {a : SamplingAttempt σ} {x : α} (hx : (n.run a).1 = .ok x) :
    ∃ pages added, Yields pages added x := by
  obtain ⟨-, pages, added, -, -, hyields⟩ := hreads { a with store := (a.store, []) }
  have hrun := hrecords { a with store := (a.store, []) }
  exact ⟨pages, added, hyields x ((congrArg Prod.fst hrun).symm.trans hx)⟩

theorem prefix_readPages (limit : Option Nat) (fuel : Nat) (feed : φ) (rows : List Value) (a : SamplingAttempt σ)
    (out : List Value) (hout : ((readPages store limits limit fuel feed rows).run a).1 = .ok out) : rows <+: out := by
  obtain ⟨pages, _, rfl⟩ := exists_yields (readPages_readsTo store limits limit fuel feed rows)
    ((records_respected store limits).readPages limit fuel trivial rows) hout
  exact List.prefix_append rows _

theorem readPages_curtails (limit : Option Nat) (fuel : Nat) (feed : φ) (rows : List Value) :
    Curtails (· <+: ·) (readPages store limits limit fuel feed rows)
      (readPages store limits.unlimited limit fuel feed rows) := by
  induction fuel generalizing feed rows with
  | zero => exact .pure List.prefix_rfl
  | succ fuel ih =>
    have hextends := prefix_readPages store limits.unlimited limit (fuel + 1) feed rows
    unfold readPages at hextends ⊢
    by_cases hmore : (!store.hasMore feed) = true
    · rw [if_pos hmore, if_pos hmore]
      exact .pure List.prefix_rfl
    · rw [if_neg hmore] at hextends ⊢
      rw [if_neg hmore]
      refine .check hextends (.bind (overBudget_fetchPage store feed) fun page => ?_)
      dsimp only
      split
      · exact .pure List.prefix_rfl
      · exact ih _ _

theorem drain_curtails (q : SampleQuery) (limit : Option Nat) :
    Curtails (· <+: ·) (drain store limits q limit) (drain store limits.unlimited q limit) := by
  unfold drain
  refine .bind (fun _ => rfl) fun feed => .get_bind fun a => ?_
  refine .andThen (readPages_curtails store limits limit _ feed []) (fun _ _ => rfl) (fun _ _ => rfl)
    fun rows out hrows => ?_
  cases limit with
  | none => exact hrows
  | some n => exact List.IsPrefix.take hrows n

theorem sampleTop_curtails :
    Curtails (fun sample full => sample.documents <+: full.documents) (sampleTop store limits)
      (sampleTop store limits.unlimited) := by
  have hyields (limits : SamplingLimits) (rows : List Value) (a : SamplingAttempt σ) :
      ((documentsOf rows >>= fun documents => report limits documents.length >>= fun _ =>
        Pure.pure (Sample.complete documents)).run a).1 = .ok (.complete (rows.filter Value.isMapping)) := by
    have hdocuments := documentsOf_run_fst rows a
    rw [Steps.run_bind]
    generalize (documentsOf rows).run a = result at hdocuments
    obtain ⟨result, b⟩ := result
    obtain rfl : result = _ := hdocuments
    rfl
  unfold sampleTop
  exact .andThen (drain_curtails store limits _ _) (hyields limits) (hyields limits.unlimited) fun _ _ hrows =>
    List.IsPrefix.filter _ hrows

theorem prefix_readShapes (variants : Int) (fuel : Nat) (feed : φ) (found : ShapeSample) (a : SamplingAttempt σ)
    (out : ShapeSample) (hout : ((readShapes store limits variants fuel feed found).run a).1 = .ok out) :
    found.documents <+: out.documents := by
  obtain ⟨pages, _, rfl, -⟩ := exists_yields (readShapes_readsTo store limits variants fuel feed found)
    ((records_respected store limits).readShapes variants fuel trivial found) hout
  obtain ⟨more, hmore, -⟩ := exists_foldl_chooseByShape limits.target variants _ found
  exact ⟨more, hmore.symm⟩

theorem overBudget_documentsOf (rows : List Value) (a : SamplingAttempt σ) :
    ((documentsOf rows).run a).2.overBudget = a.overBudget := by
  unfold documentsOf
  dsimp only
  split <;> rfl

theorem readShapes_curtails (variants : Int) (fuel : Nat) (feed : φ) (found : ShapeSample) :
    Curtails (fun found out => found.documents <+: out.documents)
      (readShapes store limits variants fuel feed found)
      (readShapes store limits.unlimited variants fuel feed found) := by
  induction fuel generalizing feed found with
  | zero => exact .pure List.prefix_rfl
  | succ fuel ih =>
    have hextends := prefix_readShapes store limits.unlimited variants (fuel + 1) feed found
    unfold readShapes at hextends ⊢
    rw [limits.target_unlimited] at hextends ⊢
    by_cases hdone : (!store.hasMore feed || decide (limits.target ≤ found.documents.length)) = true
    · rw [if_pos hdone, if_pos hdone]
      exact .pure List.prefix_rfl
    · rw [if_neg hdone] at hextends ⊢
      rw [if_neg hdone]
      refine .check hextends (.bind (overBudget_fetchPage store feed) fun page => ?_)
      refine .bind (overBudget_documentsOf page.1) fun documents => .bind (fun _ => rfl) fun _ => ?_
      exact ih _ _

theorem sampleSchema_curtails (variants : Int) :
    Curtails (fun sample full => sample.documents <+: full.documents) (sampleSchema store limits variants)
      (sampleSchema store limits.unlimited variants) := by
  unfold sampleSchema
  refine .bind (fun _ => rfl) fun feed => .get_bind fun a => ?_
  exact .andThen (readShapes_curtails store limits variants _ feed _) (fun _ _ => rfl) (fun _ _ => rfl)
    fun _ _ hfound => hfound

/-- The documents of an attempt are the first ones of an attempt without a limit. -/
theorem attemptOn_prefix {plan : SamplingPlan} (hstrategy : plan.strategy = .top ∨ plan.strategy = .schema) {s : σ}
    {shuffled : List (List Value)} {sample full : Sample} {a b : SamplingAttempt σ}
    (hsample : attemptOn store plan s shuffled = (.ok sample, a))
    (hfull : attemptOn store plan.unlimited s shuffled = (.ok full, b)) : sample.documents <+: full.documents := by
  have hcurtails : Curtails (fun sample full => sample.documents <+: full.documents) (sampleBy store plan)
      (sampleBy store plan.unlimited) := by
    unfold sampleBy
    obtain htop | hschema := hstrategy
    · simp only [SamplingPlan.unlimited, htop]
      exact sampleTop_curtails store plan.limits
    · simp only [SamplingPlan.unlimited, hschema]
      exact sampleSchema_curtails store plan.limits plan.variants
  obtain ⟨taken, htaken, rfl⟩ := attemptOn_eq_ok store plan hsample
  obtain ⟨all, hall, rfl⟩ := attemptOn_eq_ok store plan.unlimited hfull
  exact hcurtails (.initial s shuffled) rfl taken all (congrArg Prod.fst htaken) (congrArg Prod.fst hall)

theorem reachedBy_eq_false_iff {limits : SamplingLimits} {most : Number} {charge : Double} {m q : Rat}
    (hmost : limits.maxCharge = some most) (hm : most.widened.toRat? = some m) (hq : charge.toRat? = some q) :
    limits.reachedBy charge = false ↔ q < m := by
  have hreached : limits.reachedBy charge = most.widened.le charge := by
    rw [SamplingLimits.reachedBy, hmost]
    rfl
  rw [hreached, ← not_iff_not, Bool.not_eq_false, Double.le_iff_of_toRat? hm hq, not_lt]

/-- What a limit makes of a sample, the pages read within it being these. -/
structure Capped (limits : SamplingLimits) (pages : List FeedPage) (sample : Sample) : Prop where
  accounts : Accounts limits pages sample.charge
  /-- What is spent at last is a sum that exceeds the limit by less than the last page costs, rounded. -/
  overshoot : ∀ before page, pages = before ++ [page] →
    sample.charge = (chargeAfter (.finite 0) before).add .binary64 page.cost ∧
    ∀ most m q c, limits.maxCharge = some most → most.widened.toRat? = some m →
      (chargeAfter (.finite 0) before).toRat? = some q → page.cost.toRat? = some c → q + c - m < c
  exceeded : sample.status = .budgetExceeded → limits.reachedBy sample.charge = true

theorem Accounts.overshoot {limits : SamplingLimits} {before : List FeedPage} {page : FeedPage} {charge : Double}
    (h : Accounts limits (before ++ [page]) charge) :
    charge = (chargeAfter (.finite 0) before).add .binary64 page.cost ∧
    ∀ most m q c, limits.maxCharge = some most → most.widened.toRat? = some m →
      (chargeAfter (.finite 0) before).toRat? = some q → page.cost.toRat? = some c → q + c - m < c := by
  have hbelow := h.below before.length (by simp)
  rw [List.take_left] at hbelow
  refine ⟨by rw [h.charge, chargeAfter_append]; rfl, fun most m q c hmost hm hq _ => ?_⟩
  have hlt := (reachedBy_eq_false_iff hmost hm hq).mp hbelow
  linarith

/-- On a reliable store a limit only cuts a sample short. -/
theorem draw_capped {store : Store σ φ} {good : σ → Prop} {sound : φ → Prop} (hreliable : store.Reliable good sound)
    (h : RetryHost η) (policy : RetryPolicy) (plan : SamplingPlan) (s : SamplingState σ η)
    (hgood : good s.store) (hhost : h.isCancelled (noteSize h plan s.host) = false)
    (hshuffle : ∀ earlier documents, (plan.shuffle.order earlier documents).Perm documents) :
    ∃ sample full, (draw store h policy plan s).1 = .ok sample ∧
      (draw store h policy plan.unlimited s).1 = .ok full ∧
      Capped plan.limits (pagesOn store plan s.store []) sample ∧
      (sample.status ≠ .budgetExceeded → sample = full) ∧
      (plan.strategy = .top ∨ plan.strategy = .schema → sample.documents <+: full.documents) := by
  obtain ⟨sample, a, hsample⟩ := exists_attemptOn hreliable plan hgood []
  obtain ⟨full, b, hfull⟩ := exists_attemptOn hreliable plan.unlimited hgood []
  have hruns := attemptOn_runs store plan hshuffle s.store []
  rw [hsample] at hruns
  obtain ⟨hmade, -⟩ := hruns.sample sample rfl
  have haccounts : Accounts plan.limits (pagesOn store plan s.store []) sample.charge := ⟨hmade.charge, hruns.below⟩
  refine ⟨sample, full, draw_of_attemptOn hhost hsample, draw_of_attemptOn hhost hfull,
    ⟨haccounts, ?_, hmade.exceeded⟩, ?_, fun hstrategy => attemptOn_prefix store hstrategy hsample hfull⟩
  · intro before page hpages
    rw [hpages] at haccounts
    exact haccounts.overshoot
  · intro hstatus
    have hopen : a.overBudget = false := by
      obtain ⟨taken, -, rfl⟩ := attemptOn_eq_ok store plan hsample
      by_contra hover
      exact hstatus (by simp [finish, hover])
    have hsame := attemptOn_unlimited store plan s.store [] (by rw [hsample]; exact hopen)
    rw [hsample, hfull] at hsame
    exact Except.ok.inj (congrArg Prod.fst hsame)

def threePages (first second third : Rat) : FeedStore where
  feeds :=
    [[.ok ⟨[.mapping [(.text "a", .whole 1)]], .real (.ofRat .binary64 first)⟩,
      .ok ⟨[.mapping [(.text "b", .whole 1)]], .real (.ofRat .binary64 second)⟩,
      .ok ⟨[.mapping [(.text "c", .whole 1)]], .real (.ofRat .binary64 third)⟩]]
  queries := []

theorem delivers_threePages (first second third : Rat) :
    ∀ feed ∈ (threePages first second third).feeds, PageFeed.Delivers feed := by
  have hpage (rows : List Value) (x : Double) :
      ∃ page spent, (.ok ⟨rows, .real x⟩ : Except Raised FeedPage) = .ok page ∧ page.spent = .ok spent := by
    obtain ⟨spent, hspent⟩ := FeedPage.exists_spent_real rows x
    exact ⟨_, spent, rfl, hspent⟩
  simp only [threePages, PageFeed.Delivers, List.forall_mem_cons, List.not_mem_nil, false_implies, implies_true,
    and_true]
  exact ⟨hpage _ _, hpage _ _, hpage _ _⟩

def firstFive : SamplingPlan where
  strategy := .top
  limits := ⟨5, some (.real (.ofRat .binary64 (7 / 2)))⟩
  partitionPath := none
  variants := 3
  shuffle := (id : List Value → List Value)

theorem draw_capped_threePages :
    ∃ sample full, (draw (FeedStore.store none) (RetryScript.host FreeDate.atYear2000) RetryPolicy.standard firstFive
        ⟨threePages 3 1 1, .start false none [] [], []⟩).1 = .ok sample ∧
      (draw (FeedStore.store none) (RetryScript.host FreeDate.atYear2000) RetryPolicy.standard firstFive.unlimited
        ⟨threePages 3 1 1, .start false none [] [], []⟩).1 = .ok full ∧
      sample.documents <+: full.documents ∧ sample.documents.length = 2 ∧ full.documents.length = 3 := by
  obtain ⟨sample, full, hsample, hfull, -, -, hprefix⟩ := draw_capped (FeedStore.reliable none) (RetryScript.host FreeDate.atYear2000)
    RetryPolicy.standard firstFive ⟨threePages 3 1 1, .start false none [] [], []⟩ (delivers_threePages 3 1 1) rfl
    fun _ documents => .refl documents
  have hsizes : ((draw (FeedStore.store none) (RetryScript.host FreeDate.atYear2000) RetryPolicy.standard firstFive
        ⟨threePages 3 1 1, .start false none [] [], []⟩).1.toOption.map (·.documents.length),
      (draw (FeedStore.store none) (RetryScript.host FreeDate.atYear2000) RetryPolicy.standard firstFive.unlimited
        ⟨threePages 3 1 1, .start false none [] [], []⟩).1.toOption.map (·.documents.length)) = (some 2, some 3) := by
    decide +kernel
  rw [hsample, hfull] at hsizes
  obtain ⟨htwo, hthree⟩ := Prod.mk.inj hsizes
  exact ⟨sample, full, hsample, hfull, hprefix (.inl rfl), Option.some.inj htwo, Option.some.inj hthree⟩

/-- Rounding takes the units spent further beyond the limit than the last page costs. -/
theorem draw_overshoot_threePages :
    ∃ sample most charge cost, (draw (FeedStore.store none) (RetryScript.host FreeDate.atYear2000) RetryPolicy.standard firstFive
        ⟨threePages 3 (2 ^ 53) 1, .start false none [] [], []⟩).1 = .ok sample ∧
      firstFive.limits.maxCharge.bind (·.widened.toRat?) = some most ∧ sample.charge.toRat? = some charge ∧
      (pagesOn (FeedStore.store none) firstFive (threePages 3 (2 ^ 53) 1) []).getLast?.bind (·.cost.toRat?) = some cost ∧
      ¬ charge - most < cost := by
  have hcharge : (draw (FeedStore.store none) (RetryScript.host FreeDate.atYear2000) RetryPolicy.standard firstFive
      ⟨threePages 3 (2 ^ 53) 1, .start false none [] [], []⟩).1.toOption.map (·.charge.toRat?) =
        some (some (2 ^ 53 + 4)) := by
    decide +kernel
  generalize hdrawn : (draw (FeedStore.store none) (RetryScript.host FreeDate.atYear2000) RetryPolicy.standard firstFive
    ⟨threePages 3 (2 ^ 53) 1, .start false none [] [], []⟩).1 = drawn at hcharge
  cases drawn with
  | error e => cases hcharge
  | ok sample =>
    exact ⟨sample, 7 / 2, 2 ^ 53 + 4, 2 ^ 53, rfl, by decide +kernel, Option.some.inj hcharge, by decide +kernel,
      by norm_num⟩

end Sampling

end SchemaInference
