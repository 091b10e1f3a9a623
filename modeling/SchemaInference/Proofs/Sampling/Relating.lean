import SchemaInference.Proofs.Failure.Steps
import SchemaInference.Sampling.Run

/-!
# Sampling on two stores

Sampling is composed of a few steps that touch the store.  Whatever relates two runs of these, on two
stores or within two limits, and is kept when steps follow one another, relates two samples by one plan.
-/

set_option autoImplicit false

namespace SchemaInference.Sampling

section Runs

variable {σ α : Type}

theorem run_get_bind (f : SamplingAttempt σ → Sampling σ α) (a : SamplingAttempt σ) :
    (get >>= f).run a = (f a).run a := rfl

variable {φ : Type}

theorem fetchPage_run (store : Store σ φ) (feed : φ) (a : SamplingAttempt σ) :
    (fetchPage store feed).run a =
      match store.fetch feed a.store with
      | (.error e, _, s) => (.error e, { a with store := s })
      | (.ok page, feed, s) =>
        match page.spent with
        | .error e => (.error e, { a with store := s })
        | .ok spent =>
          (.ok (page.rows, feed), { a with store := s, charge := a.charge.add .binary64 spent }) := by
  have hlift : ∀ {γ : Type} (e : Except Raised γ) (b : SamplingAttempt σ),
      (fetchPage.liftExcept e).run b = (e, b) := by
    intro γ e b
    cases e <;> rfl
  unfold fetchPage
  rw [run_get_bind]
  obtain ⟨page, feed, s⟩ := store.fetch feed a.store
  change (fetchPage.liftExcept page >>= _).run { a with store := s } = _
  rw [Steps.run_bind, hlift]
  cases page with
  | error e => rfl
  | ok page =>
    dsimp only
    rw [Steps.run_bind, hlift]
    cases page.spent <;> rfl

def sampleBy (store : Store σ φ) (plan : SamplingPlan) : Sampling σ Sample :=
  match plan.strategy with
  | .top => sampleTop store plan.limits
  | .random => sampleRandom store plan.limits plan.shuffle
  | .schema => sampleSchema store plan.limits plan.variants
  | .partition => samplePartition store plan.limits plan.partitionPath

def finish (sample : Sample) (a : SamplingAttempt σ) : Sample :=
  { sample with
    charge := a.charge
    status := if a.overBudget then .budgetExceeded else sample.status }

theorem byPlan_run (store : Store σ φ) (plan : SamplingPlan) (a : SamplingAttempt σ) :
    (byPlan store plan).run a =
      match (sampleBy store plan).run a with
      | (.ok sample, b) => (.ok (finish sample b), b)
      | (.error e, b) => (.error e, b) := by
  have hfinish (m : Sampling σ Sample) :
      (m >>= fun sample => get >>= fun b => pure (finish sample b)).run a =
        match m.run a with
        | (.ok sample, b) => (.ok (finish sample b), b)
        | (.error e, b) => (.error e, b) := by
    rw [Steps.run_bind]
    obtain ⟨result, b⟩ := m.run a
    cases result <;> rfl
  unfold byPlan sampleBy
  cases plan.strategy <;> exact hfinish _

end Runs

variable {σ τ φ : Type}

/-- A relation between steps on two stores that is kept by whatever sampling is composed of.  A feed that
has been opened is sound, and so is what a sound feed becomes. -/
structure Respected (store : Store σ φ) (other : Store τ φ) (limits bounds : SamplingLimits) (sound : φ → Prop)
    (R : (α : Type) → Sampling σ α → Sampling τ α → Prop) : Prop where
  target : bounds.target = limits.target
  hasMore : other.hasMore = store.hasMore
  pure : ∀ {α : Type} (x : α), R α (pure x) (pure x)
  bind : ∀ {α β : Type} {m : Sampling σ α} {n : Sampling τ α} {f : α → Sampling σ β} {g : α → Sampling τ β},
    R α m n → (∀ x, R β (f x) (g x)) → R β (m >>= f) (n >>= g)
  note : ∀ text, R Unit (note text) (note text)
  report : ∀ added, R Unit (report limits added) (report bounds added)
  isOverBudget : R Bool (isOverBudget limits) (isOverBudget bounds)
  shuffled : ∀ (shuffle : Shuffle) documents, R (List Value) (shuffled shuffle documents) (shuffled shuffle documents)
  askStore : R (Option String) (resolvePartitionPath.askStore store) (resolvePartitionPath.askStore other)
  openFeed : ∀ {α : Type} (q : SampleQuery) {f : φ → Sampling σ α} {g : φ → Sampling τ α},
    (∀ feed, sound feed → R α (f feed) (g feed)) → R α (openFeed store q >>= f) (openFeed other q >>= g)
  bound : ∀ {α : Type} (feed : φ) {f : SamplingAttempt σ → Sampling σ α} {g : SamplingAttempt τ → Sampling τ α},
    (∀ a b, other.bound feed b.store = store.bound feed a.store → R α (f a) (g b)) →
    R α (get >>= f) (get >>= g)
  fetchPage : ∀ {α : Type} {feed : φ} {f : List Value × φ → Sampling σ α} {g : List Value × φ → Sampling τ α},
    sound feed → store.hasMore feed = true → (∀ rows next, sound next → R α (f (rows, next)) (g (rows, next))) →
    R α (fetchPage store feed >>= f) (fetchPage other feed >>= g)

namespace Respected

variable {store : Store σ φ} {other : Store τ φ} {limits bounds : SamplingLimits} {sound : φ → Prop}
  {R : (α : Type) → Sampling σ α → Sampling τ α → Prop} (h : Respected store other limits bounds sound R)
include h

theorem documentsOf (rows : List Value) : R (List Value) (documentsOf rows) (documentsOf rows) := by
  unfold Sampling.documentsOf
  dsimp only
  split
  · exact h.bind (h.note _) fun _ => h.pure _
  · exact h.pure _

theorem readPages (limit : Option Nat) (fuel : Nat) {feed : φ} (hfeed : sound feed) (rows : List Value) :
    R (List Value) (readPages store limits limit fuel feed rows) (readPages other bounds limit fuel feed rows) := by
  induction fuel generalizing feed rows with
  | zero => exact h.pure rows
  | succ fuel ih =>
    unfold Sampling.readPages
    rw [h.hasMore]
    split
    · exact h.pure rows
    rename_i hmore
    refine h.bind h.isOverBudget fun isOver => ?_
    split
    · exact h.pure rows
    refine h.fetchPage hfeed (by simpa using hmore) fun more feed hfeed => ?_
    dsimp only
    split
    · exact h.pure _
    · exact ih hfeed _

theorem drain (q : SampleQuery) (limit : Option Nat) :
    R (List Value) (drain store limits q limit) (drain other bounds q limit) := by
  unfold Sampling.drain
  refine h.openFeed q fun feed hfeed => h.bound feed fun a b hbound => ?_
  rw [hbound]
  exact h.bind (h.readPages limit _ hfeed []) fun rows => h.pure _

theorem sampleTop : R Sample (sampleTop store limits) (sampleTop other bounds) := by
  unfold Sampling.sampleTop
  rw [h.target]
  exact h.bind (h.drain _ _) fun rows => h.bind (h.documentsOf rows) fun documents =>
    h.bind (h.report _) fun _ => h.pure _

theorem sampleRandom (shuffle : Shuffle) :
    R Sample (sampleRandom store limits shuffle) (sampleRandom other bounds shuffle) := by
  unfold Sampling.sampleRandom
  rw [h.target]
  exact h.bind (h.drain _ _) fun rows => h.bind (h.documentsOf rows) fun documents =>
    h.bind (h.shuffled shuffle documents) fun _ => h.bind (h.report _) fun _ => h.pure _

theorem resolvePartitionPath (given : Option String) :
    R String (resolvePartitionPath store given) (resolvePartitionPath other given) := by
  unfold Sampling.resolvePartitionPath
  split
  · exact h.pure _
  · refine h.bind h.askStore fun told => ?_
    split
    · exact h.pure _
    · exact h.bind (h.note _) fun _ => h.pure _

theorem samplePartitions (field : String) (shares : List (Value × Int)) (found : PartitionSample) :
    R PartitionSample (samplePartitions store limits field shares found)
      (samplePartitions other bounds field shares found) := by
  induction shares generalizing found with
  | nil => exact h.pure found
  | cons share shares ih =>
    unfold Sampling.samplePartitions
    rw [h.target]
    split
    · exact h.pure found
    refine h.bind h.isOverBudget fun isOver => ?_
    split
    · exact h.pure found
    · exact h.bind (h.drain _ _) fun rows => h.bind (h.documentsOf rows) fun documents =>
        h.bind (h.report _) fun _ => ih _

theorem samplePartition (given : Option String) :
    R Sample (samplePartition store limits given) (samplePartition other bounds given) := by
  unfold Sampling.samplePartition
  rw [h.target]
  refine h.bind (h.resolvePartitionPath given) fun path => h.bind (h.drain _ _) fun rows => ?_
  dsimp only
  split
  · exact h.sampleTop
  · exact h.bind (h.samplePartitions _ _ _) fun _ => h.pure _

theorem readShapes (variants : Int) (fuel : Nat) {feed : φ} (hfeed : sound feed) (found : ShapeSample) :
    R ShapeSample (readShapes store limits variants fuel feed found)
      (readShapes other bounds variants fuel feed found) := by
  induction fuel generalizing feed found with
  | zero => exact h.pure found
  | succ fuel ih =>
    unfold Sampling.readShapes
    rw [h.hasMore, h.target]
    split
    · exact h.pure found
    rename_i hmore
    replace hmore : store.hasMore feed = true := Bool.of_not_eq_false fun hdone => hmore (by simp [hdone])
    refine h.bind h.isOverBudget fun isOver => ?_
    split
    · exact h.pure found
    · exact h.fetchPage hfeed hmore fun rows feed hfeed => h.bind (h.documentsOf rows) fun documents =>
        h.bind (h.report _) fun _ => ih hfeed _

theorem sampleSchema (variants : Int) :
    R Sample (sampleSchema store limits variants) (sampleSchema other bounds variants) := by
  unfold Sampling.sampleSchema
  rw [h.target]
  refine h.openFeed .scan fun feed hfeed => h.bound feed fun a b hbound => ?_
  rw [hbound]
  exact h.bind (h.readShapes variants _ hfeed _) fun _ => h.pure _

theorem sampleBy {plan : SamplingPlan} (hlimits : plan.limits = limits) :
    R Sample (sampleBy store plan) (sampleBy other { plan with limits := bounds }) := by
  subst hlimits
  unfold Sampling.sampleBy
  cases plan.strategy with
  | top => exact h.sampleTop
  | random => exact h.sampleRandom plan.shuffle
  | schema => exact h.sampleSchema plan.variants
  | partition => exact h.samplePartition plan.partitionPath

end Respected

end SchemaInference.Sampling
