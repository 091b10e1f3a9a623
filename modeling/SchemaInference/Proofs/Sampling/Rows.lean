import SchemaInference.Proofs.Sampling.Reliability

set_option autoImplicit false

namespace SchemaInference

variable {σ φ ω : Type}

structure RowSource (ω : Type) where
  rows : SampleQuery → StateM ω (List Value)
  partitionPath : Option (StateM ω (Option String))

def upTo (limit : Option Nat) (rows : List Value) : List Value :=
  match limit with
  | some n => rows.take n
  | none => rows

namespace RowSource

variable (source : RowSource ω)

def documents (q : SampleQuery) (limit : Nat) : StateM ω (List Value) := do
  let rows ← source.rows q
  return (rows.take limit).filter Value.isMapping

def sampleTop (target : Nat) : StateM ω Sample := do
  let documents ← source.documents (.top target) target
  return .complete documents

def sampleRandom (target : Nat) (shuffle : Shuffle) : StateM ω Sample := do
  let size := target * randomOversampling
  let documents ← source.documents (.recent size) size
  return .complete ((shuffle.order [] documents).take target)

def toldPath : StateM ω (Option String) :=
  match source.partitionPath with
  | none => pure none
  | some tell => tell

def resolvePath (given : Option String) : StateM ω String := do
  match given.filter (!·.isEmpty) with
  | some path => return path
  | none =>
    let told ← source.toldPath
    return (told.filter (!·.isEmpty)).getD standardPartitionPath

def samplePartitions (target : Nat) (field : String) :
    List (Value × Int) → Sampling.PartitionSample → StateM ω Sampling.PartitionSample
  | [], found => return found
  | (key, quota) :: rest, found => do
    if target ≤ found.documents.length then return found
    let documents ← source.documents (.partition quota.toNat field key) quota.toNat
    let batch := documents.take (target - found.documents.length)
    samplePartitions target field rest
      ⟨found.documents ++ batch, if batch.isEmpty then found.covered else found.covered + 1⟩

def samplePartition (target : Nat) (given : Option String) : StateM ω Sample := do
  let path ← source.resolvePath given
  let field := partitionField path
  let values ← source.rows (.distinct field)
  let keys := values.filter fun k => !k.isNull
  match splitEvenly target keys.length with
  | .error _ => source.sampleTop target
  | .ok quotas =>
    let found ← source.samplePartitions target field (keys.zip quotas) ⟨[], 0⟩
    return { Sample.complete found.documents with partitionsCovered := some found.covered }

def sampleSchema (target : Nat) (variants : Int) : StateM ω Sample := do
  let rows ← source.rows .scan
  let found := (rows.filter Value.isMapping).foldl (Sampling.chooseByShape target variants) ⟨[], []⟩
  return { Sample.complete found.documents with
    status := if target ≤ found.documents.length then .completed else .incomplete
    schemaVariants := some found.counts.length }

def sample (plan : SamplingPlan) : StateM ω Sample :=
  match plan.strategy with
  | .top => source.sampleTop plan.limits.target
  | .random => source.sampleRandom plan.limits.target plan.shuffle
  | .schema => source.sampleSchema plan.limits.target plan.variants
  | .partition => source.samplePartition plan.limits.target plan.partitionPath

end RowSource

/-- The feed ends after so many pages at most; none of them fails, and together they have these rows. -/
inductive Store.Yields (store : Store σ φ) (stands : σ → Prop) : Nat → φ → σ → List Value → Prop
  | ended {n : Nat} {feed : φ} {s : σ} : store.hasMore feed = false → store.Yields stands n feed s []
  | page {n : Nat} {feed next : φ} {s t : σ} {page : FeedPage} {spent : Double} {rows : List Value} :
      store.hasMore feed = true → store.fetch feed s = (.ok page, next, t) → page.spent = .ok spent → stands t →
      store.Yields stands n next t rows → store.Yields stands (n + 1) feed s (page.rows ++ rows)

/-- The store answers every query with the rows of the source, in pages of any sizes, and tells the path of the
partition key as the source does.  No page changes what the state of the store stands for. -/
structure Store.Serves (store : Store σ φ) (source : RowSource ω) (stands : σ → ω → Prop) : Prop where
  start : ∀ q s w, stands s w → stands (store.start q s).2 (source.rows q w).2
  yields : ∀ q s w, stands s w →
    store.Yields (stands · (source.rows q w).2) (store.bound (store.start q s).1 (store.start q s).2)
      (store.start q s).1 (store.start q s).2 (source.rows q w).1
  partitionPath : Option.Rel
    (fun ask tell => ∀ s w, stands s w → (ask s).1 = .ok (tell w).1 ∧ stands (ask s).2 (tell w).2)
    store.partitionPath source.partitionPath

def PageFeed.rows (feed : PageFeed) : List Value :=
  feed.flatMap fun fetched => (fetched.toOption.map (·.rows)).getD []

def RowSource.ofLists (path : Option String) : RowSource (List (List Value)) where
  rows _ lists := (lists.headD [], lists.tail)
  partitionPath := some (pure path)

def PageFeed.free (pages : List (List Value)) : PageFeed :=
  pages.map fun rows => .ok ⟨rows, .null⟩

theorem PageFeed.delivers_free (pages : List (List Value)) : (PageFeed.free pages).Delivers := by
  intro fetched hfetched
  obtain ⟨rows, -, rfl⟩ := List.mem_map.mp hfetched
  exact ⟨_, .finite 0, rfl, rfl⟩

theorem PageFeed.delivers_map_free {α : Type} (pages : α → List (List Value)) (items : List α) :
    ∀ feed ∈ items.map fun item => PageFeed.free (pages item), feed.Delivers :=
  List.forall_mem_map.mpr fun item _ => delivers_free (pages item)

theorem PageFeed.Delivers.yields {feed : PageFeed} (h : feed.Delivers) (path : Option String)
    {stands : FeedStore → Prop} {s : FeedStore} (hs : stands s) :
    (FeedStore.store path).Yields stands feed.length feed s feed.rows := by
  induction feed with
  | nil => exact .ended rfl
  | cons fetched feed ih =>
    obtain ⟨page, spent, rfl, hspent⟩ := h fetched List.mem_cons_self
    have hrest : PageFeed.Delivers feed := fun other hother => h other (List.mem_cons_of_mem _ hother)
    exact .page rfl rfl hspent hs (ih hrest)

theorem FeedStore.serves (path : Option String) :
    (FeedStore.store path).Serves (.ofLists path) fun s lists =>
      (∀ feed ∈ s.feeds, feed.Delivers) ∧ s.feeds.map PageFeed.rows = lists where
  start := by
    rintro q s _ ⟨hs, rfl⟩
    refine ⟨fun feed hfeed => hs feed (List.mem_of_mem_tail hfeed), ?_⟩
    exact List.map_tail
  yields := by
    rintro q s _ ⟨hs, rfl⟩
    have hfeed : PageFeed.Delivers (s.feeds.headD []) := ((FeedStore.reliable path).start q s hs).1
    have hrows : PageFeed.rows (s.feeds.headD []) = (s.feeds.map PageFeed.rows).headD [] := by
      cases s.feeds <;> rfl
    change (FeedStore.store path).Yields _ (s.feeds.headD []).length (s.feeds.headD []) _
      ((s.feeds.map PageFeed.rows).headD [])
    rw [← hrows]
    exact hfeed.yields path ⟨fun feed hfeed => hs feed (List.mem_of_mem_tail hfeed), List.map_tail⟩
  partitionPath := .some fun s w hs => ⟨rfl, hs⟩

end SchemaInference
