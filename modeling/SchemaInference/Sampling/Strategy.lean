import SchemaInference.Sampling.Attempt

set_option autoImplicit false

namespace SchemaInference

inductive SamplingStrategy
  | top
  | random
  | partition
  | schema
deriving DecidableEq, Inhabited

namespace SamplingStrategy

def name : SamplingStrategy → String
  | top => "top"
  | random => "random"
  | partition => "partition"
  | schema => "schema"

def all : List SamplingStrategy := [top, random, partition, schema]

def ofName? (name : String) : Option SamplingStrategy :=
  all.find? (·.name == name)

end SamplingStrategy

inductive SampleStatus
  | completed
  | budgetExceeded
  | incomplete
deriving DecidableEq, Inhabited

def SampleStatus.name : SampleStatus → String
  | completed => "completed"
  | budgetExceeded => "budget_exceeded"
  | incomplete => "partial"

structure Sample where
  documents : List Value
  status : SampleStatus
  charge : Double
  partitionsCovered : Option Nat
  schemaVariants : Option Nat

def Sample.complete (documents : List Value) : Sample where
  documents := documents
  status := .completed
  charge := .finite 0
  partitionsCovered := none
  schemaVariants := none

/-- How chance puts documents in order; it may depend on the lists that it has put in order before. -/
structure Shuffle where
  order : (earlier : List (List Value)) → List Value → List Value

/-- A chance that forgets what it has done. -/
instance : Coe (List Value → List Value) Shuffle where
  coe order := ⟨fun _ => order⟩

structure SamplingPlan where
  strategy : SamplingStrategy
  limits : SamplingLimits
  partitionPath : Option String
  /-- How many documents of one shape are wanted. -/
  variants : Int
  shuffle : Shuffle

def randomOversampling : Nat := 3

def standardPartitionPath : String := "/partition"

/-- Shares of a total that differ by one at most, the greater ones first; every share is at least one. -/
def splitEvenly (total buckets : Int) : Except ConversionError (List Int) :=
  if buckets = 0 then .error .divisionByZero
  else
    let base := max 1 (total.fdiv buckets)
    let rest := if buckets < total then total - base * buckets else 0
    .ok ((List.range buckets.toNat).map fun (i : Nat) => if (i : Int) < rest then base + 1 else base)

/-- The keys of a document in order, without those that start with an underscore. -/
def schemaSignature (document : Value) : String :=
  let keys : List String := match document with
    | .mapping entries => entries.map fun entry => entry.1.display
    | _ => []
  let keys := keys.filter fun k => k.toList.head? != some '_'
  "|".intercalate (keys.mergeSort fun a b => !decide (b < a))

def partitionField (path : String) : String :=
  let inner := (path.toList.dropWhile (· = '/')).reverse.dropWhile (· = '/')
  String.ofList (inner.reverse.map fun c => if c = '/' then '.' else c)

namespace Sampling

variable {σ φ : Type}

def sampleTop (store : Store σ φ) (limits : SamplingLimits) : Sampling σ Sample := do
  let rows ← drain store limits (.top limits.target) (some limits.target)
  let documents ← documentsOf rows
  report limits documents.length
  return .complete documents

def shuffled (shuffle : Shuffle) (documents : List Value) : Sampling σ (List Value) := do
  let a ← get
  set { a with shuffled := a.shuffled ++ [documents] }
  return shuffle.order a.shuffled documents

def sampleRandom (store : Store σ φ) (limits : SamplingLimits) (shuffle : Shuffle) :
    Sampling σ Sample := do
  let size := limits.target * randomOversampling
  let rows ← drain store limits (.recent size) (some size)
  let documents ← documentsOf rows
  let chosen := (← shuffled shuffle documents).take limits.target
  report limits chosen.length
  return .complete chosen

/-- The path of the partition key: given, told by the store, or the standard one; an empty path is none. -/
def resolvePartitionPath (store : Store σ φ) (given : Option String) : Sampling σ String := do
  match given.filter (!·.isEmpty) with
  | some path => return path
  | none =>
    let told ← askStore
    match told.filter (!·.isEmpty) with
    | some path => return path
    | none =>
      note ("partition key path unknown, falling back to " ++ standardPartitionPath)
      return standardPartitionPath
where
  askStore : Sampling σ (Option String) :=
    match store.partitionPath with
    | none => pure none
    | some ask => fun a =>
      let (told, s) := ask a.store
      (told, { a with store := s })

structure PartitionSample where
  documents : List Value
  covered : Nat

def samplePartitions (store : Store σ φ) (limits : SamplingLimits) (field : String) :
    List (Value × Int) → PartitionSample → Sampling σ PartitionSample
  | [], found => return found
  | (key, quota) :: rest, found => do
    if limits.target ≤ found.documents.length then return found
    if ← isOverBudget limits then return found
    let rows ← drain store limits (.partition quota.toNat field key) (some quota.toNat)
    let batch := (← documentsOf rows).take (limits.target - found.documents.length)
    report limits batch.length
    samplePartitions store limits field rest
      ⟨found.documents ++ batch, if batch.isEmpty then found.covered else found.covered + 1⟩

def samplePartition (store : Store σ φ) (limits : SamplingLimits) (given : Option String) :
    Sampling σ Sample := do
  let path ← resolvePartitionPath store given
  let field := partitionField path
  let keys := (← drain store limits (.distinct field) none).filter fun k => !k.isNull
  match splitEvenly limits.target keys.length with
  | .error _ => sampleTop store limits
  | .ok quotas =>
    let found ← samplePartitions store limits field (keys.zip quotas) ⟨[], 0⟩
    return { Sample.complete found.documents with partitionsCovered := some found.covered }

abbrev ShapeCounts := List (String × Nat)

def countOf (counts : ShapeCounts) (shape : String) : Nat :=
  (counts.lookup shape).getD 0

def countShape (counts : ShapeCounts) (shape : String) : ShapeCounts :=
  match counts with
  | [] => [(shape, 1)]
  | (s, n) :: rest => if s = shape then (s, n + 1) :: rest else (s, n) :: countShape rest shape

structure ShapeSample where
  documents : List Value
  counts : ShapeCounts

def chooseByShape (target : Nat) (variants : Int) (found : ShapeSample) (document : Value) : ShapeSample :=
  let shape := schemaSignature document
  if target ≤ found.documents.length ∨ variants ≤ countOf found.counts shape then found
  else ⟨found.documents ++ [document], countShape found.counts shape⟩

def readShapes (store : Store σ φ) (limits : SamplingLimits) (variants : Int) :
    Nat → φ → ShapeSample → Sampling σ ShapeSample
  | 0, _, found => return found
  | fuel + 1, feed, found => do
    if !store.hasMore feed || decide (limits.target ≤ found.documents.length) then return found
    if ← isOverBudget limits then return found
    let (rows, feed) ← fetchPage store feed
    let documents ← documentsOf rows
    let next := documents.foldl (chooseByShape limits.target variants) found
    report limits (next.documents.length - found.documents.length)
    readShapes store limits variants fuel feed next

def sampleSchema (store : Store σ φ) (limits : SamplingLimits) (variants : Int) : Sampling σ Sample := do
  let feed ← openFeed store .scan
  let a ← get
  let found ← readShapes store limits variants (store.bound feed a.store) feed ⟨[], []⟩
  return { Sample.complete found.documents with
    status := if limits.target ≤ found.documents.length then .completed else .incomplete
    schemaVariants := some found.counts.length }

/-- A sample by the strategy of a plan, with its charge; running out of units goes before any status. -/
def byPlan (store : Store σ φ) (plan : SamplingPlan) : Sampling σ Sample := do
  let sample ← match plan.strategy with
    | .top => sampleTop store plan.limits
    | .random => sampleRandom store plan.limits plan.shuffle
    | .schema => sampleSchema store plan.limits plan.variants
    | .partition => samplePartition store plan.limits plan.partitionPath
  let a ← get
  return { sample with
    charge := a.charge
    status := if a.overBudget then .budgetExceeded else sample.status }

end Sampling

end SchemaInference
