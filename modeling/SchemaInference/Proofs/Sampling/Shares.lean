import SchemaInference.Moment.FreeDate
import SchemaInference.Proofs.Sampling.Paging
import Mathlib.Algebra.Ring.Int.Defs

set_option autoImplicit false

namespace SchemaInference

variable {σ φ ω η α : Type}

/-- So many shares of a total, none of them empty, that differ by one at most and do not increase. -/
structure EvenShares (total buckets : Nat) (shares : List Int) : Prop where
  length : shares.length = buckets
  positive : ∀ s ∈ shares, 1 ≤ s
  decreasing : shares.Pairwise (· ≥ ·)
  close : ∀ s ∈ shares, ∀ t ∈ shares, s ≤ t + 1
  sum : shares.sum = max total buckets

def sharesWith (base rest : Int) (buckets : Nat) : List Int :=
  (List.range buckets).map fun (i : Nat) => if (i : Int) < rest then base + 1 else base

theorem sum_sharesWith (base : Int) {rest : Int} (hrest : 0 ≤ rest) (buckets : Nat) :
    (sharesWith base rest buckets).sum = base * buckets + min rest buckets := by
  induction buckets with
  | zero =>
    have hnone : min rest 0 = 0 := Int.min_eq_right hrest
    simp [sharesWith, hnone]
  | succ n ih =>
    have hgrown : sharesWith base rest (n + 1) =
        sharesWith base rest n ++ [if (n : Int) < rest then base + 1 else base] := by
      simp [sharesWith, List.range_succ]
    have hproduct : base * ((n + 1 : Nat) : Int) = base * n + base := by
      rw [Int.natCast_succ, Int.mul_add, Int.mul_one]
    rw [hgrown, List.sum_append, ih, List.sum_singleton, hproduct]
    split <;> omega

theorem sharesWith_even {total buckets : Nat} {base rest : Int} (hbase : 1 ≤ base) (hrest : 0 ≤ rest)
    (hsum : base * buckets + min rest buckets = max total buckets) :
    EvenShares total buckets (sharesWith base rest buckets) where
  length := by simp [sharesWith]
  positive := by
    intro s hs
    obtain ⟨i, -, rfl⟩ := List.mem_map.mp hs
    split <;> omega
  decreasing := by
    rw [sharesWith, List.pairwise_map]
    refine List.pairwise_lt_range.imp fun hlt => ?_
    split <;> split <;> omega
  close := by
    intro s hs t ht
    obtain ⟨i, -, rfl⟩ := List.mem_map.mp hs
    obtain ⟨j, -, rfl⟩ := List.mem_map.mp ht
    split <;> split <;> omega
  sum := by rw [sum_sharesWith base hrest, hsum]

theorem splitEvenly_eq {total buckets : Nat} (hbuckets : 1 ≤ buckets) :
    splitEvenly total buckets =
      .ok (sharesWith (max 1 ((total : Int) / buckets)) (if buckets < total then (total : Int) % buckets else 0)
        buckets) := by
  have hsome : ¬ (buckets : Int) = 0 := by omega
  have hdiv : (total : Int).fdiv buckets = (total : Int) / buckets := Int.fdiv_eq_ediv_of_nonneg _ (by omega)
  have hrest : (if (buckets : Int) < total then (total : Int) - max 1 ((total : Int) / buckets) * buckets else 0) =
      if buckets < total then (total : Int) % buckets else 0 := by
    by_cases hless : buckets < total
    · have hone : 1 ≤ (total : Int) / buckets := Int.le_ediv_of_mul_le (by omega) (by omega)
      have hmod : (buckets : Int) * (total / buckets) + total % buckets = total := Int.mul_ediv_add_emod ..
      rw [if_pos (by omega), if_pos hless, Int.max_eq_right hone, Int.mul_comm]
      omega
    · rw [if_neg (by omega), if_neg hless]
  rw [splitEvenly, if_neg hsome]
  simp only [hdiv, hrest, Int.toNat_natCast]
  rfl

theorem splitEvenly_even (total : Nat) {buckets : Nat} (hbuckets : 1 ≤ buckets) :
    ∃ shares, splitEvenly total buckets = .ok shares ∧ EvenShares total buckets shares := by
  have hrest : 0 ≤ (total : Int) % buckets := Int.emod_nonneg _ (by omega)
  refine ⟨_, splitEvenly_eq hbuckets, sharesWith_even (Int.le_max_left _ _) (by split <;> omega) ?_⟩
  by_cases hless : buckets < total
  · have hone : 1 ≤ (total : Int) / buckets := Int.le_ediv_of_mul_le (by omega) (by omega)
    have hmod : (buckets : Int) * (total / buckets) + total % buckets = total := Int.mul_ediv_add_emod ..
    have hlt : (total : Int) % buckets < buckets := Int.emod_lt_of_pos _ (by omega)
    rw [if_pos hless, Int.max_eq_right hone, Int.mul_comm]
    omega
  · have hlt : (total : Int) / buckets < 2 := Int.ediv_lt_of_lt_mul (by omega) (by omega)
    rw [if_neg hless, Int.max_eq_left (by omega)]
    omega

theorem length_le_sum {shares : List Int} (h : ∀ s ∈ shares, 1 ≤ s) : (shares.length : Int) ≤ shares.sum := by
  induction shares with
  | nil => simp
  | cons s shares ih =>
    obtain ⟨hs, hshares⟩ := List.forall_mem_cons.mp h
    have hrest := ih hshares
    rw [List.length_cons, List.sum_cons]
    omega

theorem EvenShares.eq_one {total buckets : Nat} {shares : List Int} (h : EvenShares total buckets shares)
    (hle : total ≤ buckets) : ∀ s ∈ shares, s = 1 := by
  intro s hs
  obtain ⟨before, after, rfl⟩ := List.append_of_mem hs
  have hlength := h.length
  have hsum := h.sum
  have hone := h.positive s hs
  have hbefore := length_le_sum fun t ht => h.positive t (List.mem_append_left _ ht)
  have hafter := length_le_sum fun t ht => h.positive t (List.mem_append_right _ (List.mem_cons_of_mem _ ht))
  rw [List.length_append, List.length_cons] at hlength
  rw [List.sum_append, List.sum_cons] at hsum
  omega

def firstAcross : Nat → List (List α) → List (List α)
  | _, [] => []
  | n, items :: rest => items.take n :: firstAcross (n - items.length) rest

theorem flatten_firstAcross (n : Nat) (lists : List (List α)) :
    (firstAcross n lists).flatten = lists.flatten.take n := by
  induction lists generalizing n with
  | nil => simp [firstAcross]
  | cons items rest ih => rw [firstAcross, List.flatten_cons, List.flatten_cons, ih, List.take_append]

/-- How many of the lists give at least one item to the first ones of all. -/
def countAcross (n : Nat) (lists : List (List α)) : Nat :=
  (firstAcross n lists).countP fun items => !items.isEmpty

theorem countAcross_cons (n : Nat) (items : List α) (rest : List (List α)) :
    countAcross n (items :: rest) =
      (if (items.take n).isEmpty then 0 else 1) + countAcross (n - items.length) rest := by
  rw [countAcross, firstAcross, List.countP_cons, countAcross, Nat.add_comm]
  cases (items.take n).isEmpty <;> rfl

theorem countAcross_zero (lists : List (List α)) : countAcross 0 lists = 0 := by
  induction lists with
  | nil => rfl
  | cons items rest ih => rw [countAcross_cons, List.take_zero, Nat.zero_sub, ih]; rfl

theorem countAcross_of_le {n : Nat} {lists : List (List α)} (hsome : ∀ items ∈ lists, items ≠ [])
    (hroom : lists.flatten.length ≤ n) : countAcross n lists = lists.length := by
  induction lists generalizing n with
  | nil => rfl
  | cons items rest ih =>
    obtain ⟨hitems, hrest⟩ := List.forall_mem_cons.mp hsome
    rw [List.flatten_cons, List.length_append] at hroom
    have hempty : (items.take n).isEmpty = false := by
      rw [List.take_of_length_le (by omega), List.isEmpty_eq_false_iff]
      exact hitems
    rw [countAcross_cons, hempty, ih hrest (by omega), List.length_cons, Nat.add_comm]
    rfl

theorem countAcross_of_single {n : Nat} {lists : List (List α)} (hone : ∀ items ∈ lists, items.length = 1) :
    countAcross n lists = min n lists.length := by
  induction lists generalizing n with
  | nil => simp [countAcross, firstAcross]
  | cons items rest ih =>
    obtain ⟨hitems, hrest⟩ := List.forall_mem_cons.mp hone
    obtain ⟨item, rfl⟩ := List.length_eq_one_iff.mp hitems
    rw [countAcross_cons, ih hrest]
    cases n with
    | zero => simp
    | succ n =>
      simp only [List.take_succ_cons, List.isEmpty_cons, Bool.false_eq_true, ↓reduceIte, List.length_cons,
        List.length_nil]
      omega

theorem length_flatten_eq (lists : List (List α)) :
    (lists.flatten.length : Int) = (lists.map fun items => (items.length : Int)).sum := by
  induction lists with
  | nil => rfl
  | cons items rest ih =>
    rw [List.flatten_cons, List.length_append, List.map_cons, List.sum_cons, ← ih, Int.natCast_add]

theorem EvenShares.filled {total : Nat} {shares : List Int} {lists : List (List α)}
    (h : EvenShares total lists.length shares) (hfull : lists.map (fun items => (items.length : Int)) = shares) :
    (lists.flatten.take total).length = total ∧ countAcross total lists = min total lists.length := by
  subst hfull
  have hsum : (lists.flatten.length : Int) = max total lists.length := by
    rw [length_flatten_eq, h.sum]
  have hsizes : ∀ items ∈ lists, 1 ≤ items.length := by
    intro items hitems
    have hpositive := h.positive _ (List.mem_map_of_mem hitems)
    omega
  refine ⟨by rw [List.length_take]; omega, ?_⟩
  by_cases hle : total ≤ lists.length
  · refine countAcross_of_single fun items hitems => ?_
    have hone := h.eq_one hle _ (List.mem_map_of_mem hitems)
    omega
  · rw [countAcross_of_le (fun items hitems => List.ne_nil_of_length_pos (hsizes items hitems)) (by omega)]
    omega

namespace RowSource

variable (source : RowSource ω)

def partitions (given : Option String) : StateM ω (String × List Value) := do
  let path ← source.resolvePath given
  let values ← source.rows (.distinct (partitionField path))
  return (partitionField path, values.filter fun k => !k.isNull)

def batch (field : String) (share : Value × Int) : StateM ω (List Value) :=
  source.documents (.partition share.2.toNat field share.1) share.2.toNat

def batches (field : String) (shares : List (Value × Int)) : StateM ω (List (List Value)) :=
  shares.mapM (source.batch field)

theorem batches_cons (field : String) (share : Value × Int) (shares : List (Value × Int)) (w : ω) :
    (source.batches field (share :: shares) w).1 =
      (source.batch field share w).1 :: (source.batches field shares (source.batch field share w).2).1 := by
  rw [batches, List.mapM_cons]
  rfl

theorem samplePartitions_eq (target : Nat) (field : String) (shares : List (Value × Int))
    (found : Sampling.PartitionSample) (w : ω) :
    (source.samplePartitions target field shares found w).1 =
      ⟨found.documents ++ (source.batches field shares w).1.flatten.take (target - found.documents.length),
        found.covered + countAcross (target - found.documents.length) (source.batches field shares w).1⟩ := by
  induction shares generalizing found w with
  | nil =>
    change found = ⟨found.documents ++ List.take _ [], found.covered + 0⟩
    rw [List.take_nil, List.append_nil]
    rfl
  | cons share shares ih =>
    rw [batches_cons]
    unfold samplePartitions
    split
    · -- Once there are enough documents nothing is asked any more, and nothing would be taken.
      rename_i hfull
      have hnone : target - found.documents.length = 0 := by omega
      rw [hnone, List.take_zero, List.append_nil, countAcross_zero]
      rfl
    · change (source.samplePartitions target field shares
        ⟨found.documents ++ (source.batch field share w).1.take (target - found.documents.length),
          if ((source.batch field share w).1.take (target - found.documents.length)).isEmpty then found.covered
          else found.covered + 1⟩ (source.batch field share w).2).1 = _
      obtain ⟨documents, w'⟩ := source.batch field share w
      have hroom : target - (found.documents ++ documents.take (target - found.documents.length)).length =
          target - found.documents.length - documents.length := by
        rw [List.length_append, List.length_take]
        omega
      rw [ih, List.flatten_cons, List.take_append, countAcross_cons]
      dsimp only
      rw [hroom, List.append_assoc]
      congr 1
      split <;> omega

theorem length_batches (field : String) (shares : List (Value × Int)) (w : ω) :
    (source.batches field shares w).1.length = shares.length := by
  induction shares generalizing w with
  | nil => rfl
  | cons share shares ih => rw [batches_cons, List.length_cons, ih, List.length_cons]

/-- The sample by partition in one piece: what the partitions give for even shares, up to the total. -/
theorem samplePartition_eq {target : Nat} {given : Option String} {w w' : ω} {field : String} {keys : List Value}
    (hkeys : source.partitions given w = ((field, keys), w')) {quotas : List Int}
    (hquotas : splitEvenly target keys.length = .ok quotas) :
    (source.samplePartition target given w).1 =
      { Sample.complete ((source.batches field (keys.zip quotas) w').1.flatten.take target) with
        partitionsCovered := some (countAcross target (source.batches field (keys.zip quotas) w').1) } := by
  simp only [partitions, bind, StateT.bind, pure] at hkeys
  simp only [samplePartition, bind, StateT.bind]
  generalize source.resolvePath given w = told at hkeys ⊢
  obtain ⟨path, u⟩ := told
  dsimp only at hkeys ⊢
  generalize source.rows (.distinct (partitionField path)) u = values at hkeys ⊢
  obtain ⟨values, u'⟩ := values
  obtain ⟨⟨rfl, rfl⟩, rfl⟩ := hkeys
  dsimp only
  generalize values.filter (fun k => !k.isNull) = keys at hquotas ⊢
  generalize partitionField path = field
  rw [hquotas]
  change { Sample.complete (source.samplePartitions target field (keys.zip quotas) ⟨[], 0⟩ w').1.documents with
    partitionsCovered := some (source.samplePartitions target field (keys.zip quotas) ⟨[], 0⟩ w').1.covered } = _
  rw [samplePartitions_eq]
  simp

end RowSource

structure Sample.Shared (total : Nat) (quotas : List Int) (batches : List (List Value)) (sample : Sample) : Prop where
  documents : sample.documents = batches.flatten.take total
  parts : (firstAcross total batches).flatten = sample.documents
  covered : sample.partitionsCovered = some ((firstAcross total batches).countP fun part => !part.isEmpty)
  filled : batches.map (fun batch => (batch.length : Int)) = quotas →
    sample.documents.length = total ∧ sample.partitionsCovered = some (min total quotas.length)

namespace Sampling

/-- Every number of documents is split evenly among the partitions, and a sample by partition is what each of
them gives for its share, in the order of their keys, up to that number of documents. -/
theorem draw_byShares (total : Nat) {keys : List Value} (hkeys : keys ≠ []) :
    ∃ quotas, splitEvenly total keys.length = .ok quotas ∧ EvenShares total keys.length quotas ∧
      ∀ {store : Store σ φ} {source : RowSource ω} {stands : σ → ω → Prop}, store.Serves source stands →
      ∀ (h : RetryHost η) (policy : RetryPolicy) (plan : SamplingPlan), plan.strategy = .partition →
        plan.limits = ⟨total, none⟩ → ∀ (s : SamplingState σ η) (w w' : ω) (field : String), stands s.store w →
        h.isCancelled (noteSize h plan s.host) = false →
        source.partitions plan.partitionPath w = ((field, keys), w') →
        ∃ sample, (draw store h policy plan s).1 = .ok sample ∧ sample.status = .completed ∧
          sample.Shared total quotas (source.batches field (keys.zip quotas) w').1 := by
  obtain ⟨quotas, hquotas, heven⟩ := splitEvenly_even total (List.length_pos_iff.mpr hkeys)
  refine ⟨quotas, hquotas, heven, ?_⟩
  intro store source stands hserves h policy plan hstrategy hlimits s w w' field hs hhost hfound
  obtain ⟨charge, hdrawn⟩ := draw_byRows hserves h policy plan (by rw [hlimits]) hs hhost
  have hsample : (source.sample plan w).1 =
      { Sample.complete ((source.batches field (keys.zip quotas) w').1.flatten.take total) with
        partitionsCovered := some (countAcross total (source.batches field (keys.zip quotas) w').1) } := by
    rw [RowSource.sample, hstrategy, hlimits]
    exact source.samplePartition_eq hfound hquotas
  rw [hsample] at hdrawn
  have hlength : (source.batches field (keys.zip quotas) w').1.length = keys.length := by
    rw [source.length_batches, List.length_zip, heven.length, Nat.min_self]
  rw [← hlength] at heven
  refine ⟨_, hdrawn, rfl, rfl, flatten_firstAcross total _, rfl, fun hfull => ?_⟩
  obtain ⟨hfilled, hcovered⟩ := heven.filled hfull
  exact ⟨hfilled, by rw [heven.length]; exact congrArg some hcovered⟩

def orderRows : List (List Value) :=
  [[.text "east", .null, .text "west", .text "north"],
    [.record [("a", .whole 1)], .record [("a", .whole 2)], .record [("a", .whole 3)]],
    [.record [("b", .whole 1)]], [.record [("c", .whole 1)], .record [("c", .whole 2)]]]

def orderFeeds : FeedStore where
  feeds := orderRows.map fun rows => .free [rows]
  queries := []

def fourByRegion : SamplingPlan :=
  { threeByRegion with limits := ⟨4, none⟩ }

theorem draw_byShares_orders :
    ∃ sample, (draw (FeedStore.store none) (RetryScript.host FreeDate.atYear2000) RetryPolicy.standard fourByRegion
        ⟨orderFeeds, .start false none [] [], []⟩).1 = .ok sample ∧
      sample.documents.length = 4 ∧ sample.partitionsCovered = some 3 := by
  have hkeys : [Value.text "east", .text "west", .text "north"] ≠ [] := List.cons_ne_nil _ _
  obtain ⟨quotas, hquotas, -, hdraw⟩ := draw_byShares 4 hkeys
  obtain rfl : quotas = [2, 1, 1] := Except.ok.inj (hquotas.symm.trans rfl)
  obtain ⟨sample, hsample, -, hshared⟩ := hdraw (FeedStore.serves none) (RetryScript.host FreeDate.atYear2000) RetryPolicy.standard
    fourByRegion rfl rfl ⟨orderFeeds, .start false none [] [], []⟩ orderRows _ "region"
    ⟨PageFeed.delivers_map_free _ _, rfl⟩ rfl rfl
  obtain ⟨hfour, hthree⟩ := hshared.filled (by decide +kernel)
  exact ⟨sample, hsample, hfour, hthree⟩

end Sampling

end SchemaInference
