import SchemaInference.Moment.FreeDate
import SchemaInference.Proofs.Sampling.Paging
import SchemaInference.Proofs.Sampling.Signature
import Mathlib.Data.Finset.Card

set_option autoImplicit false

namespace SchemaInference

variable {σ φ ω η α β : Type}

section Kinds

variable [DecidableEq β] (kind : α → β) (most : Int)

def amongFirst (items : List α) : List α :=
  items.zipIdx.filterMap fun (x, i) =>
    if (((items.take i).map kind).count (kind x) : Int) < most then some x else none

theorem amongFirst_concat (items : List α) (x : α) :
    amongFirst kind most (items ++ [x]) = amongFirst kind most items ++
      if ((items.map kind).count (kind x) : Int) < most then [x] else [] := by
  rw [amongFirst, List.zipIdx_append, List.filterMap_append]
  congr 1
  · refine List.filterMap_congr fun (y, i) hy => ?_
    obtain ⟨-, hi, -⟩ := List.mem_zipIdx hy
    have htake : (items ++ [x]).take i = items.take i := List.take_append_of_le_length (by omega)
    dsimp only
    rw [htake]
  · have htake : (items ++ [x]).take items.length = items := List.take_left
    simp only [List.zipIdx_singleton, List.filterMap_cons, List.filterMap_nil, Nat.zero_add, htake]
    by_cases hfew : ((items.map kind).count (kind x) : Int) < most
    · rw [if_pos hfew, if_pos hfew]
    · rw [if_neg hfew, if_neg hfew]

theorem count_amongFirst (k : β) (items : List α) :
    (((amongFirst kind most items).map kind).count k : Int) = min (max most 0) ((items.map kind).count k) := by
  induction items using List.reverseRecOn with
  | nil => simp [amongFirst]
  | append_singleton items x ih =>
    rw [amongFirst_concat, List.map_append, List.count_append, List.map_append, List.count_append, Int.natCast_add, ih]
    have hone : ([x].map kind).count k = if kind x = k then 1 else 0 := by simp [List.count_singleton]
    by_cases hkind : kind x = k
    · subst hkind
      rw [if_pos rfl] at hone
      split
      · omega
      · rw [List.map_nil, List.count_nil]
        omega
    · rw [if_neg hkind] at hone
      split
      · omega
      · rw [List.map_nil, List.count_nil]
        omega

theorem amongFirst_congr {γ : Type} [DecidableEq γ] {other : α → γ} {items : List α}
    (h : ∀ x ∈ items, ∀ y ∈ items, kind x = kind y ↔ other x = other y) :
    amongFirst kind most items = amongFirst other most items := by
  refine List.filterMap_congr fun (x, i) hx => ?_
  have hcount : ((items.take i).map kind).count (kind x) = ((items.take i).map other).count (other x) := by
    rw [List.count, List.count, List.countP_map, List.countP_map]
    refine List.countP_congr fun y hy => ?_
    have hsame := h y (List.mem_of_mem_take hy) x (List.fst_mem_of_mem_zipIdx hx)
    simpa using hsame
  dsimp only
  rw [hcount]

end Kinds

namespace Sampling

theorem mem_keys_countShape (counts : ShapeCounts) (shape s : String) :
    s ∈ (countShape counts shape).map (·.1) ↔ s ∈ counts.map (·.1) ∨ s = shape := by
  induction counts with
  | nil => simp [countShape]
  | cons entry rest ih =>
    obtain ⟨t, n⟩ := entry
    unfold countShape
    split
    · subst t
      simp only [List.map_cons, List.mem_cons]
      tauto
    · simp only [List.map_cons, List.mem_cons, ih, or_assoc]

theorem nodup_keys_countShape {counts : ShapeCounts} (h : (counts.map (·.1)).Nodup) (shape : String) :
    ((countShape counts shape).map (·.1)).Nodup := by
  induction counts with
  | nil => simp [countShape]
  | cons entry rest ih =>
    obtain ⟨t, n⟩ := entry
    unfold countShape
    split
    · exact h
    · rename_i hother
      obtain ⟨ht, hrest⟩ := List.nodup_cons.mp h
      refine List.nodup_cons.mpr ⟨fun hmem => ?_, ih hrest⟩
      exact ((mem_keys_countShape rest shape t).mp hmem).elim ht hother

theorem countOf_cons (t : String) (n : Nat) (rest : ShapeCounts) (s : String) :
    countOf ((t, n) :: rest) s = if t = s then n else countOf rest s := by
  by_cases hts : t = s
  · subst hts
    rw [if_pos rfl, countOf, List.lookup_cons_self]
    rfl
  · rw [if_neg hts, countOf, List.lookup_cons, beq_false_of_ne (Ne.symm hts)]
    rfl

theorem countOf_countShape (counts : ShapeCounts) (shape s : String) :
    countOf (countShape counts shape) s = countOf counts s + [shape].count s := by
  induction counts with
  | nil =>
    rw [countShape, countOf_cons]
    by_cases hs : shape = s <;> simp [hs, countOf]
  | cons entry rest ih =>
    obtain ⟨t, n⟩ := entry
    unfold countShape
    split
    · subst t
      rw [countOf_cons, countOf_cons]
      by_cases hs : shape = s <;> simp [hs]
    · rename_i hother
      rw [countOf_cons, countOf_cons, ih]
      split
      · subst t
        simp [Ne.symm hother]
      · rfl

structure CountsOf (shapes : List String) (counts : ShapeCounts) : Prop where
  distinct : (counts.map (·.1)).Nodup
  found : ∀ s, s ∈ counts.map (·.1) ↔ s ∈ shapes
  count : ∀ s, countOf counts s = shapes.count s

theorem CountsOf.nil : CountsOf [] [] where
  distinct := List.nodup_nil
  found _ := Iff.rfl
  count _ := rfl

theorem CountsOf.concat {shapes : List String} {counts : ShapeCounts} (h : CountsOf shapes counts)
    (shape : String) : CountsOf (shapes ++ [shape]) (countShape counts shape) where
  distinct := nodup_keys_countShape h.distinct shape
  found s := by rw [mem_keys_countShape, h.found, List.mem_append, List.mem_singleton]
  count s := by rw [countOf_countShape, h.count, List.count_append]

theorem CountsOf.length {shapes : List String} {counts : ShapeCounts} (h : CountsOf shapes counts) :
    counts.length = shapes.toFinset.card := by
  have hsame : shapes.toFinset = (counts.map (·.1)).toFinset := by
    ext s
    rw [List.mem_toFinset, List.mem_toFinset, h.found]
  rw [hsame, List.toFinset_card_of_nodup h.distinct, List.length_map]

/-- The first of the documents before which there are only few of their shape. -/
def greedyChoice (target : Nat) (variants : Int) (documents : List Value) : List Value :=
  (amongFirst schemaSignature variants documents).take target

theorem greedyChoice_concat_of_le {target : Nat} {variants : Int} {documents : List Value}
    (hfull : target ≤ (greedyChoice target variants documents).length) (d : Value) :
    greedyChoice target variants (documents ++ [d]) = greedyChoice target variants documents := by
  rw [greedyChoice, List.length_take] at hfull
  rw [greedyChoice, amongFirst_concat, List.take_append_of_le_length (by omega)]
  rfl

theorem greedyChoice_of_lt {target : Nat} {variants : Int} {documents : List Value}
    (hroom : (greedyChoice target variants documents).length < target) :
    greedyChoice target variants documents = amongFirst schemaSignature variants documents := by
  rw [greedyChoice, List.length_take] at hroom
  exact List.take_of_length_le (by omega)

/-- The loop over the documents makes the greedy choice, and counts the shapes of what it has chosen. -/
theorem foldl_chooseByShape (target : Nat) (variants : Int) (documents : List Value) :
    let found := documents.foldl (chooseByShape target variants) ⟨[], []⟩
    found.documents = greedyChoice target variants documents ∧
      CountsOf (found.documents.map schemaSignature) found.counts := by
  induction documents using List.reverseRecOn with
  | nil => exact ⟨by simp [greedyChoice, amongFirst], .nil⟩
  | append_singleton documents d ih =>
    rw [List.foldl_append, List.foldl_cons, List.foldl_nil]
    dsimp only at ih ⊢
    generalize documents.foldl (chooseByShape target variants) ⟨[], []⟩ = found at ih ⊢
    obtain ⟨hchosen, hcounts⟩ := ih
    by_cases hfull : target ≤ found.documents.length
    · have hkept : chooseByShape target variants found d = found := if_pos (.inl hfull)
      rw [hkept]
      exact ⟨hchosen.trans (greedyChoice_concat_of_le (hchosen ▸ hfull) d).symm, hcounts⟩
    · have hroom : (greedyChoice target variants documents).length < target := hchosen ▸ Nat.lt_of_not_le hfull
      have hall := hchosen.trans (greedyChoice_of_lt hroom)
      -- As long as there is room, the shape counts as often among the chosen as it may or as it does before.
      have hcount : (countOf found.counts (schemaSignature d) : Int) =
          min (max variants 0) ((documents.map schemaSignature).count (schemaSignature d)) := by
        rw [hcounts.count, hall, count_amongFirst]
      rw [greedyChoice, amongFirst_concat]
      split
      · have htaken : chooseByShape target variants found d =
            ⟨found.documents ++ [d], countShape found.counts (schemaSignature d)⟩ := if_neg (by omega)
        rw [htaken, ← hall, List.map_append]
        refine ⟨(List.take_of_length_le ?_).symm, hcounts.concat _⟩
        rw [List.length_append, List.length_singleton]
        omega
      · have hkept : chooseByShape target variants found d = found := if_pos (.inr (by omega))
        rw [hkept, List.append_nil]
        exact ⟨hchosen, hcounts⟩

theorem documents_chosenFrom (target : Nat) (variants : Int) (pages : List FeedPage) :
    (chosenFrom target variants ⟨[], []⟩ pages).documents =
      greedyChoice target variants ((rowsOf pages).filter Value.isMapping) :=
  (foldl_chooseByShape target variants _).1

end Sampling

structure Sample.Greedy (target : Nat) (variants : Int) (documents : List Value) (sample : Sample) : Prop where
  chosen : sample.documents = Sampling.greedyChoice target variants documents
  few : ∀ d ∈ sample.documents, ((sample.documents.map schemaSignature).count (schemaSignature d) : Int) ≤ variants
  short : sample.documents.length < target → ∀ shape, ((sample.documents.map schemaSignature).count shape : Int) =
    min (max variants 0) ((documents.map schemaSignature).count shape)
  status : sample.status = if sample.documents.length = target then .completed else .incomplete
  schemaVariants : sample.schemaVariants = some (sample.documents.map schemaSignature).toFinset.card

theorem Sample.Greedy.charged {target : Nat} {variants : Int} {documents : List Value} {sample : Sample}
    (h : sample.Greedy target variants documents) (charge : Double) :
    { sample with charge }.Greedy target variants documents :=
  ⟨h.chosen, h.few, h.short, h.status, h.schemaVariants⟩

namespace Sampling

theorem count_greedyChoice_le (target : Nat) (variants : Int) (documents : List Value) (shape : String) :
    (((greedyChoice target variants documents).map schemaSignature).count shape : Int) ≤ max variants 0 := by
  have hsub := ((List.take_sublist target (amongFirst schemaSignature variants documents)).map
    schemaSignature).count_le shape
  have hall := count_amongFirst schemaSignature variants shape documents
  rw [greedyChoice]
  omega

theorem sampleSchema_greedy (source : RowSource ω) (target : Nat) (variants : Int) (w : ω) :
    (source.sampleSchema target variants w).1.Greedy target variants
      ((source.rows .scan w).1.filter Value.isMapping) := by
  generalize hdocuments : (source.rows .scan w).1.filter Value.isMapping = documents
  have hsample : (source.sampleSchema target variants w).1 =
      { Sample.complete (documents.foldl (chooseByShape target variants) ⟨[], []⟩).documents with
        status := if target ≤ (documents.foldl (chooseByShape target variants) ⟨[], []⟩).documents.length
          then .completed else .incomplete
        schemaVariants := some (documents.foldl (chooseByShape target variants) ⟨[], []⟩).counts.length } := by
    rw [← hdocuments]
    rfl
  obtain ⟨hchosen, hcounts⟩ := foldl_chooseByShape target variants documents
  rw [hsample]
  generalize documents.foldl (chooseByShape target variants) ⟨[], []⟩ = found at hchosen hcounts ⊢
  have hsize : found.documents.length ≤ target := by
    rw [hchosen]
    exact List.length_take_le _ _
  refine ⟨hchosen, fun d hd => ?_, fun hless shape => ?_, ?_, congrArg some hcounts.length⟩
  · have hmost := count_greedyChoice_le target variants documents (schemaSignature d)
    rw [← hchosen] at hmost
    have hone : 0 < (found.documents.map schemaSignature).count (schemaSignature d) :=
      List.count_pos_iff.mpr (List.mem_map_of_mem hd)
    change ((found.documents.map schemaSignature).count (schemaSignature d) : Int) ≤ variants
    omega
  · rw [← count_amongFirst, ← greedyChoice_of_lt (hchosen ▸ hless), ← hchosen]
    rfl
  · change (if target ≤ found.documents.length then SampleStatus.completed else .incomplete) =
      if found.documents.length = target then .completed else .incomplete
    exact if_congr ⟨fun h => Nat.le_antisymm hsize h, fun h => h.ge⟩ rfl rfl

/-- The documents are chosen from these pages, and the pages before each of them have too few. -/
structure NeedsPages (target : Nat) (variants : Int) (pages : List FeedPage) (documents : List Value) : Prop where
  chosen : documents = greedyChoice target variants ((rowsOf pages).filter Value.isMapping)
  openBefore : ∀ k < pages.length,
    (greedyChoice target variants ((rowsOf (pages.take k)).filter Value.isMapping)).length < target

theorem sampleSchema_pages {store : Store σ φ} {plan : SamplingPlan} (hstrategy : plan.strategy = .schema) {s : σ}
    {sample : Sample} {a : SamplingAttempt (σ × List FeedPage)}
    (hattempt : attemptOn store.recorded plan (s, []) [] = (.ok sample, a)) :
    NeedsPages plan.limits.target plan.variants a.store.2 sample.documents := by
  obtain ⟨taken, htaken, rfl⟩ := attemptOn_eq_ok store.recorded plan hattempt
  have hby : sampleBy store.recorded plan = sampleSchema store.recorded plan.limits plan.variants := by
    rw [sampleBy, hstrategy]
  rw [hby] at htaken
  obtain ⟨-, pages, added, -, hreads, hyields⟩ :=
    sampleSchema_readsTo store plan.limits plan.variants (.initial (s, []) [])
  rw [htaken] at hreads hyields
  obtain rfl : a.store.2 = pages := hreads.kept
  obtain ⟨-, hdocuments, hbefore⟩ := hyields taken rfl
  simp only [documents_chosenFrom] at hdocuments hbefore
  exact ⟨hdocuments, hbefore⟩

section Samples

variable {store : Store σ φ} {source : RowSource ω} {stands : σ → ω → Prop}

theorem sample_greedy (source : RowSource ω) {plan : SamplingPlan} (hstrategy : plan.strategy = .schema) (w : ω) :
    (source.sample plan w).1.Greedy plan.limits.target plan.variants
      ((source.rows .scan w).1.filter Value.isMapping) := by
  rw [RowSource.sample, hstrategy]
  exact sampleSchema_greedy source _ _ w

/-- Without failures and without a limit on the units, a sample by schema is the greedy choice among the
documents of the scan, and it needs all the pages that are delivered to it, as a recorded store keeps them. -/
theorem draw_greedy (hserves : store.Serves source stands) (h : RetryHost η) (policy : RetryPolicy)
    (plan : SamplingPlan) (hstrategy : plan.strategy = .schema) (hfree : plan.limits.maxCharge = none)
    {s : SamplingState σ η} {w : ω} (hs : stands s.store w)
    (hhost : h.isCancelled (noteSize h plan s.host) = false) :
    ∃ sample, (draw store h policy plan s).1 = .ok sample ∧
      sample.Greedy plan.limits.target plan.variants ((source.rows .scan w).1.filter Value.isMapping) ∧
      ∃ after, draw store.recorded h policy plan ⟨(s.store, []), s.host, s.progress⟩ = (.ok sample, after) ∧
        NeedsPages plan.limits.target plan.variants after.store.2 sample.documents := by
  obtain ⟨a, hattempt⟩ := attemptOn_byRows hserves plan hfree hs
  have hrecorded := attemptOn_recorded store plan s.store [] []
  rw [hattempt] at hrecorded
  have hkept : attemptOn store.recorded plan (s.store, []) [] = (.ok _, _) :=
    Prod.ext (congrArg Prod.fst hrecorded).symm rfl
  obtain ⟨after, hdrawn, hafter⟩ := exists_draw_of_attemptOn (s := ⟨(s.store, []), s.host, s.progress⟩) policy
    hhost hkept
  have hgreedy := (sample_greedy source hstrategy w).charged a.charge
  have hpages := sampleSchema_pages hstrategy hkept
  rw [← hafter] at hpages
  exact ⟨_, draw_of_attemptOn hhost hattempt, hgreedy, after, hdrawn, hpages⟩

def reading (i : Int) : Value :=
  .record [("at", .whole i)]

def readingIn (unit : String) (i : Int) : Value :=
  .record [("at", .whole i), ("unit", .text unit)]

theorem keyed_reading (i : Int) : (reading i).Keyed ["at"] :=
  Value.keyed_record rfl (by decide +kernel) (by decide +kernel)

theorem keyed_readingIn (unit : String) (i : Int) : (readingIn unit i).Keyed ["at", "unit"] :=
  Value.keyed_record rfl (by decide +kernel) (by decide +kernel)

theorem schemaSignature_reading (i : Int) : schemaSignature (reading i) = "at" := by
  rw [(keyed_reading i).schemaSignature_eq (by decide +kernel)]
  decide +kernel

theorem schemaSignature_readingIn (unit : String) (i : Int) : schemaSignature (readingIn unit i) = "at|unit" := by
  rw [(keyed_readingIn unit i).schemaSignature_eq (by decide +kernel)]
  decide +kernel

def pagedScan (pages : List (List Value)) : FeedStore where
  feeds := [.free pages]
  queries := []

theorem delivers_pagedScan (pages : List (List Value)) : ∀ feed ∈ (pagedScan pages).feeds, feed.Delivers :=
  List.forall_mem_singleton.mpr (PageFeed.delivers_free pages)

def readings : FeedStore :=
  pagedScan [[reading 1, .whole 7, reading 2], [reading 3, readingIn "K" 4], [readingIn "K" 5]]

def threeReadings : SamplingPlan where
  strategy := .schema
  limits := ⟨3, none⟩
  partitionPath := none
  variants := 2
  shuffle := (id : List Value → List Value)

theorem draw_greedy_readings :
    ∃ sample, (draw (FeedStore.store none) (RetryScript.host FreeDate.atYear2000) RetryPolicy.standard threeReadings
        ⟨readings, .start false none [] [], []⟩).1 = .ok sample ∧
      sample.documents = [reading 1, reading 2, readingIn "K" 4] ∧ sample.status = .completed ∧
      sample.schemaVariants = some 2 := by
  obtain ⟨sample, hsample, hgreedy, -⟩ := draw_greedy (FeedStore.serves none) (RetryScript.host FreeDate.atYear2000)
    RetryPolicy.standard threeReadings rfl rfl (s := ⟨readings, .start false none [] [], []⟩)
    ⟨delivers_pagedScan _, rfl⟩ rfl
  have hchosen : sample.documents = [reading 1, reading 2, readingIn "K" 4] := by
    refine hgreedy.chosen.trans ?_
    change greedyChoice 3 2 [reading 1, reading 2, reading 3, readingIn "K" 4, readingIn "K" 5] = _
    simp [greedyChoice, amongFirst, schemaSignature_reading, schemaSignature_readingIn]
  refine ⟨sample, hsample, hchosen, ?_, ?_⟩
  · rw [hgreedy.status, hchosen]
    rfl
  · rw [hgreedy.schemaVariants, hchosen]
    simp [schemaSignature_reading, schemaSignature_readingIn]

/-- What the signatures of two records tell about their shapes. -/
structure TellShapes (a b : Value) : Prop where
  pieces : schemaSignature a = schemaSignature b ↔ a.shapePieces = b.shapePieces
  same : a.shape = b.shape → schemaSignature a = schemaSignature b
  plain : a.PlainlyKeyed → b.PlainlyKeyed → schemaSignature a = schemaSignature b → a.shape = b.shape

/-- Signatures are the same if shapes are, and exactly if the keys of the shapes have the same pieces between
bars.  Where keys are plain they tell shapes apart, so that a sample has the first few documents of every
shape. -/
theorem draw_byShape :
    (∀ a b : Value, a.IsRecord → b.IsRecord → TellShapes a b) ∧
    ∀ {store : Store σ φ} {source : RowSource ω} {stands : σ → ω → Prop}, store.Serves source stands →
      ∀ (h : RetryHost η) (policy : RetryPolicy) (plan : SamplingPlan), plan.strategy = .schema →
        plan.limits.maxCharge = none → ∀ (s : SamplingState σ η) (w : ω), stands s.store w →
        h.isCancelled (noteSize h plan s.host) = false →
        (∀ d ∈ (source.rows .scan w).1, d.isMapping = true → d.IsRecord ∧ d.PlainlyKeyed) →
        ∃ sample, (draw store h policy plan s).1 = .ok sample ∧ sample.documents =
          (amongFirst Value.shape plan.variants ((source.rows .scan w).1.filter Value.isMapping)).take
            plan.limits.target := by
  refine ⟨fun a b ha hb => ⟨ha.schemaSignature_eq_iff hb, ha.schemaSignature_of_shape hb,
    fun hplain hplain' => (ha.schemaSignature_eq_iff_shape hb hplain hplain').mp⟩, ?_⟩
  intro store source stands hserves h policy plan hstrategy hfree s w hs hhost hrows
  obtain ⟨charge, hdrawn⟩ := draw_byRows hserves h policy plan hfree hs hhost
  refine ⟨_, hdrawn, (sample_greedy source hstrategy w).chosen.trans (congrArg (List.take _) ?_)⟩
  refine amongFirst_congr _ _ fun a ha b hb => ?_
  obtain ⟨ha, hmapping⟩ := List.mem_filter.mp ha
  obtain ⟨hb, hmapping'⟩ := List.mem_filter.mp hb
  obtain ⟨hrecord, hplain⟩ := hrows a ha hmapping
  obtain ⟨hrecord', hplain'⟩ := hrows b hb hmapping'
  exact hrecord.schemaSignature_eq_iff_shape hrecord' hplain hplain'

theorem draw_byShape_readings :
    ∃ sample, (draw (FeedStore.store none) (RetryScript.host FreeDate.atYear2000) RetryPolicy.standard threeReadings
        ⟨readings, .start false none [] [], []⟩).1 = .ok sample ∧
      sample.documents = (amongFirst Value.shape 2
        [reading 1, reading 2, reading 3, readingIn "K" 4, readingIn "K" 5]).take 3 := by
  have hreading (i : Int) : (reading i).IsRecord ∧ (reading i).PlainlyKeyed :=
    ⟨(keyed_reading i).isRecord, (keyed_reading i).plainlyKeyed (by decide +kernel) (by decide +kernel)⟩
  have hreadingIn (i : Int) : (readingIn "K" i).IsRecord ∧ (readingIn "K" i).PlainlyKeyed :=
    ⟨(keyed_readingIn "K" i).isRecord, (keyed_readingIn "K" i).plainlyKeyed (by decide +kernel) (by decide +kernel)⟩
  refine draw_byShape.2 (FeedStore.serves none) (RetryScript.host FreeDate.atYear2000) RetryPolicy.standard threeReadings rfl rfl
    ⟨readings, .start false none [] [], []⟩ _ ⟨delivers_pagedScan _, rfl⟩ rfl fun d hd hmapping => ?_
  change d ∈ [reading 1, .whole 7, reading 2, reading 3, readingIn "K" 4, readingIn "K" 5] at hd
  simp only [List.mem_cons, List.not_mem_nil, or_false] at hd
  obtain rfl | rfl | rfl | rfl | rfl | rfl := hd
  · exact hreading 1
  · cases hmapping
  · exact hreading 2
  · exact hreading 3
  · exact hreadingIn 4
  · exact hreadingIn 5

def barred : Value :=
  .record [("a|b", .whole 1)]

def unbarred : Value :=
  .record [("a", .whole 1), ("b", .whole 2)]

def barredFeed : FeedStore :=
  pagedScan [[barred, unbarred]]

def oneOfEachShape : SamplingPlan :=
  { threeReadings with limits := ⟨2, none⟩, variants := 1 }

theorem draw_not_byShape_barred :
    (barred.IsRecord ∧ unbarred.IsRecord) ∧ barred.shape ≠ unbarred.shape ∧
      schemaSignature barred = schemaSignature unbarred ∧
      ∃ sample, (draw (FeedStore.store none) (RetryScript.host FreeDate.atYear2000) RetryPolicy.standard oneOfEachShape
        ⟨barredFeed, .start false none [] [], []⟩).1 = .ok sample ∧
      sample.documents = [barred] ∧ sample.status = .incomplete := by
  have hbarred : barred.Keyed ["a|b"] := Value.keyed_record rfl (by decide +kernel) (by decide +kernel)
  have hunbarred : unbarred.Keyed ["a", "b"] := Value.keyed_record rfl (by decide +kernel) (by decide +kernel)
  have hsignature : schemaSignature barred = schemaSignature unbarred := by
    rw [hbarred.schemaSignature_eq (by decide +kernel), hunbarred.schemaSignature_eq (by decide +kernel)]
    decide +kernel
  have hshapes : barred.shape ≠ unbarred.shape := by
    rw [hbarred.shape_eq, hunbarred.shape_eq]
    decide +kernel
  obtain ⟨charge, hdrawn⟩ := draw_byRows (FeedStore.serves none) (RetryScript.host FreeDate.atYear2000) RetryPolicy.standard
    oneOfEachShape rfl (s := ⟨barredFeed, .start false none [] [], []⟩) ⟨delivers_pagedScan _, rfl⟩ rfl
  have hstrategy : oneOfEachShape.strategy = .schema := rfl
  have hgreedy := sample_greedy (.ofLists none) hstrategy (barredFeed.feeds.map PageFeed.rows)
  have hchosen : ((RowSource.ofLists none).sample oneOfEachShape (barredFeed.feeds.map PageFeed.rows)).1.documents =
      [barred] := by
    refine hgreedy.chosen.trans ?_
    change greedyChoice 2 1 [barred, unbarred] = _
    simp [greedyChoice, amongFirst, hsignature]
  refine ⟨⟨hbarred.isRecord, hunbarred.isRecord⟩, hshapes, hsignature, _, hdrawn, hchosen, hgreedy.status.trans ?_⟩
  rw [hchosen]
  rfl

end Samples

end Sampling

end SchemaInference
