import SchemaInference.Moment.FreeDate
import SchemaInference.Proofs.Sampling.Rows
import SchemaInference.Retry.Script

set_option autoImplicit false

namespace SchemaInference.Sampling

open Steps (Computes)

variable {σ τ φ ψ ω η α : Type}

structure Standing (stands : σ → ω → Prop) (earlier : List (List Value)) (a : SamplingAttempt σ) (w : ω) :
    Prop where
  store : stands a.store w
  within : a.overBudget = false
  shuffled : a.shuffled = earlier

variable {stands : σ → ω → Prop} {earlier : List (List Value)} {limits : SamplingLimits}

theorem documentsOf_computes (rows : List Value) :
    Computes (Standing stands earlier) (Standing stands earlier) (documentsOf rows)
      (pure (rows.filter Value.isMapping)) := by
  intro a w ha
  unfold documentsOf
  dsimp only
  split <;> exact ⟨_, rfl, ha.store, ha.within, ha.shuffled⟩

theorem report_computes (limits : SamplingLimits) (added : Nat) :
    Computes (Standing stands earlier) (Standing stands earlier) (report limits added) (pure ()) :=
  fun _ _ ha => ⟨_, rfl, ha.store, ha.within, ha.shuffled⟩

theorem note_computes (text : String) :
    Computes (Standing stands earlier) (Standing stands earlier) (note text) (pure ()) :=
  fun _ _ ha => ⟨_, rfl, ha.store, ha.within, ha.shuffled⟩

section Unlimited

variable (hfree : limits.maxCharge = none)
include hfree

theorem isOverBudget_unlimited {a : SamplingAttempt σ} (ha : a.overBudget = false) :
    (isOverBudget limits).run a = (.ok false, a) := by
  have hover : (a.overBudget || limits.reachedBy a.charge) = false := by
    rw [ha, SamplingLimits.reachedBy, hfree]
    rfl
  rw [isOverBudget_run, hover, ← ha]

theorem isOverBudget_computes :
    Computes (Standing stands earlier) (Standing stands earlier) (isOverBudget limits) (pure false) :=
  fun a _ ha => ⟨a, isOverBudget_unlimited hfree ha.within, ha⟩

variable {store : Store σ φ}

theorem checked_fetchPage_run {a : SamplingAttempt σ} (ha : a.overBudget = false) {feed next : φ} {page : FeedPage}
    {spent : Double} {t : σ} (hfetch : store.fetch feed a.store = (.ok page, next, t))
    (hspent : page.spent = .ok spent) (d : Sampling σ α) (f : List Value × φ → Sampling σ α) :
    (isOverBudget limits >>= fun isOver => if isOver then d else fetchPage store feed >>= f).run a =
      (f (page.rows, next)).run { a with store := t, charge := a.charge.add .binary64 spent } := by
  rw [Steps.run_bind, isOverBudget_unlimited hfree ha]
  dsimp only
  rw [if_neg Bool.false_ne_true, Steps.run_bind, fetchPage_run, hfetch]
  simp only [hspent]

omit hfree in
theorem upTo_of_reached {limit : Option Nat} {rows : List Value} (h : reached limit rows = true)
    (more : List Value) : upTo limit (rows ++ more) = upTo limit rows := by
  cases limit with
  | none => cases h
  | some n =>
    have hn : n ≤ rows.length := by simpa [reached] using h
    exact List.take_append_of_le_length hn

/-- Reading stops at the end of a page, but the rows beyond it are cut off. -/
theorem readPages_yields {w : ω} {n : Nat} {feed : φ} {s : σ} {rows : List Value}
    (h : store.Yields (stands · w) n feed s rows) (hs : stands s w) (limit : Option Nat) (before : List Value)
    {a : SamplingAttempt σ} (ha : Standing (fun t (_ : ω) => t = s) earlier a w) :
    ∃ out b, (readPages store limits limit n feed before).run a = (.ok out, b) ∧
      upTo limit out = upTo limit (before ++ rows) ∧ Standing stands earlier b w := by
  induction h generalizing before a with
  | @ended n feed s hmore =>
    have hdone : Standing stands earlier a w := ⟨ha.store ▸ hs, ha.within, ha.shuffled⟩
    refine ⟨before, a, ?_, by rw [List.append_nil], hdone⟩
    cases n with
    | zero => rfl
    | succ n =>
      unfold readPages
      rw [hmore]
      rfl
  | @page n feed next s t page spent rows hmore hfetch hspent ht _ ih =>
    -- Either the limit falls into this page, and cuts off all that is left, or the next page follows.
    unfold readPages
    rw [hmore, if_neg (by decide), checked_fetchPage_run hfree ha.within (ha.store ▸ hfetch) hspent]
    dsimp only
    have hnext : Standing (fun t' (_ : ω) => t' = t) earlier
        { a with store := t, charge := a.charge.add .binary64 spent } w := ⟨rfl, ha.within, ha.shuffled⟩
    split
    · rename_i hreached
      refine ⟨before ++ page.rows, _, rfl, ?_, ht, ha.within, ha.shuffled⟩
      rw [← List.append_assoc]
      exact (upTo_of_reached hreached rows).symm
    · obtain ⟨out, b, hrun, hout, hb⟩ := ih ht (before ++ page.rows) hnext
      rw [List.append_assoc] at hout
      exact ⟨out, b, hrun, hout, hb⟩

omit hfree in
theorem foldl_chooseByShape_of_le {target : Nat} {variants : Int} {found : ShapeSample}
    (h : target ≤ found.documents.length) (documents : List Value) :
    documents.foldl (chooseByShape target variants) found = found := by
  induction documents with
  | nil => rfl
  | cons d documents ih =>
    have hkept : chooseByShape target variants found d = found := if_pos (.inl h)
    rw [List.foldl_cons, hkept, ih]

/-- Reading stops before the end of a feed only once there are enough documents. -/
theorem readShapes_yields {w : ω} {n : Nat} {feed : φ} {s : σ} {rows : List Value}
    (h : store.Yields (stands · w) n feed s rows) (hs : stands s w) (variants : Int) (found : ShapeSample)
    {a : SamplingAttempt σ} (ha : Standing (fun t (_ : ω) => t = s) earlier a w) :
    ∃ b, (readShapes store limits variants n feed found).run a =
        (.ok ((rows.filter Value.isMapping).foldl (chooseByShape limits.target variants) found), b) ∧
      Standing stands earlier b w := by
  induction h generalizing found a with
  | @ended n feed s hmore =>
    refine ⟨a, ?_, ha.store ▸ hs, ha.within, ha.shuffled⟩
    cases n with
    | zero => rfl
    | succ n =>
      unfold readShapes
      rw [hmore]
      rfl
  | @page n feed next s t page spent rows hmore hfetch hspent ht _ ih =>
    unfold readShapes
    by_cases hfull : limits.target ≤ found.documents.length
    · rw [if_pos (by simp [hfull]), foldl_chooseByShape_of_le hfull]
      exact ⟨a, rfl, ha.store ▸ hs, ha.within, ha.shuffled⟩
    · rw [if_neg (by simp [hfull, hmore]), checked_fetchPage_run hfree ha.within (ha.store ▸ hfetch) hspent]
      dsimp only
      have hnext : Standing (fun t' (_ : ω) => t' = t) earlier
          { a with store := t, charge := a.charge.add .binary64 spent } w := ⟨rfl, ha.within, ha.shuffled⟩
      obtain ⟨a', hdocuments, ha'⟩ := documentsOf_computes page.rows _ w hnext
      rw [Steps.run_bind, hdocuments, List.filter_append, List.foldl_append]
      obtain ⟨a'', hreport, ha''⟩ := report_computes limits _ a' w ha'
      dsimp only
      rw [Steps.run_bind, hreport]
      exact ih ht _ ha''

variable {source : RowSource ω} (hserves : store.Serves source stands)
include hserves

theorem drain_computes (q : SampleQuery) (limit : Option Nat) :
    Computes (Standing stands earlier) (Standing stands earlier) (drain store limits q limit) (do
      let rows ← source.rows q
      return upTo limit rows) := by
  intro a w ha
  obtain ⟨out, b, hrun, hout, hb⟩ := readPages_yields hfree (hserves.yields q a.store w ha.store)
    (hserves.start q a.store w ha.store) limit []
    (a := { a with store := (store.start q a.store).2 }) ⟨rfl, ha.within, ha.shuffled⟩
  refine ⟨b, ?_, hb⟩
  change ((readPages store limits limit (store.bound (store.start q a.store).1 (store.start q a.store).2)
      (store.start q a.store).1 []) >>= fun rows => pure (upTo limit rows)).run
    { a with store := (store.start q a.store).2 } = (.ok (upTo limit (source.rows q w).1), b)
  rw [Steps.run_bind, hrun, ← List.nil_append (source.rows q w).1, ← hout]
  rfl

theorem documents_computes (q : SampleQuery) (limit : Nat) {f : List Value → Sampling σ α}
    {g : List Value → StateM ω α} {after : SamplingAttempt σ → ω → Prop}
    (hnext : ∀ documents, Computes (Standing stands earlier) after (f documents) (g documents)) :
    Computes (Standing stands earlier) after
      (drain store limits q (some limit) >>= fun rows => documentsOf rows >>= f) (source.documents q limit >>= g) :=
  (drain_computes hfree hserves q (some limit)).bind fun rows =>
    (documentsOf_computes rows).quiet_bind (hnext (rows.filter Value.isMapping))

theorem sampleTop_computes :
    Computes (Standing stands earlier) (Standing stands earlier) (sampleTop store limits)
      (source.sampleTop limits.target) :=
  documents_computes hfree hserves _ _ fun _ => (report_computes limits _).quiet_bind (.pure _)

theorem sampleRandom_computes (shuffle : Shuffle) :
    Computes (Standing stands []) (fun a _ => a.overBudget = false) (sampleRandom store limits shuffle)
      (source.sampleRandom limits.target shuffle) := by
  refine documents_computes hfree hserves _ _ fun documents => ?_
  intro a w ha
  have hchosen : shuffle.order [] documents = shuffle.order a.shuffled documents := by rw [ha.shuffled]
  rw [hchosen]
  exact ⟨_, rfl, ha.within⟩

theorem sampleSchema_computes (variants : Int) :
    Computes (Standing stands earlier) (Standing stands earlier) (sampleSchema store limits variants)
      (source.sampleSchema limits.target variants) := by
  intro a w ha
  obtain ⟨b, hrun, hb⟩ := readShapes_yields hfree (hserves.yields .scan a.store w ha.store)
    (hserves.start .scan a.store w ha.store) variants ⟨[], []⟩
    (a := { a with store := (store.start .scan a.store).2 }) ⟨rfl, ha.within, ha.shuffled⟩
  refine ⟨b, ?_, hb⟩
  unfold sampleSchema
  change (readShapes store limits variants (store.bound (store.start .scan a.store).1 (store.start .scan a.store).2)
      (store.start .scan a.store).1 ⟨[], []⟩ >>= _).run { a with store := (store.start .scan a.store).2 } = _
  rw [Steps.run_bind, hrun]
  rfl

omit hfree in
theorem askStore_computes :
    Computes (Standing stands earlier) (Standing stands earlier) (resolvePartitionPath.askStore store)
      source.toldPath := by
  intro a w ha
  have hpath := hserves.partitionPath
  unfold resolvePartitionPath.askStore RowSource.toldPath
  generalize store.partitionPath = asks, source.partitionPath = tells at hpath ⊢
  cases hpath with
  | none => exact ⟨a, rfl, ha⟩
  | @some ask tell htell =>
    obtain ⟨htold, hstands⟩ := htell a.store w ha.store
    exact ⟨{ a with store := (ask a.store).2 }, Prod.ext htold rfl, hstands, ha.within, ha.shuffled⟩

omit hfree in
theorem resolvePartitionPath_computes (given : Option String) :
    Computes (Standing stands earlier) (Standing stands earlier) (resolvePartitionPath store given)
      (source.resolvePath given) := by
  unfold resolvePartitionPath RowSource.resolvePath
  cases given.filter (!·.isEmpty) with
  | some path => exact .pure path
  | none =>
    refine (askStore_computes hserves).bind fun told => ?_
    cases told.filter (!·.isEmpty) with
    | some path => exact .pure path
    | none => exact (note_computes _).quiet_bind (.pure _)

theorem samplePartitions_computes (field : String) (shares : List (Value × Int)) (found : PartitionSample) :
    Computes (Standing stands earlier) (Standing stands earlier) (samplePartitions store limits field shares found)
      (source.samplePartitions limits.target field shares found) := by
  induction shares generalizing found with
  | nil => exact .pure found
  | cons share shares ih =>
    obtain ⟨key, quota⟩ := share
    unfold samplePartitions RowSource.samplePartitions
    split
    · exact .pure found
    · refine (isOverBudget_computes hfree).quiet_bind ?_
      exact documents_computes hfree hserves _ _ fun documents => (report_computes limits _).quiet_bind (ih _)

theorem samplePartition_computes (given : Option String) :
    Computes (Standing stands earlier) (Standing stands earlier) (samplePartition store limits given)
      (source.samplePartition limits.target given) := by
  unfold samplePartition RowSource.samplePartition
  refine (resolvePartitionPath_computes hserves given).bind fun path => ?_
  refine (drain_computes hfree hserves (.distinct (partitionField path)) none).bind fun rows => ?_
  dsimp only [upTo]
  cases splitEvenly limits.target (rows.filter fun k => !k.isNull).length with
  | error e => exact sampleTop_computes hfree hserves
  | ok quotas => exact (samplePartitions_computes hfree hserves _ _ _).bind fun found => .pure _

theorem sampleBy_computes {plan : SamplingPlan} (hlimits : plan.limits = limits) :
    Computes (Standing stands []) (fun a _ => a.overBudget = false) (sampleBy store plan) (source.sample plan) := by
  subst hlimits
  have hkept {m : Sampling σ Sample} {value : StateM ω Sample}
      (h : Computes (Standing stands []) (Standing stands []) m value) :
      Computes (Standing stands []) (fun a _ => a.overBudget = false) m value := by
    intro a w ha
    obtain ⟨b, hrun, hb⟩ := h a w ha
    exact ⟨b, hrun, hb.within⟩
  unfold sampleBy RowSource.sample
  cases plan.strategy with
  | top => exact hkept (sampleTop_computes hfree hserves)
  | random => exact sampleRandom_computes hfree hserves plan.shuffle
  | schema => exact hkept (sampleSchema_computes hfree hserves plan.variants)
  | partition => exact hkept (samplePartition_computes hfree hserves plan.partitionPath)

end Unlimited

theorem attemptOn_byRows {store : Store σ φ} {source : RowSource ω} (hserves : store.Serves source stands)
    (plan : SamplingPlan) (hfree : plan.limits.maxCharge = none) {s : σ} {w : ω} (hs : stands s w) :
    ∃ a, attemptOn store plan s [] = (.ok { (source.sample plan w).1 with charge := a.charge }, a) := by
  obtain ⟨a, hrun, hwithin⟩ := sampleBy_computes hfree hserves rfl (.initial s []) w ⟨hs, rfl, rfl⟩
  refine ⟨a, ?_⟩
  rw [attemptOn, byPlan_run, hrun]
  dsimp only
  rw [finish, hwithin]
  rfl

theorem draw_byRows {store : Store σ φ} {source : RowSource ω} (hserves : store.Serves source stands)
    (h : RetryHost η) (policy : RetryPolicy) (plan : SamplingPlan) (hfree : plan.limits.maxCharge = none)
    {s : SamplingState σ η} {w : ω} (hs : stands s.store w)
    (hhost : h.isCancelled (noteSize h plan s.host) = false) :
    ∃ charge, (draw store h policy plan s).1 = .ok { (source.sample plan w).1 with charge } := by
  obtain ⟨a, hattempt⟩ := attemptOn_byRows hserves plan hfree hs
  exact ⟨a.charge, draw_of_attemptOn hhost hattempt⟩

/-- Two stores that answer every query with the same rows, each in pages of its own, are sampled alike: the
samples are what the rows say, and may differ in what they have cost. -/
theorem draw_sameRows {store : Store σ φ} {other : Store τ ψ} {source : RowSource ω} {represents : τ → ω → Prop}
    (hstore : store.Serves source stands) (hother : other.Serves source represents)
    (h : RetryHost η) (policy : RetryPolicy) (plan : SamplingPlan) (hfree : plan.limits.maxCharge = none)
    {s : SamplingState σ η} {t : SamplingState τ η} {w : ω} (hs : stands s.store w) (ht : represents t.store w)
    (hhost : h.isCancelled (noteSize h plan s.host) = false)
    (hhost' : h.isCancelled (noteSize h plan t.host) = false) :
    ∃ sample sample', (draw store h policy plan s).1 = .ok sample ∧
      (draw other h policy plan t).1 = .ok sample' ∧ sample'.documents = sample.documents ∧
      sample'.status = sample.status ∧ sample'.partitionsCovered = sample.partitionsCovered ∧
      sample'.schemaVariants = sample.schemaVariants ∧
      sample = { (source.sample plan w).1 with charge := sample.charge } := by
  obtain ⟨charge, hdrawn⟩ := draw_byRows hstore h policy plan hfree hs hhost
  obtain ⟨charge', hdrawn'⟩ := draw_byRows hother h policy plan hfree ht hhost'
  exact ⟨_, _, hdrawn, hdrawn', rfl, rfl, rfl, rfl, rfl⟩

def regionRows : List (List Value) :=
  [[.text "east", .text "west"], [.record [("a", .whole 1)], .record [("a", .whole 2)], .record [("a", .whole 3)]],
    [.record [("b", .whole 1)]]]

def pagedBy (pages : List Value → List (List Value)) : FeedStore where
  feeds := regionRows.map fun rows => .free (pages rows)
  queries := []

theorem delivers_pagedBy (pages : List Value → List (List Value)) :
    ∀ feed ∈ (pagedBy pages).feeds, feed.Delivers :=
  PageFeed.delivers_map_free pages regionRows

def wholeAnswers : FeedStore :=
  pagedBy fun rows => [rows]

def singleRows : FeedStore :=
  pagedBy fun rows => rows.flatMap fun row => [[], [row]]

def threeByRegion : SamplingPlan where
  strategy := .partition
  limits := ⟨3, none⟩
  partitionPath := some "/region"
  variants := 3
  shuffle := (id : List Value → List Value)

theorem draw_sameRows_regions :
    ∃ sample sample', (draw (FeedStore.store none) (RetryScript.host FreeDate.atYear2000) RetryPolicy.standard threeByRegion
        ⟨wholeAnswers, .start false none [] [], []⟩).1 = .ok sample ∧
      (draw (FeedStore.store none) (RetryScript.host FreeDate.atYear2000) RetryPolicy.standard threeByRegion
        ⟨singleRows, .start false none [] [], []⟩).1 = .ok sample' ∧
      sample'.documents = sample.documents ∧ sample.documents.length = 3 ∧ sample'.partitionsCovered = some 2 := by
  obtain ⟨sample, sample', hsample, hsample', hdocuments, -, hcovered, -, -⟩ :=
    draw_sameRows (FeedStore.serves none) (FeedStore.serves none) (RetryScript.host FreeDate.atYear2000) RetryPolicy.standard
      threeByRegion rfl (s := ⟨wholeAnswers, .start false none [] [], []⟩)
      (t := ⟨singleRows, .start false none [] [], []⟩) ⟨delivers_pagedBy _, rfl⟩ ⟨delivers_pagedBy _, rfl⟩ rfl rfl
  have hsizes : (draw (FeedStore.store none) (RetryScript.host FreeDate.atYear2000) RetryPolicy.standard threeByRegion
      ⟨wholeAnswers, .start false none [] [], []⟩).1.toOption.map
        (fun sample => (sample.documents.length, sample.partitionsCovered)) = some (3, some 2) := by
    decide +kernel
  rw [hsample] at hsizes
  obtain ⟨hthree, htwo⟩ := Prod.mk.inj (Option.some.inj hsizes)
  exact ⟨sample, sample', hsample, hsample', hdocuments, hthree, hcovered.trans htwo⟩

end SchemaInference.Sampling
