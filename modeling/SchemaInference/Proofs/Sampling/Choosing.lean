import Mathlib.Data.List.Perm.Subperm
import SchemaInference.Proofs.Sampling.Reading

set_option autoImplicit false

namespace SchemaInference

/-- Documents that are chosen, in order, among the rows of some pages. -/
structure Chosen (pages : List FeedPage) (added : Nat) (documents : List Value) : Prop where
  size : documents.length = added
  mappings : ∀ d ∈ documents, d.isMapping = true
  inOrder : documents.Sublist (rowsOf pages)

namespace Chosen

variable {pages more : List FeedPage} {added plus : Nat} {documents others : List Value}

theorem none : Chosen pages 0 [] where
  size := rfl
  mappings := by simp
  inOrder := List.nil_sublist _

theorem append (h : Chosen pages added documents) (h' : Chosen more plus others) :
    Chosen (pages ++ more) (added + plus) (documents ++ others) where
  size := by rw [List.length_append, h.size, h'.size]
  mappings := List.forall_mem_append.mpr ⟨h.mappings, h'.mappings⟩
  inOrder := by
    rw [rowsOf_append]
    exact h.inOrder.append h'.inOrder

theorem after (before : List FeedPage) (h : Chosen pages added documents) :
    Chosen (before ++ pages) added documents := by
  have hbefore : Chosen before 0 [] := none
  simpa using hbefore.append h

theorem ofFilter {rows : List Value} (hchosen : documents.Sublist (rows.filter Value.isMapping))
    (hrows : rows.Sublist (rowsOf pages)) : Chosen pages documents.length documents where
  size := rfl
  mappings := fun _ hd => (List.mem_filter.mp (hchosen.subset hd)).2
  inOrder := hchosen.trans (List.filter_sublist.trans hrows)

end Chosen

/-- Documents that are chosen, in whatever order, among the rows of some pages. -/
structure Picked (pages : List FeedPage) (added : Nat) (documents : List Value) : Prop where
  size : documents.length = added
  mappings : ∀ d ∈ documents, d.isMapping = true
  fromRows : documents.Subperm (rowsOf pages)

theorem Chosen.picked {pages : List FeedPage} {added : Nat} {documents : List Value}
    (h : Chosen pages added documents) : Picked pages added documents :=
  ⟨h.size, h.mappings, h.inOrder.subperm⟩

/-- A choice by shape takes some of the documents, in order, and no more than there is room for. -/
theorem Sampling.exists_foldl_chooseByShape (target : Nat) (variants : Int) (documents : List Value)
    (found : ShapeSample) :
    ∃ picked, (documents.foldl (chooseByShape target variants) found).documents = found.documents ++ picked ∧
      picked.Sublist documents ∧ picked.length ≤ target - found.documents.length := by
  induction documents generalizing found with
  | nil => exact ⟨[], by simp⟩
  | cons document documents ih =>
    rw [List.foldl_cons]
    obtain ⟨picked, hpicked, hsub, hroom⟩ := ih (chooseByShape target variants found document)
    by_cases hfull : target ≤ found.documents.length ∨ variants ≤ countOf found.counts (schemaSignature document)
    · have hkept : chooseByShape target variants found document = found := if_pos hfull
      rw [hkept] at hpicked hroom ⊢
      exact ⟨picked, hpicked, hsub.cons document, hroom⟩
    · have htaken : (chooseByShape target variants found document).documents = found.documents ++ [document] := by
        rw [chooseByShape, if_neg hfull]
      obtain ⟨hopen, -⟩ := not_or.mp hfull
      rw [htaken, List.length_append, List.length_singleton] at hroom
      refine ⟨document :: picked, ?_, hsub.cons_cons document, ?_⟩
      · rw [hpicked, htaken, List.append_assoc, List.singleton_append]
      · rw [List.length_cons]
        omega

namespace Sampling

variable {σ φ : Type} (store : Store σ φ) (limits : SamplingLimits) {most : Nat}

theorem documentsOf_readsTo (rows : List Value) :
    ReadsTo (σ := σ) limits 0 false (documentsOf rows) fun pages _ documents =>
      pages = [] ∧ documents = rows.filter Value.isMapping := by
  unfold documentsOf
  refine .ite (fun _ => ?_) fun _ => .pure ⟨rfl, rfl⟩
  exact (note_readsTo limits _).quiet_bind fun _ _ => .pure ⟨rfl, rfl⟩

theorem readPages_readsTo (limit : Option Nat) (fuel : Nat) (feed : φ) (rows : List Value) :
    ReadsTo limits 0 false (readPages store.recorded limits limit fuel feed rows) fun pages _ out =>
      out = rows ++ rowsOf pages := by
  induction fuel generalizing feed rows with
  | zero => exact .pure (by simp [rowsOf])
  | succ fuel ih =>
    unfold readPages
    refine .ite (fun _ => .pure (by simp [rowsOf])) fun _ => ?_
    refine fetchPage_readsTo store limits (.pure (by simp [rowsOf])) fun page feed => ?_
    refine .ite (fun _ => .pure (by simp [rowsOf])) fun _ => ?_
    refine (ih feed (rows ++ page.rows)).mono (Nat.le_refl _) fun more _ out _ hout => ?_
    rw [hout, rowsOf_cons, List.append_assoc]

theorem drain_readsTo (q : SampleQuery) (limit : Option Nat) :
    ReadsTo limits 0 false (drain store.recorded limits q limit) fun pages _ rows =>
      rows <+: rowsOf pages ∧ ∀ n ∈ limit, rows.length ≤ n := by
  unfold drain
  refine (openFeed_readsTo store limits q).quiet_bind fun feed _ => .get_bind fun a => ?_
  refine (readPages_readsTo store limits limit _ feed []).bind (Nat.le_refl _) fun pages added rows _ hrows => ?_
  obtain rfl : rows = rowsOf pages := by simpa using hrows
  refine .pure ?_
  rw [List.append_nil]
  cases limit with
  | none => exact ⟨List.prefix_rfl, by simp⟩
  | some n =>
    refine ⟨List.take_prefix n _, fun m hm => ?_⟩
    cases hm
    exact List.length_take_le n _

theorem documents_readsTo (q : SampleQuery) (n : Nat) {α : Type} {asks : Bool}
    {f : List Value → Sampling (σ × List FeedPage) α} {Yields : List FeedPage → Nat → α → Prop}
    (hnext : ∀ (pages : List FeedPage) (rows : List Value), rows.Sublist (rowsOf pages) → rows.length ≤ n →
      ReadsTo limits most asks (f (rows.filter Value.isMapping)) fun more plus x => Yields (pages ++ more) plus x) :
    ReadsTo limits most asks
      (drain store.recorded limits q (some n) >>= fun rows => documentsOf rows >>= f) Yields := by
  refine (drain_readsTo store limits q (some n)).bind (Nat.zero_le _) fun pages added rows hadded hrows => ?_
  obtain rfl := Nat.le_zero.mp hadded
  refine (documentsOf_readsTo limits rows).quiet_bind fun documents hdocuments => ?_
  rw [hdocuments]
  refine (hnext pages rows hrows.1.sublist (hrows.2 n rfl)).mono (Nat.le_refl _) fun more plus x _ hx => ?_
  rwa [Nat.zero_add]

def Extends {α : Type} (documentsIn : α → List Value) (found : List Value) (pages : List FeedPage) (added : Nat)
    (out : α) : Prop :=
  ∃ more, documentsIn out = found ++ more ∧ Chosen pages added more

theorem stop_readsTo {α : Type} (documentsIn : α → List Value) (found : α) :
    ReadsTo (σ := σ) limits most false (pure found) (Extends documentsIn (documentsIn found)) :=
  .pure ⟨[], (List.append_nil _).symm, .none⟩

theorem report_extends {α : Type} {documentsIn : α → List Value} {found batch : List Value}
    {pages : List FeedPage} {next : Sampling (σ × List FeedPage) α} (hbatch : Chosen pages batch.length batch)
    (hfits : batch.length ≤ limits.target - found.length)
    (hnext : ReadsTo limits (limits.target - (found ++ batch).length) false next
      (Extends documentsIn (found ++ batch))) :
    ReadsTo limits (limits.target - found.length) false (report limits batch.length >>= fun _ => next)
      fun more plus out => Extends documentsIn found (pages ++ more) plus out := by
  refine (report_readsTo limits hfits).bind (Nat.le_refl _) fun quiet reported _ _ hreport => ?_
  obtain ⟨rfl, rfl⟩ := hreport
  have hroom : limits.target - (found ++ batch).length ≤ limits.target - found.length - batch.length := by
    rw [List.length_append]
    omega
  refine hnext.mono hroom fun more plus out _ hout => ?_
  obtain ⟨rest, hrest, hchosen⟩ := hout
  exact ⟨batch ++ rest, by rw [hrest, List.append_assoc], hbatch.append hchosen⟩

theorem sampleTop_readsTo :
    ReadsTo limits limits.target false (sampleTop store.recorded limits) fun pages added sample =>
      Chosen pages added sample.documents ∧ sample.status ≠ .budgetExceeded := by
  unfold sampleTop
  refine documents_readsTo store limits _ _ fun pages rows hrows hsize => ?_
  have hfits : (rows.filter Value.isMapping).length ≤ limits.target :=
    Nat.le_trans (List.length_filter_le _ _) hsize
  refine (report_readsTo limits hfits).bind (Nat.le_refl _) fun more plus _ _ hreport => ?_
  obtain ⟨rfl, rfl⟩ := hreport
  exact .pure ⟨by simpa [Sample.complete] using Chosen.ofFilter (List.Sublist.refl _) hrows, by simp [Sample.complete]⟩

theorem askStore_readsTo :
    ReadsTo limits 0 false (resolvePartitionPath.askStore store.recorded) fun pages _ _ => pages = [] ∧ True := by
  unfold resolvePartitionPath.askStore
  simp only [Store.recorded]
  cases store.partitionPath with
  | none => exact .pure ⟨rfl, trivial⟩
  | some ask => exact fun _ => ⟨fun _ => rfl, [], 0, Nat.le_refl _, .quiet rfl rfl .inl rfl rfl, by simp⟩

theorem resolvePartitionPath_readsTo (given : Option String) :
    ReadsTo limits 0 false (resolvePartitionPath store.recorded given) fun pages _ _ => pages = [] ∧ True := by
  unfold resolvePartitionPath
  split
  · exact .pure ⟨rfl, trivial⟩
  · refine (askStore_readsTo store limits).quiet_bind fun told _ => ?_
    split
    · exact .pure ⟨rfl, trivial⟩
    · exact (note_readsTo limits _).quiet_bind fun _ _ => .pure ⟨rfl, trivial⟩

theorem samplePartitions_readsTo (field : String) (shares : List (Value × Int)) (found : PartitionSample) :
    ReadsTo limits (limits.target - found.documents.length) false
      (samplePartitions store.recorded limits field shares found)
      (Extends PartitionSample.documents found.documents) := by
  induction shares generalizing found with
  | nil => exact stop_readsTo limits _ found
  | cons share shares ih =>
    unfold samplePartitions
    refine .ite (fun _ => stop_readsTo limits _ found) fun _ => ?_
    refine (isOverBudget_readsTo limits).quiet_bind fun _ _ => .ite (fun _ => stop_readsTo limits _ found) fun _ => ?_
    refine documents_readsTo store limits _ _ fun pages rows hrows _ => ?_
    have hbatch : Chosen pages _ ((rows.filter Value.isMapping).take (limits.target - found.documents.length)) :=
      .ofFilter (List.take_sublist _ _) hrows
    exact report_extends limits hbatch (List.length_take_le _ _) (ih ⟨_, _⟩)

theorem samplePartition_readsTo (given : Option String) :
    ReadsTo limits limits.target false (samplePartition store.recorded limits given) fun pages added sample =>
      Chosen pages added sample.documents ∧ sample.status ≠ .budgetExceeded := by
  unfold samplePartition
  refine (resolvePartitionPath_readsTo store limits given).quiet_bind fun path _ => ?_
  refine (drain_readsTo store limits _ none).bind (Nat.zero_le _) fun pages added rows hadded _ => ?_
  obtain rfl := Nat.le_zero.mp hadded
  dsimp only
  split
  · refine (sampleTop_readsTo store limits).mono (Nat.le_refl _) fun more plus sample _ hsample => ?_
    rw [Nat.zero_add]
    exact ⟨hsample.1.after pages, hsample.2⟩
  · refine (samplePartitions_readsTo store limits _ _ _).bind (Nat.le_refl _) fun more plus found _ hfound => ?_
    refine .pure ?_
    obtain ⟨documents, hdocuments, hchosen⟩ := hfound
    rw [List.nil_append] at hdocuments
    exact ⟨by simpa [Sample.complete, hdocuments] using hchosen.after pages, by simp [Sample.complete]⟩

/-- What a choice by shape holds once the documents of some pages are looked at. -/
def chosenFrom (target : Nat) (variants : Int) (found : ShapeSample) (pages : List FeedPage) : ShapeSample :=
  ((rowsOf pages).filter Value.isMapping).foldl (chooseByShape target variants) found

theorem chosenFrom_cons (target : Nat) (variants : Int) (found : ShapeSample) (page : FeedPage)
    (pages : List FeedPage) : chosenFrom target variants found (page :: pages) =
      chosenFrom target variants
        ((page.rows.filter Value.isMapping).foldl (chooseByShape target variants) found) pages := by
  rw [chosenFrom, rowsOf_cons, List.filter_append, List.foldl_append]
  rfl

theorem readShapes_readsTo (variants : Int) (fuel : Nat) (feed : φ) (found : ShapeSample) :
    ReadsTo limits (limits.target - found.documents.length) false
      (readShapes store.recorded limits variants fuel feed found) fun pages added out =>
        out = chosenFrom limits.target variants found pages ∧
        out.documents.length = found.documents.length + added ∧
        ∀ k < pages.length, (chosenFrom limits.target variants found (pages.take k)).documents.length < limits.target := by
  induction fuel generalizing feed found with
  | zero => exact .pure ⟨rfl, rfl, by simp⟩
  | succ fuel ih =>
    unfold readShapes
    refine .ite (fun _ => .pure ⟨rfl, rfl, by simp⟩) fun hopen => ?_
    have hroom : found.documents.length < limits.target := by
      by_contra hfull
      exact hopen (by simp [Nat.le_of_not_lt hfull])
    refine fetchPage_readsTo store limits (.pure ⟨rfl, rfl, by simp⟩) fun page feed => ?_
    refine (documentsOf_readsTo limits page.rows).quiet_bind fun documents hdocuments => ?_
    subst hdocuments
    obtain ⟨picked, hpicked, -, hfits⟩ := exists_foldl_chooseByShape limits.target variants
      (page.rows.filter Value.isMapping) found
    have hcons := chosenFrom_cons limits.target variants found page
    generalize (page.rows.filter Value.isMapping).foldl (chooseByShape limits.target variants) found = next
      at hpicked hcons ⊢
    have hgrown : next.documents.length = found.documents.length + picked.length := by
      rw [hpicked, List.length_append]
    dsimp only
    refine (report_readsTo limits (by omega)).bind (Nat.le_refl _) fun quiet reported _ _ hreport => ?_
    obtain ⟨rfl, rfl⟩ := hreport
    refine (ih feed next).mono (by omega) fun more plus out _ hout => ?_
    obtain ⟨hall, hsize, hbefore⟩ := hout
    refine ⟨hall.trans (hcons more).symm, by omega, fun k hk => ?_⟩
    cases k with
    | zero => exact hroom
    | succ k =>
      rw [List.nil_append, List.take_succ_cons, hcons]
      exact hbefore k (Nat.lt_of_succ_lt_succ hk)

theorem sampleSchema_readsTo (variants : Int) :
    ReadsTo limits limits.target false (sampleSchema store.recorded limits variants) fun pages added sample =>
      (Chosen pages added sample.documents ∧ sample.status ≠ .budgetExceeded) ∧
      sample.documents = (chosenFrom limits.target variants ⟨[], []⟩ pages).documents ∧
      ∀ k < pages.length,
        (chosenFrom limits.target variants ⟨[], []⟩ (pages.take k)).documents.length < limits.target := by
  unfold sampleSchema
  refine (openFeed_readsTo store limits .scan).quiet_bind fun feed _ => .get_bind fun a => ?_
  refine (readShapes_readsTo store limits variants _ feed ⟨[], []⟩).bind (Nat.le_refl _)
    fun pages added found _ hfound => .pure ?_
  obtain ⟨rfl, hsize, hbefore⟩ := hfound
  obtain ⟨picked, hpicked, hsub, -⟩ := exists_foldl_chooseByShape limits.target variants
    ((rowsOf pages).filter Value.isMapping) ⟨[], []⟩
  replace hpicked : (chosenFrom limits.target variants ⟨[], []⟩ pages).documents = picked := hpicked
  obtain rfl : picked.length = added := by simpa [hpicked] using hsize
  rw [List.append_nil]
  refine ⟨⟨?_, by dsimp only; split <;> simp⟩, rfl, hbefore⟩
  simpa [Sample.complete, hpicked] using Chosen.ofFilter hsub (List.Sublist.refl _)

theorem shuffled_readsTo (shuffle : Shuffle) (documents : List Value) :
    ReadsTo (σ := σ) limits limits.target true
      (shuffled shuffle documents >>= fun order =>
        report limits (order.take limits.target).length >>= fun _ =>
          Pure.pure (Sample.complete (order.take limits.target)))
      fun pages added sample => pages = [] ∧ sample.documents.length = added ∧
        sample.status ≠ .budgetExceeded ∧
          ∃ earlier, sample.documents = (shuffle.order earlier documents).take limits.target := by
  intro a
  have hfits : ((shuffle.order a.shuffled documents).take limits.target).length ≤ limits.target :=
    List.length_take_le _ _
  have hreported : ReadsTo (σ := σ) limits limits.target false _ _ := report_readsTo limits hfits
  obtain ⟨-, pages, added, hadded, hreads, hreport⟩ := hreported { a with shuffled := a.shuffled ++ [documents] }
  obtain ⟨rfl, rfl⟩ := hreport () rfl
  refine ⟨fun hfails => (Bool.false_ne_true (hfails rfl).symm).elim, [], _, hadded, ?_, ?_⟩
  · exact ⟨hreads.kept, hreads.paid, hreads.below, hreads.reached, hreads.sampled, hreads.reports⟩
  · rintro sample ⟨⟩
    exact ⟨rfl, rfl, by simp [Sample.complete], a.shuffled, rfl⟩

theorem sampleRandom_readsTo {shuffle : Shuffle}
    (hshuffle : ∀ earlier documents, (shuffle.order earlier documents).Perm documents) :
    ReadsTo limits limits.target true (sampleRandom store.recorded limits shuffle) fun pages added sample =>
      Picked pages added sample.documents ∧ sample.status ≠ .budgetExceeded := by
  unfold sampleRandom
  refine documents_readsTo store limits _ _ fun pages rows hrows _ => ?_
  refine (shuffled_readsTo limits shuffle _).mono (Nat.le_refl _) fun more plus sample _ hsample => ?_
  obtain ⟨rfl, hsize, hstatus, earlier, hdocuments⟩ := hsample
  rw [List.append_nil]
  have hpicked : sample.documents.Subperm (rows.filter Value.isMapping) :=
    hdocuments ▸ (List.take_sublist _ _).subperm.trans (hshuffle earlier _).subperm
  exact ⟨⟨hsize, fun d hd => (List.mem_filter.mp (hpicked.subset hd)).2,
    hpicked.trans (List.filter_sublist.trans hrows).subperm⟩, hstatus⟩

variable (plan : SamplingPlan)

theorem sampleBy_readsTo (hshuffle : ∀ earlier documents, (plan.shuffle.order earlier documents).Perm documents) :
    ReadsTo plan.limits plan.limits.target true (sampleBy store.recorded plan) fun pages added sample =>
      Picked pages added sample.documents ∧ sample.status ≠ .budgetExceeded ∧
        (plan.strategy ≠ .random → sample.documents.Sublist (rowsOf pages)) := by
  have hordered {ordered : Prop} {m : Sampling (σ × List FeedPage) Sample}
      (h : ReadsTo plan.limits plan.limits.target false m fun pages added sample =>
        Chosen pages added sample.documents ∧ sample.status ≠ .budgetExceeded) :
      ReadsTo plan.limits plan.limits.target true m fun pages added sample =>
        Picked pages added sample.documents ∧ sample.status ≠ .budgetExceeded ∧
          (ordered → sample.documents.Sublist (rowsOf pages)) :=
    h.asking.mono (Nat.le_refl _) fun _ _ _ _ hsample =>
      ⟨hsample.1.picked, hsample.2, fun _ => hsample.1.inOrder⟩
  unfold sampleBy
  cases hstrategy : plan.strategy with
  | top => exact hordered (sampleTop_readsTo store plan.limits)
  | schema =>
    exact hordered ((sampleSchema_readsTo store plan.limits plan.variants).mono (Nat.le_refl _) fun _ _ _ _ h => h.1)
  | partition => exact hordered (samplePartition_readsTo store plan.limits plan.partitionPath)
  | random =>
    refine (sampleRandom_readsTo store plan.limits hshuffle).mono (Nat.le_refl _) fun _ _ _ _ hsample => ?_
    exact ⟨hsample.1, hsample.2, fun hother => absurd rfl hother⟩

end Sampling

end SchemaInference
