import SchemaInference.Proofs.Document.Trees
import SchemaInference.Proofs.Field.Guard
import SchemaInference.Proofs.Field.Sightings

set_option autoImplicit false

namespace SchemaInference

structure Graph.CountsAlike (g g' : Graph) (item item' : Item) : Prop where
  tag : g.tag item = g'.tag item'
  number : item.number? = item'.number?
  document : ∀ m : FieldMap, m.observeDocument g item = m.observeDocument g' item'

structure Graph.RecordsAlike (g g' : Graph) (item item' : Item) : Prop where
  counts : g.CountsAlike g' item item'
  elements : List.Forall₂ (g.CountsAlike g') (g.elements item) (g'.elements item')

variable {g g' : Graph} {item item' : Item} {items items' : List Item}

theorem Graph.CountsAlike.isMapping (h : g.CountsAlike g' item item') : g.isMapping item = g'.isMapping item' := by
  rw [Bool.eq_iff_iff, ← tag_eq_object_iff, ← tag_eq_object_iff, h.tag]

theorem Graph.CountsAlike.filter_isMapping (h : List.Forall₂ (g.CountsAlike g') items items') :
    List.Forall₂ (g.CountsAlike g') (items.filter g.isMapping) (items'.filter g'.isMapping) := by
  induction h with
  | nil => exact .nil
  | @cons item item' _ _ hhead _ ih =>
    rw [List.filter_cons, List.filter_cons, hhead.isMapping]
    by_cases hmapping : g'.isMapping item' = true
    · rw [if_pos hmapping, if_pos hmapping]
      exact .cons hhead ih
    · rw [if_neg hmapping, if_neg hmapping]
      exact ih

namespace FieldMap

theorem foldl_observeDocument_eq (h : List.Forall₂ (g.CountsAlike g') items items') (m : FieldMap) :
    items.foldl (.observeDocument g) m = items'.foldl (.observeDocument g') m := by
  induction h generalizing m with
  -- Not by `rfl`, which would compare the two walks before it looks at the lists.
  | nil => rw [List.foldl_nil, List.foldl_nil]
  | cons hhead _ ih =>
    rw [List.foldl_cons, List.foldl_cons, hhead.document]
    exact ih _

theorem foldl_observeElement_eq (h : List.Forall₂ (g.CountsAlike g') items items') (s : FieldStats) :
    items.foldl (fun s e => s.observeElement (g.tag e) e.number?) s =
      items'.foldl (fun s e => s.observeElement (g'.tag e) e.number?) s := by
  induction h generalizing s with
  | nil => rfl
  | cons hhead _ ih =>
    rw [List.foldl_cons, List.foldl_cons, hhead.tag, hhead.number]
    exact ih _

theorem observeEntry_eq (h : g.RecordsAlike g' item item') (m : FieldMap) (key : String) :
    m.observeEntry g key item = m.observeEntry g' key item' := by
  have hvalue : ∀ s : FieldStats, s.observeValue g item = s.observeValue g' item' := by
    intro s
    rw [FieldStats.observeValue, FieldStats.observeValue, h.counts.tag, h.counts.number]
    exact foldl_observeElement_eq h.elements _
  have hobjects : ∀ m : FieldMap, (g.objectsOf item).foldl (.observeDocument g) m =
      (g'.objectsOf item').foldl (.observeDocument g') m := by
    intro m
    rw [Graph.objectsOf, Graph.objectsOf, h.counts.isMapping]
    by_cases hmapping : g'.isMapping item' = true
    · rw [if_pos hmapping, if_pos hmapping]
      exact h.counts.document m
    · rw [if_neg hmapping, if_neg hmapping]
      exact foldl_observeDocument_eq (Graph.CountsAlike.filter_isMapping h.elements) m
  rw [observeEntry, observeEntry, hobjects]
  simp only [hvalue]

theorem observeEntries_eq {entries entries' : List (Value × Item)}
    (h : List.Forall₂ (fun e e' => e.1 = e'.1 ∧ g.RecordsAlike g' e.2 e'.2) entries entries') (m : FieldMap) :
    m.observeEntries g entries = m.observeEntries g' entries' := by
  unfold observeEntries
  induction h generalizing m with
  | nil => rw [List.foldl_nil, List.foldl_nil]
  | cons hhead _ ih =>
    rw [List.foldl_cons, List.foldl_cons, hhead.1, observeEntry_eq hhead.2]
    exact ih _

end FieldMap

theorem forall₂_of_keys {α β : Type} {R : β → β → Prop} {entries entries' : List (α × β)}
    (hkeys : entries.map (·.1) = entries'.map (·.1))
    (hvalues : List.Forall₂ R (entries.map (·.2)) (entries'.map (·.2))) :
    List.Forall₂ (fun e e' => e.1 = e'.1 ∧ R e.2 e'.2) entries entries' := by
  induction entries generalizing entries' with
  | nil =>
    cases entries' with
    | nil => exact .nil
    | cons => cases hkeys
  | cons e entries ih =>
    cases entries' with
    | nil => cases hkeys
    | cons e' entries' =>
      obtain ⟨hkey, hkeys⟩ := List.cons_eq_cons.mp hkeys
      obtain ⟨hvalue, hvalues⟩ := List.forall₂_cons.mp hvalues
      exact .cons ⟨hkey, hvalue⟩ (ih hkeys hvalues)

theorem forall₂_of_zip {α β γ : Type} {P : α → β → Prop} {R : β → γ → Prop} {xs : List α} {ys : List β}
    {zs : List γ} (hlength : xs.length = zs.length)
    (h : ∀ p ∈ xs.zip zs, ∀ y, R y p.2 → P p.1 y) (hR : List.Forall₂ R ys zs) : List.Forall₂ P xs ys := by
  induction hR generalizing xs with
  | nil =>
    rw [List.length_nil, List.length_eq_zero_iff] at hlength
    rw [hlength]
    exact .nil
  | @cons y z ys zs hhead _ ih =>
    cases xs with
    | nil => cases hlength
    | cons x xs =>
      rw [List.zip_cons_cons, List.forall_mem_cons] at h
      exact .cons (h.1 y hhead) (ih (Nat.succ.inj hlength) h.2)

namespace Graph

theorem countsAlike_of_entries?_eq_none (h : g.Acyclic item) (h' : g'.Acyclic item')
    (hentries : g.entries? item = none) (hentries' : g'.entries? item' = none)
    (htag : g.tag item = g'.tag item') (hnumber : item.number? = item'.number?) :
    g.CountsAlike g' item item' where
  tag := htag
  number := hnumber
  document m := by
    rw [FieldMap.observeDocument_eq h, FieldMap.observeDocument_eq h', hentries, hentries']
    exact FieldMap.observeEntries_eq .nil m

theorem tag_eq_array {id : Nat} (hentries : g.entries? (.node id) = none) : g.tag (.node id) = .array := by
  simp [tag, isMapping, hentries]

theorem Shows.list_cases {values : List Value} (h : g.Shows item (.list values)) :
    ∃ id, item = .node id ∧ g.entries? item = none ∧ List.Forall₂ g.Shows (g.elements item) values := by
  cases h with
  | absent hnode =>
    refine ⟨_, rfl, by simp [entries?, hnode], ?_⟩
    simp [elements, items?, hnode]
  | list hnode hlength hitems =>
    refine ⟨_, rfl, by simp [entries?, hnode], ?_⟩
    simp only [elements, items?, hnode, Option.getD_some]
    exact List.forall₂_iff_zip.mpr ⟨hlength, fun hp => hitems _ hp⟩

theorem Shows.tuple_cases {values : List Value} (h : g.Shows item (.tuple values)) :
    ∃ id, item = .node id ∧ g.entries? item = none ∧ List.Forall₂ g.Shows (g.elements item) values := by
  cases h with
  | tuple hnode hlength hitems =>
    refine ⟨_, rfl, by simp [entries?, hnode], ?_⟩
    simp only [elements, items?, hnode, Option.getD_some]
    exact List.forall₂_iff_zip.mpr ⟨hlength, fun hp => hitems _ hp⟩

theorem Shows.recordsAlike {value : Value} (h : g.Shows item value) (h' : g'.Shows item' value) :
    g.RecordsAlike g' item item' := by
  have hacyclic := h.acyclic
  have hacyclic' := h'.acyclic
  induction h generalizing item' with
  | scalar s =>
    cases h' with
    | scalar => exact ⟨countsAlike_of_entries?_eq_none hacyclic hacyclic' rfl rfl rfl rfl, .nil⟩
  | foreign =>
    cases h' with
    | foreign => exact ⟨countsAlike_of_entries?_eq_none hacyclic hacyclic' rfl rfl rfl rfl, .nil⟩
  | @absent id hnode =>
    obtain ⟨id', rfl, hentries', helements⟩ := h'.list_cases
    have hentries : g.entries? (.node id) = none := by simp [entries?, hnode]
    refine ⟨countsAlike_of_entries?_eq_none hacyclic hacyclic' hentries hentries' ?_ rfl, ?_⟩
    · rw [tag_eq_array hentries, tag_eq_array hentries']
    · rw [List.forall₂_nil_right_iff.mp helements]
      simp [elements, items?, hnode]
  | @list id items values hnode hlength hitems ih =>
    obtain ⟨id', rfl, hentries', helements⟩ := h'.list_cases
    have hentries : g.entries? (.node id) = none := by simp [entries?, hnode]
    refine ⟨countsAlike_of_entries?_eq_none hacyclic hacyclic' hentries hentries' ?_ rfl, ?_⟩
    · rw [tag_eq_array hentries, tag_eq_array hentries']
    · simp only [elements, items?, hnode, Option.getD_some]
      exact forall₂_of_zip hlength
        (fun p hp other hother => (ih p hp hother (hitems p hp).acyclic hother.acyclic).counts) helements
  | @tuple id items values hnode hlength hitems ih =>
    obtain ⟨id', rfl, hentries', helements⟩ := h'.tuple_cases
    have hentries : g.entries? (.node id) = none := by simp [entries?, hnode]
    refine ⟨countsAlike_of_entries?_eq_none hacyclic hacyclic' hentries hentries' ?_ rfl, ?_⟩
    · rw [tag_eq_array hentries, tag_eq_array hentries']
    · simp only [elements, items?, hnode, Option.getD_some]
      exact forall₂_of_zip hlength
        (fun p hp other hother => (ih p hp hother (hitems p hp).acyclic hother.acyclic).counts) helements
  | @mapping id entries values hnode hkeys hvalues ih =>
    cases h' with
    | @mapping id' entries' _ hnode' hkeys' hvalues' =>
      have hlength : (entries.map (·.2)).length = (values.map (·.2)).length := by
        simpa using congrArg List.length hkeys
      have hlength' : (entries'.map (·.2)).length = (values.map (·.2)).length := by
        simpa using congrArg List.length hkeys'
      have hshown : List.Forall₂ g'.Shows (entries'.map (·.2)) (values.map (·.2)) :=
        List.forall₂_iff_zip.mpr ⟨hlength', fun hp => hvalues' _ hp⟩
      have halike : List.Forall₂ (g.RecordsAlike g') (entries.map (·.2)) (entries'.map (·.2)) :=
        forall₂_of_zip hlength
          (fun p hp other hother => ih p hp hother (hvalues p hp).acyclic hother.acyclic) hshown
      have hmapping : g.isMapping (.node id) := by simp [isMapping, entries?, hnode]
      have hmapping' : g'.isMapping (.node id') := by simp [isMapping, entries?, hnode']
      refine ⟨⟨?_, rfl, fun m => ?_⟩, ?_⟩
      · rw [tag_eq_object_iff.mpr hmapping, tag_eq_object_iff.mpr hmapping']
      · rw [FieldMap.observeDocument_eq hacyclic, FieldMap.observeDocument_eq hacyclic',
          entries?_eq_some.mpr hnode, entries?_eq_some.mpr hnode', Option.getD_some, Option.getD_some]
        exact FieldMap.observeEntries_eq (forall₂_of_keys (hkeys.trans hkeys'.symm) halike) m
      · rw [elements_of_isMapping hmapping, elements_of_isMapping hmapping']
        exact .nil

/-- Documents that show the same trees have the same analysis. -/
theorem analysis_eq_of_shows {documents documents' : List Item} {trees : List Value}
    (h : List.Forall₂ g.Shows documents trees) (h' : List.Forall₂ g'.Shows documents' trees) :
    Analysis.ofDocuments g documents = Analysis.ofDocuments g' documents' := by
  rw [List.forall₂_iff_zip] at h
  have halike : List.Forall₂ (g.CountsAlike g') documents documents' :=
    forall₂_of_zip h.1 (fun p hp other hother => ((h.2 hp).recordsAlike hother).counts) h'
  have hmappings := CountsAlike.filter_isMapping halike
  have hfields : FieldMap.ofDocuments g documents = FieldMap.ofDocuments g' documents' :=
    FieldMap.foldl_observeDocument_eq hmappings .empty
  simp only [Analysis.ofDocuments, hfields, hmappings.length_eq]

end Graph

/-- What the guard of walks does in a graph.  The rules of `Visits` know no depth, so that a result by them
is a walk that has ended. -/
structure Graph.GuardsWalks (g : Graph) : Prop where
  walk : ∀ (path : List Nat) (item : Item) (m : FieldMap), ∃ m',
    Walk.mapping g (g.nodes.size + 1) item ⟨path, m⟩ = ⟨path, m'⟩ ∧ g.Visits path (.walk item) m m' ∧
    ∀ other, g.Visits path (.walk item) m other → m' = other
  record : ∀ (path : List Nat) (key : String) (value : Item) (m : FieldMap), ∃ m' s,
    Walk.entry g (Walk.mapping g (g.nodes.size + 1)) key value ⟨path, m⟩ = ⟨path, m'⟩ ∧
    g.Visits path (.record key value) m m' ∧ (∀ other, g.Visits path (.record key value) m other → m' = other) ∧
    m'.stats? key = some s ∧ s.frequency = ((m.stats? key).getD .initial).frequency + 1 ∧
    s.tags = ((m.stats? key).getD .initial).tags.add (g.tag value)
  element : ∀ (path : List Nat) (key : String) (item : Item) (m : FieldMap), ∃ m',
    Walk.element g (Walk.mapping g (g.nodes.size + 1)) key item ⟨path, m⟩ = ⟨path, m'⟩ ∧
    m'.stats? key = some (((m.stats? key).getD .initial).observeElement (g.tag item) item.number?)
  /-- The path is put back by calls further down as well, which have less depth. -/
  restored : ∀ (depth : Nat) (path : List Nat) (m : FieldMap),
    (∀ item, (Walk.mapping g depth item ⟨path, m⟩).onPath = path) ∧
    ∀ key value, (Walk.entry g (Walk.mapping g depth) key value ⟨path, m⟩).onPath = path
  mapping_entered : ∀ (path : List Nat) (id : Nat) (entries : List (Value × Item)) (m m' : FieldMap),
    id ∉ path → g.entries? (.node id) = some entries → g.Visits path (.walk (.node id)) m m' →
    g.Visits (id :: path) (.entries entries) m m'
  array_entered : ∀ (path : List Nat) (key : String) (id : Nat) (items : List Item) (m m' : FieldMap),
    id ∉ path → g.items? (.node id) = some items → g.Visits path (.record key (.node id)) m m' →
    g.Visits (id :: path) (.elements key items) (m.countValue g key (.node id)) m'
  /-- One walk through all documents has nothing on its path after each of them. -/
  documents : ∀ documents : List Item, (documents.filter g.isMapping).foldl
    (fun w document => Walk.mapping g (g.nodes.size + 1) document w) (⟨[], .empty⟩ : Walk) =
      ⟨[], .ofDocuments g documents⟩
  unshared : ∀ documents : List Item, (∀ document ∈ documents, g.Acyclic document) →
    ∃ trees, List.Forall₂ g.Shows documents trees ∧
      List.Forall₂ (Graph.ofValues trees).1.Shows (Graph.ofValues trees).2 trees ∧
      (Graph.ofValues trees).1.Unshared (Graph.ofValues trees).2 ∧
      Analysis.ofDocuments g documents =
        Analysis.ofDocuments (Graph.ofValues trees).1 (Graph.ofValues trees).2

theorem Walk.foldl_mapping_eq (g : Graph) (documents : List Item) (m : FieldMap) :
    documents.foldl (fun w document => Walk.mapping g (g.nodes.size + 1) document w) (⟨[], m⟩ : Walk) =
      ⟨[], documents.foldl (.observeDocument g) m⟩ := by
  induction documents generalizing m with
  | nil => rfl
  | cons document documents ih =>
    rw [List.foldl_cons, List.foldl_cons, (Walk.sees_mapping (g.nodes.size + 1) [] document).eq_mk m]
    exact ih _

/-- The guard ends every walk, leaves no trace on its path, and changes nothing where nothing lies inside
itself. -/
theorem Graph.guardsWalks (g : Graph) : g.GuardsWalks where
  walk path item m := by
    obtain ⟨m', hrun, hvisits⟩ := Walk.mapping_completes_size (g := g) path item m
    exact ⟨m', hrun, hvisits, fun _ hother => hvisits.unique hother⟩
  record path key value m := by
    obtain ⟨m', hrun, hvisits⟩ := Walk.record_visits (Walk.mapping_completes_size (g := g) path)
      (fun id _ _ => Walk.mapping_completes_size (id :: path)) key value m
    obtain ⟨s, hs, hfrequency, htags⟩ := hvisits.stats?_record
    exact ⟨m', s, hrun, hvisits, fun _ hother => hvisits.unique hother, hs, hfrequency, htags⟩
  element path key item m := by
    obtain ⟨next, hrun, hstats, -⟩ := Walk.element_visits (Walk.mapping_completes_size (g := g) path) key item m
    exact ⟨next, hrun, hstats⟩
  restored depth path m :=
    ⟨fun item => (Walk.sees_mapping depth path item m).1,
      fun key value => (Walk.sees_entry (Walk.sees_mapping depth) path key value m).1⟩
  mapping_entered path id entries m m' hid hentries hvisits := by
    cases hvisits with
    | noMapping hnone => cases hentries.symm.trans hnone
    | mappingOnPath _ hin => exact absurd hin hid
    | mapping hsome _ hinside =>
      obtain rfl := Option.some.inj (hentries.symm.trans hsome)
      exact hinside
  array_entered path key id items m m' hid hitems hvisits := by
    cases hvisits with
    | plain hnone => cases hitems.symm.trans hnone
    | object hobject => cases (items?_eq_none_of_tag hobject).symm.trans hitems
    | arrayOnPath _ hin => exact absurd hin hid
    | array hsome _ hinside =>
      obtain rfl := Option.some.inj (hitems.symm.trans hsome)
      exact hinside
  documents documents := Walk.foldl_mapping_eq g (documents.filter g.isMapping) .empty
  unshared documents hacyclic := by
    obtain ⟨trees, htrees⟩ := exists_values fun document hdocument => (hacyclic document hdocument).exists_shows
    exact ⟨trees, htrees, ofValues_shows trees, ofValues_unshared trees,
      analysis_eq_of_shows htrees (ofValues_shows trees)⟩

def Graph.knot : Graph where
  nodes := #[
    .mapping [(.text "self", .node 0), (.text "all", .node 1)],
    .sequence false [.node 1, .node 0]]

example : (FieldMap.ofDocuments .knot [.node 0]).toList.map (fun entry => (entry.1, entry.2.1.tags)) =
    [("self", [.object]), ("all", [.array])] := by decide

end SchemaInference
