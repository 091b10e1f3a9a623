import SchemaInference.Proofs.Document.Descent
import SchemaInference.Proofs.Field.Map

set_option autoImplicit false

namespace SchemaInference

variable {g : Graph}

theorem Graph.tag_eq_object_iff {item : Item} : g.tag item = .object ↔ g.isMapping item := by
  cases item with
  | scalar s => cases s <;> simp [tag, Tag.ofScalar, isMapping, entries?, container?]
  | node id => simp [tag]

theorem Graph.tag_eq_null_iff {item : Item} : g.tag item = .null ↔ item = .scalar .null := by
  cases item with
  | scalar s => cases s <;> simp [tag, Tag.ofScalar]
  | node id =>
    simp only [tag, reduceCtorEq, iff_false]
    split <;> simp

theorem Graph.tag_eq_number_iff {item : Item} : g.tag item = .number ↔ ∃ n, item = .scalar (.number n) := by
  cases item with
  | scalar s => cases s <;> simp [tag, Tag.ofScalar]
  | node id =>
    simp only [tag, reduceCtorEq, exists_false, iff_false]
    split <;> simp

theorem Item.number?_eq_some_iff {item : Item} {n : Number} :
    item.number? = some n ↔ item = .scalar (.number n) ∧ n ≠ .real .nan := by
  unfold Item.number?
  split <;> grind

theorem Item.mem_filterMap_number? {items : List Item} {n : Number} :
    n ∈ items.filterMap Item.number? ↔ .scalar (.number n) ∈ items ∧ n ≠ .real .nan := by
  simp only [List.mem_filterMap, Item.number?_eq_some_iff]
  exact ⟨fun ⟨_, hitem, rfl, hnan⟩ => ⟨hitem, hnan⟩, fun ⟨hitem, hnan⟩ => ⟨_, hitem, rfl, hnan⟩⟩

theorem Graph.tag_eq_boolean_iff {item : Item} : g.tag item = .boolean ↔ ∃ b, item = .scalar (.bool b) := by
  cases item with
  | scalar s => cases s <;> simp [tag, Tag.ofScalar]
  | node id =>
    simp only [tag, reduceCtorEq, exists_false, iff_false]
    split <;> simp

def FieldStats.observeValue (g : Graph) (s : FieldStats) (value : Item) : FieldStats :=
  (g.elements value).foldl (fun s e => s.observeElement (g.tag e) e.number?)
    (s.observe (g.tag value) value.number?)

def FieldMap.observeEntry (g : Graph) (m : FieldMap) (key : String) (value : Item) : FieldMap :=
  (m.update key (·.observeValue g value)).setNested key
    ((g.objectsOf value).foldl (.observeDocument g) (m.nested key))

def FieldMap.observeEntries (g : Graph) (m : FieldMap) (entries : List (Value × Item)) : FieldMap :=
  entries.foldl (fun m e => m.observeEntry g e.1.display e.2) m

namespace Walk

variable {walk : Item → Walk → Walk} {key : String} {path : List Nat}

theorem element_run {item : Item} (m : FieldMap)
    (hwalk : g.isMapping item → ∀ m, walk item ⟨path, m⟩ = ⟨path, m.observeDocument g item⟩) :
    element g walk key item ⟨path, m⟩ =
      ⟨path, (m.update key (·.observeElement (g.tag item) item.number?)).setNested key
        ((([item].filter g.isMapping)).foldl (.observeDocument g) (m.nested key))⟩ := by
  unfold element
  by_cases h : g.isMapping item
  · have ht : g.tag item = .object := Graph.tag_eq_object_iff.mpr h
    simp only [ht, ↓reduceIte, inside, FieldMap.nested_update, hwalk h]
    simp [h]
  · have ht : g.tag item ≠ .object := fun ht => h (Graph.tag_eq_object_iff.mp ht)
    have hs := FieldMap.setNested_nested (m.update key (·.observeElement (g.tag item) item.number?)) key
    rw [FieldMap.nested_update] at hs
    simp [ht, h, hs]

theorem elements_run (items : List Item) (m : FieldMap) (hkey : key ∈ m.names)
    (hwalk : ∀ item ∈ items, g.isMapping item →
      ∀ m, walk item ⟨path, m⟩ = ⟨path, m.observeDocument g item⟩) :
    items.foldl (fun (w : Walk) item => w.element g walk key item) ⟨path, m⟩ =
      ⟨path, (m.update key fun s => items.foldl (fun s e => s.observeElement (g.tag e) e.number?) s).setNested key
        ((items.filter g.isMapping).foldl (.observeDocument g) (m.nested key))⟩ := by
  induction items generalizing m with
  | nil =>
    have hid := FieldMap.update_id m key hkey
    change (⟨path, m⟩ : Walk) = ⟨path, (m.update key id).setNested key (m.nested key)⟩
    rw [hid, FieldMap.setNested_nested]
  | cons item items ih =>
    have hmem := FieldMap.mem_names_update_self m key (·.observeElement (g.tag item) item.number?)
    rw [List.foldl_cons, element_run m (hwalk item List.mem_cons_self),
      ih _ (by rwa [FieldMap.names_setNested]) fun e he => hwalk e (List.mem_cons_of_mem _ he)]
    rw [FieldMap.update_setNested _ _ _ hmem, FieldMap.setNested_setNested, FieldMap.update_update,
      FieldMap.nested_setNested _ _ _ _ hmem, if_pos rfl, ← List.foldl_append, ← List.filter_append]
    rfl

/-- What a walk of an item needs: containers enclosing it that are there, differ from one another and do
not lie inside it, and a depth that they leave positive. -/
structure Clear (g : Graph) (depth : Nat) (path : List Nat) (item : Item) : Prop where
  nodup : path.Nodup
  present : ∀ id ∈ path, id < g.nodes.size
  outside : ∀ id ∈ path, ¬ g.Reaches item (.node id)
  deep : g.nodes.size < depth + path.length

theorem Clear.start (item : Item) : Clear g (g.nodes.size + 1) [] item where
  nodup := List.nodup_nil
  present := by simp
  outside := by simp
  deep := by simp

theorem length_le_of_nodup {n : Nat} (hn : path.Nodup) (hlt : ∀ id ∈ path, id < n) : path.length ≤ n := by
  have hs : path ⊆ List.range n := fun id hid => List.mem_range.mpr (hlt id hid)
  simpa using (List.subperm_of_subset hn hs).length_le

theorem Clear.depth_pos {depth : Nat} {item : Item} (h : Clear g depth path item) : 0 < depth := by
  have hl := length_le_of_nodup h.nodup h.present
  have hd := h.deep
  omega

theorem Clear.down {depth id : Nat} {item inner : Item} (h : Clear g (depth + 1) path item)
    (hid : id < g.nodes.size) (hfresh : id ∉ path) (hr : g.Reaches item inner)
    (hback : ¬ g.Reaches inner (.node id)) : Clear g depth (id :: path) inner where
  nodup := List.nodup_cons.mpr ⟨hfresh, h.nodup⟩
  present := List.forall_mem_cons.mpr ⟨hid, h.present⟩
  outside := List.forall_mem_cons.mpr ⟨hback, fun i hi hd => h.outside i hi (hr.trans hd)⟩
  deep := by
    have hd := h.deep
    simp only [List.length_cons]
    omega

theorem Clear.deeper {depth : Nat} {item : Item} (h : Clear g depth path item) :
    Clear g (depth + 1) path item where
  nodup := h.nodup
  present := h.present
  outside := h.outside
  deep := h.deep.trans (by omega)

theorem guarded_run {id : Nat} (hfresh : id ∉ path) (m m' : FieldMap) (step : Walk → Walk)
    (hstep : step ⟨id :: path, m⟩ = ⟨id :: path, m'⟩) : guarded id step ⟨path, m⟩ = ⟨path, m'⟩ := by
  simp only [guarded, hfresh, ↓reduceIte, hstep]
  simp

/-- That walking an item leaves the path as it was and observes the item, wherever it is met. -/
def Observes (g : Graph) (item : Item) : Prop :=
  ∀ depth path m, Clear g depth path item →
    mapping g depth item ⟨path, m⟩ = ⟨path, m.observeDocument g item⟩

theorem entry_run {depth : Nat} {value : Item} (m : FieldMap) (hclear : Clear g depth path value)
    (hacyclic : g.Acyclic value) (inside : ∀ inner, g.Reaches value inner → Observes g inner) :
    entry g (mapping g depth) key value ⟨path, m⟩ = ⟨path, m.observeEntry g key value⟩ := by
  have hmem := FieldMap.mem_names_update_self m key (·.observe (g.tag value) value.number?)
  cases hitems : g.items? value with
  | none =>
    have helements : g.elements value = [] := by simp [Graph.elements, hitems]
    have hentry : entry g (mapping g depth) key value ⟨path, m⟩ =
        if g.tag value = .object then
          Walk.inside key (mapping g depth value) ⟨path, m.update key (·.observe (g.tag value) value.number?)⟩
        else ⟨path, m.update key (·.observe (g.tag value) value.number?)⟩ := by
      unfold entry
      rw [hitems]
      cases value <;> rfl
    rw [hentry]
    by_cases h : g.isMapping value
    · have hwalk := inside value .refl depth path (m.nested key) hclear
      rw [if_pos (Graph.tag_eq_object_iff.mpr h)]
      simp only [Walk.inside, FieldMap.nested_update, hwalk]
      simp [FieldMap.observeEntry, FieldStats.observeValue, Graph.objectsOf, helements, h]
    · have hs := FieldMap.setNested_nested (m.update key (·.observe (g.tag value) value.number?)) key
      rw [FieldMap.nested_update] at hs
      rw [if_neg fun ht => h (Graph.tag_eq_object_iff.mp ht)]
      simp [FieldMap.observeEntry, FieldStats.observeValue, Graph.objectsOf, helements, h, hs]
  | some items =>
    have helements : g.elements value = items := by simp [Graph.elements, hitems]
    have hnot : ¬ g.isMapping value := fun h => by simp [Graph.items?_of_isMapping h] at hitems
    cases value with
    | scalar s => simp [Graph.items?, Graph.container?] at hitems
    | node id =>
      have hfresh : id ∉ path := fun hid => hclear.outside id hid .refl
      have hid : id < g.nodes.size := by
        by_contra hge
        simp [Graph.items?, Graph.container?, hge] at hitems
      have hwalk : ∀ item ∈ items, g.isMapping item →
          ∀ m, mapping g depth item ⟨id :: path, m⟩ = ⟨id :: path, m.observeDocument g item⟩ := by
        intro item hitem _ m
        have hholds : g.Holds (.node id) item := Graph.holds_of_mem_elements (helements ▸ hitem)
        exact inside item (.single hholds) depth _ m
          (hclear.deeper.down hid hfresh (.single hholds) (hacyclic.not_reaches_back hholds))
      unfold entry
      rw [hitems]
      refine guarded_run hfresh _ _ _ ((elements_run items _ hmem hwalk).trans ?_)
      rw [FieldMap.update_update, FieldMap.nested_update]
      simp only [FieldMap.observeEntry, Graph.objectsOf, hnot, helements]
      congr 3
      funext s
      simp [FieldStats.observeValue, helements]

theorem entries_run {depth : Nat} (entries : List (Value × Item)) (m : FieldMap)
    (hclear : ∀ e ∈ entries, Clear g depth path e.2) (hacyclic : ∀ e ∈ entries, g.Acyclic e.2)
    (inside : ∀ e ∈ entries, ∀ inner, g.Reaches e.2 inner → Observes g inner) :
    entries.foldl (fun (w : Walk) e => w.entry g (mapping g depth) e.1.display e.2) ⟨path, m⟩ =
      ⟨path, m.observeEntries g entries⟩ := by
  induction entries generalizing m with
  | nil => rfl
  | cons e entries ih =>
    rw [List.forall_mem_cons] at hclear hacyclic inside
    rw [List.foldl_cons, entry_run m hclear.1 hacyclic.1 inside.1]
    exact ih _ hclear.2 hacyclic.2 inside.2

theorem mapping_run {depth : Nat} {item : Item} (m : FieldMap) (hclear : Clear g depth path item)
    (hacyclic : g.Acyclic item)
    (inside : ∀ inner, Relation.TransGen g.Holds item inner → Observes g inner) :
    mapping g depth item ⟨path, m⟩ = ⟨path, m.observeEntries g ((g.entries? item).getD [])⟩ := by
  obtain ⟨depth, rfl⟩ := Nat.exists_eq_add_one.mpr hclear.depth_pos
  cases hentries : g.entries? item with
  | none =>
    unfold mapping
    rw [hentries]
    cases item <;> rfl
  | some entries =>
    cases item with
    | scalar s => simp [Graph.entries?, Graph.container?] at hentries
    | node id =>
      have hfresh : id ∉ path := fun hid => hclear.outside id hid .refl
      have hid : id < g.nodes.size := by
        by_contra hge
        simp [Graph.entries?, Graph.container?, hge] at hentries
      have hholds : ∀ e ∈ entries, g.Holds (.node id) e.2 := fun e he => Graph.holds_of_mem_entries hentries he
      unfold mapping
      rw [hentries]
      refine guarded_run hfresh _ _ _ (entries_run entries m ?_ ?_ ?_)
      · intro e he
        exact hclear.down hid hfresh (.single (hholds e he)) (hacyclic.not_reaches_back (hholds e he))
      · intro e he
        exact hacyclic.of_holds (hholds e he)
      · intro e he inner hr
        exact inside inner (.head' (hholds e he) hr)

theorem observes_of_acyclic {item : Item} (h : g.Acyclic item) : Observes g item := by
  refine h.induction fun item h ih => ?_
  intro depth path m hclear
  rw [mapping_run m hclear h ih]
  simp only [FieldMap.observeDocument]
  rw [mapping_run m (Clear.start item) h ih]

end Walk

theorem FieldMap.observeDocument_eq {item : Item} (h : g.Acyclic item) (m : FieldMap) :
    m.observeDocument g item = m.observeEntries g ((g.entries? item).getD []) := by
  simp only [observeDocument]
  rw [Walk.mapping_run m (Walk.Clear.start item) h fun inner hi =>
    Walk.observes_of_acyclic (h.of_reaches hi.to_reflTransGen)]

namespace Walk

variable {walk : Item → Walk → Walk}

theorem element_distinct (hwalk : ∀ item w, w.fields.Distinct → (walk item w).fields.Distinct)
    (key : String) (item : Item) (w : Walk) (h : w.fields.Distinct) :
    (w.element g walk key item).fields.Distinct := by
  have hcounted := h.update key (·.observeElement (g.tag item) item.number?)
  unfold element
  dsimp only
  split
  · exact hcounted.setNested key (hwalk item _ (hcounted.nested key))
  · exact hcounted

theorem entry_distinct (hwalk : ∀ item w, w.fields.Distinct → (walk item w).fields.Distinct)
    (key : String) (item : Item) (w : Walk) (h : w.fields.Distinct) :
    (w.entry g walk key item).fields.Distinct := by
  have hcounted := h.update key (·.observe (g.tag item) item.number?)
  unfold entry
  dsimp only
  split
  · unfold guarded
    split
    · exact hcounted
    · exact List.foldlRecOn (motive := fun w : Walk => w.fields.Distinct) _ _ hcounted
        fun w hw e _ => element_distinct hwalk key e w hw
  · split
    · exact hcounted.setNested key (hwalk _ _ (hcounted.nested key))
    · exact hcounted

theorem mapping_distinct (depth : Nat) (item : Item) (w : Walk) (h : w.fields.Distinct) :
    (mapping g depth item w).fields.Distinct := by
  induction depth generalizing item w with
  | zero => exact h
  | succ depth ih =>
    unfold mapping
    split
    · unfold guarded
      split
      · exact h
      · exact List.foldlRecOn (motive := fun w : Walk => w.fields.Distinct) _ _ h
          fun w hw e _ => entry_distinct ih e.1.display e.2 w hw
    · exact h

end Walk

theorem FieldMap.ofDocuments_distinct (g : Graph) (documents : List Item) :
    (ofDocuments g documents).Distinct :=
  List.foldlRecOn (motive := Distinct) _ _ trivial
    fun m hm item _ => Walk.mapping_distinct _ item ⟨[], m⟩ hm

end SchemaInference
