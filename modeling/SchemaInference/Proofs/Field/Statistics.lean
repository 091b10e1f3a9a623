import SchemaInference.Proofs.Field.Walk

/-!
# Statistics by path

The values at a path and the objects there are read off the documents by going down one name at a
time.  What a walk accumulates at a path is the summary of these values, and the fields below the path
are those of these objects.
-/

set_option autoImplicit false

namespace SchemaInference

namespace TagSet

theorem mem_add {tags : TagSet} {tag t : Tag} : t ∈ tags.add tag ↔ t ∈ tags ∨ t = tag := by
  unfold add
  split <;> grind

theorem mem_foldl_add {tags : TagSet} {new : List Tag} {t : Tag} :
    t ∈ new.foldl add tags ↔ t ∈ tags ∨ t ∈ new := by
  induction new generalizing tags with
  | nil => simp
  | cons tag new ih => rw [List.foldl_cons, ih, mem_add, List.mem_cons, or_assoc]

@[simp] theorem mem_ofList {tags : List Tag} {t : Tag} : t ∈ ofList tags ↔ t ∈ tags := by
  simp [ofList, mem_foldl_add]

theorem ofList_concat (tags : List Tag) (t : Tag) : ofList (tags ++ [t]) = (ofList tags).add t := by
  simp [ofList]

theorem ofList_append (tags new : List Tag) : ofList (tags ++ new) = new.foldl add (ofList tags) := by
  simp [ofList]

theorem nodup_ofList (tags : List Tag) : (ofList tags).Nodup := by
  refine List.foldlRecOn (motive := List.Nodup) _ _ List.nodup_nil fun known hknown tag _ => ?_
  unfold add
  split
  · exact hknown
  · rename_i hnew
    exact List.nodup_append.mpr ⟨hknown, List.nodup_singleton tag, by grind⟩

theorem mem_nonNull {tags : TagSet} {t : Tag} : t ∈ tags.nonNull ↔ t ∈ tags ∧ t ≠ .null := by
  simp [nonNull]

theorem eq_singleton_of_mem {tags : TagSet} (hone : tags.length ≤ 1) {tag : Tag} (htag : tag ∈ tags) :
    tags = [tag] := by
  match tags with
  | [] => cases htag
  | [only] => rw [List.mem_singleton.mp htag]
  | first :: second :: more => simp at hone

theorem length_le_one {tags : TagSet} (hnodup : tags.Nodup) {only : Tag} (h : ∀ tag ∈ tags, tag = only) :
    tags.length ≤ 1 := by
  have hle := List.nodup_iff_count_le_one.mp hnodup only
  rw [List.eq_replicate_of_mem h, List.count_replicate_self] at hle
  exact hle

end TagSet

namespace FieldStats

variable {g : Graph}

/-- The statistics of a field, read off the list of its values. -/
def summary (g : Graph) (values : List Item) : FieldStats where
  tags := .ofList (values.map g.tag)
  frequency := values.length
  isArray := values.any (g.tag · == .array)
  elementTags :=
    if values.any (g.tag · == .array) then some (.ofList ((values.flatMap g.elements).map g.tag)) else none
  hasMap := values.any (g.tag · == .object) || (values.flatMap g.elements).any (g.tag · == .object)
  numbers := values.filterMap Item.number?
  elementNumbers := (values.flatMap g.elements).filterMap Item.number?
  isNullable := false
  objectElements := ((values.flatMap g.elements).filter g.isMapping).length
  arrayDerived := (values.flatMap g.elements).any (g.tag · == .object)

theorem foldl_observeElement (elements : List Item) (s : FieldStats) :
    elements.foldl (fun s e => s.observeElement (g.tag e) e.number?) s =
      { s with
        elementTags :=
          if elements = [] then s.elementTags
          else some ((elements.map g.tag).foldl TagSet.add (s.elementTags.getD []))
        hasMap := s.hasMap || elements.any (g.tag · == .object)
        elementNumbers := s.elementNumbers ++ elements.filterMap Item.number?
        objectElements := s.objectElements + (elements.filter g.isMapping).length
        arrayDerived := s.arrayDerived || elements.any (g.tag · == .object) } := by
  induction elements generalizing s with
  | nil => simp
  | cons e elements ih =>
    have hobject : g.isMapping e = (g.tag e == .object) := by
      rw [Bool.eq_iff_iff, beq_iff_eq]
      exact Graph.tag_eq_object_iff.symm
    rw [List.foldl_cons, ih]
    simp only [observeElement, List.any_cons, List.map_cons, List.foldl_cons, List.filter_cons, hobject,
      beq_iff_eq, reduceCtorEq, ↓reduceIte, Option.getD_some, Bool.or_assoc, FieldStats.mk.injEq, true_and]
    refine ⟨?_, ?_, ?_⟩
    · split <;> simp_all
    · cases hnumber : e.number? <;> simp [hnumber]
    · split
      · simp_all
        omega
      · simp_all

theorem elements_eq_nil_of_tag {value : Item} (h : g.tag value ≠ .array) : g.elements value = [] := by
  cases value with
  | scalar s => simp [Graph.elements, Graph.items?, Graph.container?]
  | node id =>
    have hm : g.isMapping (.node id) := by
      by_contra hm
      simp [Graph.tag, hm] at h
    exact Graph.elements_of_isMapping hm

theorem getD_elementTags_summary (values : List Item) :
    (summary g values).elementTags.getD [] = .ofList ((values.flatMap g.elements).map g.tag) := by
  simp only [summary]
  split
  · rfl
  · rename_i hno
    have hnil : values.flatMap g.elements = [] := by
      rw [List.flatMap_eq_nil_iff]
      intro v hv
      apply elements_eq_nil_of_tag
      simp only [List.any_eq_true, beq_iff_eq, not_exists, not_and] at hno
      exact hno v hv
    rw [hnil]
    rfl

theorem mem_nonNullTags_summary {values : List Item} {tag : Tag} :
    tag ∈ (summary g values).nonNullTags ↔ (∃ v ∈ values, g.tag v = tag) ∧ tag ≠ .null := by
  simp [nonNullTags, summary, TagSet.mem_nonNull]

theorem mem_nonNullElementTags_summary {values : List Item} {tag : Tag} :
    tag ∈ (summary g values).nonNullElementTags ↔
      (∃ e ∈ values.flatMap g.elements, g.tag e = tag) ∧ tag ≠ .null := by
  rw [nonNullElementTags, getD_elementTags_summary, TagSet.mem_nonNull, TagSet.mem_ofList, List.mem_map]

theorem nodup_nonNullTags_summary (values : List Item) : (summary g values).nonNullTags.Nodup :=
  (TagSet.nodup_ofList _).filter _

theorem nodup_nonNullElementTags_summary (values : List Item) :
    (summary g values).nonNullElementTags.Nodup := by
  rw [nonNullElementTags, getD_elementTags_summary]
  exact (TagSet.nodup_ofList _).filter _

theorem isArray_summary {values : List Item} :
    (summary g values).isArray = true ↔ ∃ v ∈ values, g.tag v = .array := by
  simp [summary]

theorem array_mem_nonNullTags {values : List Item} (h : (summary g values).isArray = true) :
    Tag.array ∈ (summary g values).nonNullTags :=
  mem_nonNullTags_summary.mpr ⟨isArray_summary.mp h, by simp⟩

theorem tag_eq_of_agreed {values : List Item} (hagreed : (summary g values).nonNullTags.length ≤ 1) {v : Item}
    (hv : v ∈ values) (hnull : g.tag v ≠ .null) {tag : Tag} (htag : tag ∈ (summary g values).nonNullTags) :
    g.tag v = tag := by
  have hmem : g.tag v ∈ (summary g values).nonNullTags := mem_nonNullTags_summary.mpr ⟨⟨v, hv, rfl⟩, hnull⟩
  rw [TagSet.eq_singleton_of_mem hagreed htag] at hmem
  exact List.mem_singleton.mp hmem

theorem summary_concat (values : List Item) (value : Item) :
    summary g (values ++ [value]) = (summary g values).observeValue g value := by
  have hknown := getD_elementTags_summary (g := g) values
  have hnumbers : values.filterMap Item.number? ++ value.number?.toList =
      (values ++ [value]).filterMap Item.number? := by
    cases hnumber : value.number? <;> simp [hnumber]
  rw [observeValue, foldl_observeElement]
  by_cases harray : g.tag value = .array
  · simp only [observe, hknown, harray]
    simp only [summary, hnumbers]
    simp [harray, TagSet.ofList_append]
    grind
  · have helements := elements_eq_nil_of_tag harray
    simp only [observe, helements]
    simp only [summary, hnumbers]
    simp [harray, helements, TagSet.ofList_concat]
    grind

theorem foldl_observeValue (values : List Item) :
    values.foldl (observeValue g) .initial = summary g values := by
  induction values using List.reverseRecOn with
  | nil => rfl
  | append_singleton values value ih => rw [List.foldl_concat, ih, summary_concat]

def observeValues (g : Graph) (known : Option FieldStats) (values : List Item) : Option FieldStats :=
  values.foldl (fun known value => some ((known.getD .initial).observeValue g value)) known

theorem observeValues_some (s : FieldStats) (values : List Item) :
    observeValues g (some s) values = some (values.foldl (observeValue g) s) := by
  induction values generalizing s with
  | nil => rfl
  | cons value values ih => exact ih (s.observeValue g value)

theorem observeValues_none (values : List Item) :
    observeValues g none values = if values = [] then none else some (summary g values) := by
  cases values with
  | nil => rfl
  | cons value values =>
    rw [← foldl_observeValue]
    exact observeValues_some (FieldStats.initial.observeValue g value) values

end FieldStats

namespace FieldMap

variable {g : Graph}

theorem stats?_observeEntry (m : FieldMap) (key k : String) (value : Item) :
    (m.observeEntry g key value).stats? k =
      if key = k then some (((m.stats? k).getD .initial).observeValue g value) else m.stats? k := by
  rw [observeEntry, stats?_setNested, stats?_update]
  split
  · rename_i hk
    rw [hk]
  · rfl

theorem nested_observeEntry (m : FieldMap) (key k : String) (value : Item) :
    (m.observeEntry g key value).nested k =
      if key = k then (g.objectsOf value).foldl (.observeDocument g) (m.nested k) else m.nested k := by
  rw [observeEntry, nested_setNested _ _ _ _ (mem_names_update_self _ _ _), nested_update]
  split
  · rename_i hk
    rw [hk]
  · rfl

theorem stats?_observeEntries (m : FieldMap) (entries : List (Value × Item)) (k : String) :
    (m.observeEntries g entries).stats? k = FieldStats.observeValues g (m.stats? k)
      (entries.filterMap fun e => if e.1.display = k then some e.2 else none) := by
  induction entries generalizing m with
  | nil => rfl
  | cons e entries ih =>
    change ((m.observeEntry g e.1.display e.2).observeEntries g entries).stats? k = _
    rw [ih, stats?_observeEntry, List.filterMap_cons]
    split <;> rfl

theorem nested_observeEntries (m : FieldMap) (entries : List (Value × Item)) (k : String) :
    (m.observeEntries g entries).nested k =
      ((entries.filterMap fun e => if e.1.display = k then some e.2 else none).flatMap g.objectsOf).foldl
        (.observeDocument g) (m.nested k) := by
  induction entries generalizing m with
  | nil => rfl
  | cons e entries ih =>
    change ((m.observeEntry g e.1.display e.2).observeEntries g entries).nested k = _
    rw [ih, nested_observeEntry, List.filterMap_cons]
    split
    · rw [List.flatMap_cons, List.foldl_append]
    · rfl

theorem stats?_observeDocument {item : Item} (h : g.Acyclic item) (m : FieldMap) (k : String) :
    (m.observeDocument g item).stats? k = FieldStats.observeValues g (m.stats? k) (g.valuesUnder k item) := by
  rw [observeDocument_eq h, stats?_observeEntries]
  rfl

theorem nested_observeDocument {item : Item} (h : g.Acyclic item) (m : FieldMap) (k : String) :
    (m.observeDocument g item).nested k = (g.objectsUnder k item).foldl (.observeDocument g) (m.nested k) := by
  rw [observeDocument_eq h, nested_observeEntries]
  rfl

def ofObjects (g : Graph) (objects : List Item) : FieldMap :=
  objects.foldl (.observeDocument g) .empty

theorem stats?_foldl_observeDocument {objects : List Item} (h : ∀ o ∈ objects, g.Acyclic o) (m : FieldMap)
    (k : String) : (objects.foldl (.observeDocument g) m).stats? k =
      FieldStats.observeValues g (m.stats? k) (objects.flatMap (g.valuesUnder k)) := by
  induction objects generalizing m with
  | nil => rfl
  | cons o objects ih =>
    rw [List.forall_mem_cons] at h
    rw [List.foldl_cons, ih h.2, stats?_observeDocument h.1, List.flatMap_cons]
    simp only [FieldStats.observeValues, List.foldl_append]

theorem nested_foldl_observeDocument {objects : List Item} (h : ∀ o ∈ objects, g.Acyclic o) (m : FieldMap)
    (k : String) : (objects.foldl (.observeDocument g) m).nested k =
      (objects.flatMap (g.objectsUnder k)).foldl (.observeDocument g) (m.nested k) := by
  induction objects generalizing m with
  | nil => rfl
  | cons o objects ih =>
    rw [List.forall_mem_cons] at h
    rw [List.foldl_cons, ih h.2, nested_observeDocument h.1, List.flatMap_cons, List.foldl_append]

theorem stats?_ofObjects {objects : List Item} (h : ∀ o ∈ objects, g.Acyclic o) (k : String) :
    (ofObjects g objects).stats? k =
      if objects.flatMap (g.valuesUnder k) = [] then none
      else some (.summary g (objects.flatMap (g.valuesUnder k))) := by
  rw [ofObjects, stats?_foldl_observeDocument h]
  exact FieldStats.observeValues_none _

theorem nested_ofObjects {objects : List Item} (h : ∀ o ∈ objects, g.Acyclic o) (k : String) :
    (ofObjects g objects).nested k = ofObjects g (objects.flatMap (g.objectsUnder k)) :=
  nested_foldl_observeDocument h .empty k

end FieldMap

namespace Graph

variable {g : Graph}

variable (g) in
def objectsAt (objects : List Item) : List String → List Item
  | [] => objects
  | key :: path => objectsAt (objects.flatMap (g.objectsUnder key)) path

variable (g) in
def valuesAt (objects : List Item) (path : List String) (key : String) : List Item :=
  (g.objectsAt objects path).flatMap (g.valuesUnder key)

theorem objectsAt_concat (objects : List Item) (path : List String) (key : String) :
    g.objectsAt objects (path ++ [key]) = (g.objectsAt objects path).flatMap (g.objectsUnder key) := by
  induction path generalizing objects with
  | nil => rfl
  | cons name path ih => exact ih _

theorem objectsAt_concat_eq_valuesAt (objects : List Item) (path : List String) (key : String) :
    g.objectsAt objects (path ++ [key]) = (g.valuesAt objects path key).flatMap g.objectsOf := by
  rw [objectsAt_concat, valuesAt, List.flatMap_assoc]
  rfl

theorem mem_valuesAt {objects : List Item} {path : List String} {key : String} {value : Item} :
    value ∈ g.valuesAt objects path key ↔ ∃ o ∈ g.objectsAt objects path, value ∈ g.valuesUnder key o :=
  List.mem_flatMap

theorem exists_reaches_of_mem_objectsAt {objects : List Item} {path : List String} {o : Item}
    (h : o ∈ g.objectsAt objects path) : ∃ outer ∈ objects, g.Reaches outer o := by
  induction path generalizing objects with
  | nil => exact ⟨o, h, .refl⟩
  | cons key path ih =>
    obtain ⟨middle, hmiddle, hreach⟩ := ih h
    obtain ⟨outer, houter, hunder⟩ := List.mem_flatMap.mp hmiddle
    exact ⟨outer, houter, (reaches_of_mem_objectsUnder hunder).trans hreach⟩

theorem isMapping_of_mem_objectsAt {objects : List Item} (hobjects : ∀ o ∈ objects, g.isMapping o)
    {path : List String} {o : Item} (h : o ∈ g.objectsAt objects path) : g.isMapping o := by
  induction path generalizing objects with
  | nil => exact hobjects o h
  | cons key path ih =>
    apply ih _ h
    intro inner hinner
    obtain ⟨outer, -, hunder⟩ := List.mem_flatMap.mp hinner
    exact isMapping_of_mem_objectsUnder hunder

end Graph

namespace FieldMap

variable {g : Graph} {objects : List Item}

theorem descend_ofObjects (h : ∀ o ∈ objects, g.Acyclic o) (path : List String) :
    (ofObjects g objects).descend path = ofObjects g (g.objectsAt objects path) := by
  induction path generalizing objects with
  | nil => rfl
  | cons key path ih =>
    change ((ofObjects g objects).nested key).descend path = _
    rw [nested_ofObjects h]
    apply ih
    intro inner hinner
    obtain ⟨outer, houter, hunder⟩ := List.mem_flatMap.mp hinner
    exact (h outer houter).of_reaches (Graph.reaches_of_mem_objectsUnder hunder)

theorem stats?_descend_ofObjects (h : ∀ o ∈ objects, g.Acyclic o) (path : List String) (key : String) :
    ((ofObjects g objects).descend path).stats? key =
      if g.valuesAt objects path key = [] then none else some (.summary g (g.valuesAt objects path key)) := by
  rw [descend_ofObjects h]
  apply stats?_ofObjects
  intro o ho
  obtain ⟨outer, houter, hreach⟩ := Graph.exists_reaches_of_mem_objectsAt ho
  exact (h outer houter).of_reaches hreach

end FieldMap

end SchemaInference
