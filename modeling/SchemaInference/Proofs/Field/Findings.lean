import SchemaInference.Proofs.Field.Nullability
import SchemaInference.Schema.Inference

set_option autoImplicit false

namespace SchemaInference

variable {g : Graph}

theorem eraseDups_concat (keys : List String) (key : String) :
    (keys ++ [key]).eraseDups = if key ∈ keys then keys.eraseDups else keys.eraseDups ++ [key] := by
  have hone : [key].eraseDups = [key] := rfl
  rw [List.eraseDups_append]
  split <;> simp_all [List.removeAll]

namespace Graph

variable (g) in
def keys (item : Item) : List String :=
  ((g.entries? item).getD []).map (·.1.display)

variable (g) in
def keysAt (objects : List Item) (path : List String) : List String :=
  (g.objectsAt objects path).flatMap g.keys

end Graph

namespace FieldMap

theorem names_observeEntries (m : FieldMap) (known : List String) (entries : List (Value × Item))
    (hm : m.names = known.eraseDups) :
    (m.observeEntries g entries).names = (known ++ entries.map (·.1.display)).eraseDups := by
  induction entries generalizing m known with
  | nil => simpa [observeEntries] using hm
  | cons e entries ih =>
    have hstep : (m.observeEntry g e.1.display e.2).names = (known ++ [e.1.display]).eraseDups := by
      rw [observeEntry, names_setNested, names_update, hm, eraseDups_concat]
      simp only [List.mem_eraseDups]
    have hrest := ih _ _ hstep
    rw [List.append_assoc] at hrest
    exact hrest

theorem names_foldl_observeDocument {objects : List Item} (h : ∀ o ∈ objects, g.Acyclic o) (m : FieldMap)
    (known : List String) (hm : m.names = known.eraseDups) :
    (objects.foldl (.observeDocument g) m).names = (known ++ objects.flatMap g.keys).eraseDups := by
  induction objects generalizing m known with
  | nil => simpa using hm
  | cons o objects ih =>
    rw [List.forall_mem_cons] at h
    have hstep : (m.observeDocument g o).names = (known ++ g.keys o).eraseDups := by
      rw [observeDocument_eq h.1]
      exact names_observeEntries m known _ hm
    have hrest := ih h.2 _ _ hstep
    rw [List.append_assoc] at hrest
    exact hrest

theorem names_descend_ofObjects {objects : List Item} (h : ∀ o ∈ objects, g.Acyclic o) (path : List String) :
    ((ofObjects g objects).descend path).names = (g.keysAt objects path).eraseDups := by
  rw [descend_ofObjects h]
  apply names_foldl_observeDocument _ .empty [] rfl
  intro o ho
  obtain ⟨outer, houter, hreach⟩ := Graph.exists_reaches_of_mem_objectsAt ho
  exact (h outer houter).of_reaches hreach

def places : FieldMap → List (List String × String)
  | empty => []
  | field name _ nested rest =>
    ([], name) :: nested.places.map (fun place => (name :: place.1, place.2)) ++ rest.places

def statsOf? (m : FieldMap) (place : List String × String) : Option FieldStats :=
  (m.descend place.1).stats? place.2

def dotted (place : List String × String) : String :=
  ".".intercalate (place.1 ++ [place.2])

def firstName (place : List String × String) : String :=
  place.1.headD place.2

variable {name key : String} {stats : FieldStats} {nested rest m : FieldMap} {path : List String}
  {place : List String × String}

theorem statsOf?_field_of_ne (h : firstName place ≠ name) :
    (field name stats nested rest).statsOf? place = rest.statsOf? place := by
  obtain ⟨path, key⟩ := place
  cases path with
  | nil =>
    have hk : name ≠ key := Ne.symm h
    simp [statsOf?, stats?, hk]
  | cons first path =>
    have hf : name ≠ first := Ne.symm h
    simp [statsOf?, descend, FieldMap.nested, hf]

theorem statsOf?_field_cons :
    (field name stats nested rest).statsOf? (name :: path, key) = nested.statsOf? (path, key) := by
  simp [statsOf?, descend, FieldMap.nested]

theorem firstName_mem_names (h : place ∈ m.places) : firstName place ∈ m.names := by
  induction m with
  | empty => simp [places] at h
  | field name stats nested rest _ ih =>
    simp only [places, List.cons_append, List.mem_cons, List.mem_append, List.mem_map] at h
    rw [names_field, List.mem_cons]
    obtain rfl | ⟨inner, -, rfl⟩ | h := h
    · exact .inl rfl
    · exact .inl rfl
    · exact .inr (ih h)

theorem mem_places_of_statsOf? (h : (m.statsOf? place).isSome) : place ∈ m.places := by
  induction m generalizing place with
  | empty =>
    obtain ⟨path, key⟩ := place
    simp [statsOf?, stats?] at h
  | field name stats nested rest ihn ihr =>
    simp only [places, List.cons_append, List.mem_cons, List.mem_append, List.mem_map]
    by_cases hf : firstName place = name
    · obtain ⟨path, key⟩ := place
      cases path with
      | nil => exact .inl (Prod.ext rfl hf)
      | cons first path =>
        obtain rfl : first = name := hf
        rw [statsOf?_field_cons] at h
        exact .inr (.inl ⟨(path, key), ihn h, rfl⟩)
    · rw [statsOf?_field_of_ne hf] at h
      exact .inr (.inr (ihr h))

theorem Distinct.mem_places (hm : m.Distinct) : place ∈ m.places ↔ (m.statsOf? place).isSome := by
  refine ⟨fun h => ?_, mem_places_of_statsOf?⟩
  induction m generalizing place with
  | empty => simp [places] at h
  | field name stats nested rest ihn ihr =>
    simp only [places, List.cons_append, List.mem_cons, List.mem_append, List.mem_map] at h
    obtain rfl | ⟨⟨path, key⟩, hinner, rfl⟩ | h := h
    · simp [statsOf?, stats?]
    · rw [statsOf?_field_cons]
      exact ihn hm.2.1 hinner
    · have hf : firstName place ≠ name := fun hf => hm.1 (hf ▸ firstName_mem_names h)
      rw [statsOf?_field_of_ne hf]
      exact ihr hm.2.2 h

theorem Distinct.nodup_places (hm : m.Distinct) : m.places.Nodup := by
  induction m with
  | empty => exact List.nodup_nil
  | field name stats nested rest ihn ihr =>
    have hcons : (nested.places.map fun place => (name :: place.1, place.2)).Nodup :=
      (ihn hm.2.1).map fun a b hab => by
        simp only [Prod.mk.injEq, List.cons.injEq, true_and] at hab
        exact Prod.ext hab.1 hab.2
    rw [places, List.cons_append, List.nodup_cons, List.nodup_append]
    refine ⟨?_, hcons, ihr hm.2.2, ?_⟩
    · rw [List.mem_append, not_or]
      exact ⟨by simp, fun h => hm.1 (firstName_mem_names h)⟩
    · rintro a ha b hb rfl
      obtain ⟨inner, -, rfl⟩ := List.mem_map.mp ha
      exact hm.1 (firstName_mem_names hb)

theorem dotted_cons : dotted (name :: path, key) = name ++ "." ++ dotted (path, key) := by
  simp only [dotted, List.cons_append]
  exact String.intercalate_cons_of_ne_nil (by simp)

def conflicting (m : FieldMap) (place : List String × String) : Bool :=
  (m.statsOf? place).any fun s => 1 < s.nonNullTags.length

theorem Distinct.conflicts_eq (hm : m.Distinct) (above : String) :
    m.conflicts above = (m.places.filter m.conflicting).map (above ++ dotted ·) := by
  induction m generalizing above with
  | empty => rfl
  | field name stats nested rest ihn ihr =>
    have hhere : (field name stats nested rest).conflicting ([], name) = decide (1 < stats.nonNullTags.length) := by
      simp [conflicting, statsOf?, stats?]
    have hbelow : (nested.places.map fun place => (name :: place.1, place.2)).filter
        (field name stats nested rest).conflicting =
          (nested.places.filter nested.conflicting).map fun place => (name :: place.1, place.2) := by
      rw [List.filter_map]
      congr 2
      funext place
      simp only [Function.comp_apply, conflicting, statsOf?_field_cons]
    have hafter : rest.places.filter (field name stats nested rest).conflicting =
        rest.places.filter rest.conflicting := by
      refine List.filter_congr fun place hplace => ?_
      have hf : firstName place ≠ name := fun hf => hm.1 (hf ▸ firstName_mem_names hplace)
      simp only [conflicting, statsOf?_field_of_ne hf]
    have hpaths : (nested.places.filter nested.conflicting).map
        (fun place => above ++ dotted (name :: place.1, place.2)) =
          (nested.places.filter nested.conflicting).map ((above ++ name ++ ".") ++ dotted ·) := by
      refine List.map_congr_left fun place _ => ?_
      rw [dotted_cons]
      simp [String.append_assoc]
    rw [conflicts, ihn hm.2.1, ihr hm.2.2, places, List.cons_append, List.filter_cons, List.filter_append,
      hhere, hbelow, hafter, ← hpaths]
    by_cases hconflict : 1 < stats.nonNullTags.length <;> simp [hconflict, dotted]

end FieldMap

/-- What the statistics of a field say of its values, part by part. -/
structure FieldStats.CountsOf (g : Graph) (values : List Item) (s : FieldStats) : Prop where
  frequency : s.frequency = values.length
  mem_tags : ∀ t, t ∈ s.tags ↔ ∃ v ∈ values, g.tag v = t
  nodup_tags : s.tags.Nodup
  isArray : s.isArray = true ↔ ∃ v ∈ values, g.tag v = .array
  elementTags_eq_none : s.elementTags = none ↔ ∀ v ∈ values, g.tag v ≠ .array
  mem_elementTags : ∀ tags, s.elementTags = some tags →
    tags.Nodup ∧ ∀ t, t ∈ tags ↔ ∃ e ∈ values.flatMap g.elements, g.tag e = t
  hasMap : s.hasMap = true ↔ ∃ item ∈ values ++ values.flatMap g.elements, g.isMapping item
  numbers : s.numbers.map (fun n => .scalar (.number n)) =
    values.filter fun v => g.tag v = .number ∧ v ≠ .scalar (.number (.real .nan))
  elementNumbers : s.elementNumbers.map (fun n => .scalar (.number n)) =
    (values.flatMap g.elements).filter fun e => g.tag e = .number ∧ e ≠ .scalar (.number (.real .nan))
  objectElements : s.objectElements = (values.flatMap g.elements).countP g.isMapping
  arrayDerived : s.arrayDerived = true ↔ 0 < s.objectElements

theorem Item.map_number? (item : Item) : item.number?.map (fun n => .scalar (.number n)) =
    if g.tag item = .number ∧ item ≠ .scalar (.number (.real .nan)) then some item else none := by
  match item with
  | .node _ | .scalar .null | .scalar (.bool _) | .scalar (.text _) | .scalar (.foreign _) =>
    simp [number?, Graph.tag_eq_number_iff]
  | .scalar (.number (.whole _)) => simp [number?, Graph.tag_eq_number_iff]
  | .scalar (.number (.real x)) => cases x <;> simp [number?, Graph.tag_eq_number_iff]

theorem Item.map_filterMap_number? (items : List Item) :
    (items.filterMap Item.number?).map (fun n => .scalar (.number n)) =
      items.filter fun v => g.tag v = .number ∧ v ≠ .scalar (.number (.real .nan)) := by
  rw [List.map_filterMap, ← List.filterMap_eq_filter]
  congr 1
  funext v
  rw [Item.map_number? (g := g)]
  simp [Option.guard]

namespace FieldStats

theorem countsOf_summary (values : List Item) : (summary g values).CountsOf g values where
  frequency := rfl
  mem_tags t := by simp [summary]
  nodup_tags := TagSet.nodup_ofList _
  isArray := isArray_summary
  elementTags_eq_none := by
    simp only [summary, ite_eq_right_iff, reduceCtorEq, imp_false, List.any_eq_true, beq_iff_eq, not_exists,
      not_and, ne_eq]
  mem_elementTags tags htags := by
    have hgetD := getD_elementTags_summary (g := g) values
    rw [htags, Option.getD_some] at hgetD
    subst hgetD
    exact ⟨TagSet.nodup_ofList _, fun t => by rw [TagSet.mem_ofList, List.mem_map]⟩
  hasMap := by
    simp only [summary, Bool.or_eq_true, List.any_eq_true, beq_iff_eq, Graph.tag_eq_object_iff,
      List.mem_append, or_and_right, exists_or]
  numbers := Item.map_filterMap_number? values
  elementNumbers := Item.map_filterMap_number? _
  objectElements := List.countP_eq_length_filter.symm
  arrayDerived := by
    simp only [summary, List.any_eq_true, beq_iff_eq, Graph.tag_eq_object_iff, ← List.countP_eq_length_filter,
      List.countP_pos_iff]

theorem CountsOf.markedIn {values : List Item} {s : FieldStats} (h : s.CountsOf g values)
    (container : Option FieldStats) : (s.markedIn container).CountsOf g values :=
  ⟨h.frequency, h.mem_tags, h.nodup_tags, h.isArray, h.elementTags_eq_none, h.mem_elementTags, h.hasMap,
    h.numbers, h.elementNumbers, h.objectElements, h.arrayDerived⟩

end FieldStats

namespace Graph

variable (g) in
/-- Whether a field is absent from some of the objects that lie in arrays together: these and the plain
objects are counted by whichever of values and elements there are more. -/
def LackedAt (objects : List Item) (path : List String) (key : String) : Prop :=
  ∃ above name, path = above ++ [name] ∧
    0 < ((g.valuesAt objects above name).flatMap g.elements).countP g.isMapping ∧
    (g.valuesAt objects path key).length < max (g.valuesAt objects above name).length
      (((g.valuesAt objects above name).flatMap g.elements).countP g.isMapping)

theorem lackedAt_concat {objects : List Item} {above : List String} {name key : String} :
    g.LackedAt objects (above ++ [name]) key ↔
      0 < ((g.valuesAt objects above name).flatMap g.elements).countP g.isMapping ∧
        (g.valuesAt objects (above ++ [name]) key).length < max (g.valuesAt objects above name).length
          (((g.valuesAt objects above name).flatMap g.elements).countP g.isMapping) := by
  constructor
  · rintro ⟨up, last, hpath, hlacked⟩
    obtain ⟨rfl, hlast⟩ := List.append_inj' hpath rfl
    cases List.singleton_inj.mp hlast
    exact hlacked
  · exact fun hlacked => ⟨above, name, rfl, hlacked⟩

variable (g) in
/-- Whether two of the values at a path have different tags, neither of which is that of null. -/
def ConflictAt (objects : List Item) (path : List String) (key : String) : Prop :=
  ∃ v ∈ g.valuesAt objects path key, ∃ w ∈ g.valuesAt objects path key,
    g.tag v ≠ .null ∧ g.tag w ≠ .null ∧ g.tag v ≠ g.tag w

instance (objects : List Item) (path : List String) (key : String) :
    Decidable (g.ConflictAt objects path key) :=
  inferInstanceAs (Decidable (∃ v ∈ _, ∃ w ∈ _, _))

end Graph

theorem FieldStats.one_lt_nonNullTags_iff {values : List Item} :
    1 < (summary g values).nonNullTags.length ↔
      ∃ v ∈ values, ∃ w ∈ values, g.tag v ≠ .null ∧ g.tag w ≠ .null ∧ g.tag v ≠ g.tag w := by
  constructor
  · intro hmany
    by_contra hnone
    have hagree : ∀ v ∈ values, ∀ w ∈ values, g.tag v ≠ .null → g.tag w ≠ .null → g.tag v = g.tag w := by
      intro v hv w hw hvn hwn
      by_contra hvw
      exact hnone ⟨v, hv, w, hw, hvn, hwn, hvw⟩
    obtain ⟨tag, htag⟩ := List.exists_mem_of_length_pos (Nat.lt_of_succ_lt hmany)
    obtain ⟨⟨v, hv, rfl⟩, hvn⟩ := mem_nonNullTags_summary.mp htag
    have hall : ∀ other ∈ (summary g values).nonNullTags, other = g.tag v := by
      intro other hother
      obtain ⟨⟨w, hw, rfl⟩, hwn⟩ := mem_nonNullTags_summary.mp hother
      exact hagree w hw v hv hwn hvn
    have hle := TagSet.length_le_one (nodup_nonNullTags_summary values) hall
    omega
  · rintro ⟨v, hv, w, hw, hvn, hwn, hvw⟩
    by_contra hfew
    exact hvw (tag_eq_of_agreed (not_lt.mp hfew) hv hvn (mem_nonNullTags_summary.mpr ⟨⟨w, hw, rfl⟩, hwn⟩))

namespace Analysis

variable {objects : List Item} {path : List String} {key : String}

theorem absentIn_iff (h : ∀ o ∈ objects, g.Acyclic o) :
    (FieldStats.summary g (g.valuesAt objects path key)).absentIn ((FieldMap.ofObjects g objects).statsAt? path) =
      true ↔ g.LackedAt objects path key := by
  cases path using List.reverseRecOn with
  | nil => simp [FieldStats.absentIn, FieldMap.statsAt?, Graph.LackedAt]
  | append_singleton above name =>
    have hcounts := FieldStats.countsOf_summary (g := g) (g.valuesAt objects above name)
    rw [Graph.lackedAt_concat, FieldMap.statsAt?_concat, FieldMap.stats?_descend_ofObjects h]
    split
    · rename_i hnone
      simp [FieldStats.absentIn, hnone]
    · simp only [FieldStats.absentIn, Bool.and_eq_true, hcounts.arrayDerived, hcounts.objectElements,
        decide_eq_true_eq]
      refine and_congr_right fun hpos => ?_
      rw [FieldStats.scopeSize, if_pos (hcounts.arrayDerived.mpr (hcounts.objectElements ▸ hpos)),
        hcounts.frequency, hcounts.objectElements]
      rfl

variable {documents : List Item}

theorem isSome_statsOf?_iff (hdocs : ∀ d ∈ documents, g.isMapping d → g.Acyclic d) :
    ((ofDocuments g documents).fields.statsOf? (path, key)).isSome ↔
      g.valuesAt (documents.filter g.isMapping) path key ≠ [] := by
  rw [FieldMap.statsOf?, stats?_descend hdocs]
  split <;> simp_all

theorem conflicting_eq (hdocs : ∀ d ∈ documents, g.isMapping d → g.Acyclic d) (place : List String × String) :
    (ofDocuments g documents).fields.conflicting place =
      decide (g.ConflictAt (documents.filter g.isMapping) place.1 place.2) := by
  rw [Bool.eq_iff_iff, decide_eq_true_iff, Graph.ConflictAt, ← FieldStats.one_lt_nonNullTags_iff,
    FieldMap.conflicting, FieldMap.statsOf?, stats?_descend hdocs]
  split
  · rename_i hnone
    simp [FieldStats.summary, FieldStats.nonNullTags, TagSet.ofList, TagSet.nonNull, hnone]
  · exact decide_eq_true_iff

theorem isNullable_iff (hdocs : ∀ d ∈ documents, g.isMapping d → g.Acyclic d) {s : FieldStats}
    (hs : ((ofDocuments g documents).fields.descend path).stats? key = some s) :
    s.isNullable = true ↔ g.LackedAt (documents.filter g.isMapping) path key := by
  have hobjects : ∀ o ∈ documents.filter g.isMapping, g.Acyclic o := by
    intro o ho
    rw [List.mem_filter] at ho
    exact hdocs o ho.1 ho.2
  rw [stats?_descend hdocs] at hs
  split at hs
  · cases hs
  · cases hs
    rw [← absentIn_iff hobjects]
    simp [FieldStats.markedIn, FieldStats.summary]

theorem run_eq_ok (hne : documents ≠ []) : run g documents = .ok (ofDocuments g documents) := by
  rw [run, if_neg (by simpa using hne)]

/-- A run over documents without cycles has statistics at a path exactly when there are values, and they
are those of these values. -/
theorem run_reports (g : Graph) (documents : List Item) (hne : documents ≠ [])
    (hdocs : ∀ d ∈ documents, g.isMapping d → g.Acyclic d) :
    let mappings := documents.filter g.isMapping
    ∃ a, run g documents = .ok a ∧
      (∀ path key, (((a.fields.descend path).stats? key).isSome ↔ g.valuesAt mappings path key ≠ []) ∧
        ∀ s, (a.fields.descend path).stats? key = some s → s.CountsOf g (g.valuesAt mappings path key) ∧
          (s.isNullable = true ↔ g.LackedAt mappings path key)) ∧
      (∀ path, (a.fields.descend path).names = (g.keysAt mappings path).eraseDups) ∧
      a.fieldCount = (g.keysAt mappings []).eraseDups.length ∧
      a.documentCount = mappings.length ∧
      a.fields.places.Nodup ∧
      (∀ path key, (path, key) ∈ a.fields.places ↔ g.valuesAt mappings path key ≠ []) ∧
      a.conflicts =
        (a.fields.places.filter fun place => g.ConflictAt mappings place.1 place.2).map FieldMap.dotted := by
  intro mappings
  have hobjects : ∀ o ∈ mappings, g.Acyclic o := by
    intro o ho
    rw [List.mem_filter] at ho
    exact hdocs o ho.1 ho.2
  have hdistinct := fields_distinct g documents
  have hnames : ∀ path, ((ofDocuments g documents).fields.descend path).names =
      (g.keysAt mappings path).eraseDups := by
    intro path
    rw [← FieldMap.names_descend_ofObjects hobjects]
    exact FieldMap.names_descend_markAbsent _ path
  refine ⟨ofDocuments g documents, ?_, fun path key => ⟨isSome_statsOf?_iff hdocs, ?_⟩, hnames, ?_, rfl,
    hdistinct.nodup_places, fun path key => hdistinct.mem_places.trans (isSome_statsOf?_iff hdocs), ?_⟩
  · exact run_eq_ok hne
  · intro s hs
    refine ⟨?_, isNullable_iff hdocs hs⟩
    rw [stats?_descend hdocs] at hs
    split at hs
    · cases hs
    · cases hs
      exact (FieldStats.countsOf_summary _).markedIn _
  · rw [← hnames []]
    exact (List.length_map _).symm
  · change (ofDocuments g documents).fields.conflicts "" = _
    rw [hdistinct.conflicts_eq]
    simp only [String.empty_append, funext (conflicting_eq hdocs), mappings]

end Analysis

def Graph.mixedLines : Graph where
  nodes := #[
    .mapping [(.text "sku", .scalar (.text "a"))],
    .mapping [(.text "sku", .scalar .null)],
    .sequence false [.node 0, .scalar (.number (.whole 7)), .node 1],
    .mapping [(.text "lines", .node 2)],
    .mapping [(.text "sku", .scalar (.bool true)), (.text "quantity", .scalar (.number (.whole 2)))],
    .mapping [(.text "note", .scalar .null), (.text "lines", .node 4)]]

/-- The single object counts with the elements of the list: its keys are in conflict with theirs, and
the quantity is absent from one of two. -/
theorem Analysis.run_reports_mixedLines :
    let documents := [Item.node 3, .scalar (.text "skipped"), .node 5]
    documents ≠ [] ∧ ∃ a, run .mixedLines documents = .ok a ∧ a.documentCount = 2 ∧ a.fieldCount = 2 ∧
      "lines.sku" ∈ a.conflicts ∧
      ∃ s, (a.fields.descend ["lines"]).stats? "quantity" = some s ∧ s.frequency = 1 ∧
        Tag.number ∈ s.tags ∧ s.isNullable = true := by
  intro documents
  have hlayered : Graph.mixedLines.Layered := by decide
  have hne : documents ≠ [] := by decide
  obtain ⟨a, hrun, hstats, -, hcount, hdocuments, -, hplaces, hconflicts⟩ :=
    run_reports .mixedLines documents hne fun d _ _ => hlayered.acyclic d
  obtain ⟨hsome, hcounts⟩ := hstats ["lines"] "quantity"
  obtain ⟨s, hs⟩ := Option.isSome_iff_exists.mp (hsome.mpr (by decide))
  obtain ⟨hcountsOf, hnullable⟩ := hcounts s hs
  refine ⟨hne, a, hrun, hdocuments.trans (by decide), hcount.trans (by decide +kernel), ?_, s, hs,
    hcountsOf.frequency.trans (by decide), (hcountsOf.mem_tags _).mpr (by decide),
    hnullable.mpr ⟨[], "lines", rfl, by decide, by decide⟩⟩
  rw [hconflicts]
  refine List.mem_map.mpr ⟨(["lines"], "sku"), List.mem_filter.mpr ⟨?_, by decide⟩, by decide +kernel⟩
  exact (hplaces _ _).mpr (by decide)

end SchemaInference
