import SchemaInference.Proofs.Document.Trees
import SchemaInference.Proofs.Field.Findings

set_option autoImplicit false

namespace SchemaInference

namespace Graph

variable {g : Graph}

variable (g) in
def holdsKey (key : String) (item : Item) : Bool :=
  !(g.valuesUnder key item).isEmpty

theorem StringKeyed.length_valuesUnder_le {item : Item} (h : g.StringKeyed item) (key : String) :
    (g.valuesUnder key item).length ≤ 1 := by
  unfold valuesUnder
  cases hentries : g.entries? item with
  | none => simp
  | some raw =>
    obtain ⟨entries, rfl, hnodup⟩ := h item raw .refl hentries
    clear hentries h
    rw [Option.getD_some, List.filterMap_map]
    induction entries with
    | nil => simp
    | cons e entries ih =>
      rw [List.map_cons, List.nodup_cons] at hnodup
      obtain ⟨hfirst, hrest⟩ := hnodup
      by_cases hkey : e.1 = key
      · have hnone : ∀ other ∈ entries, other.1 ≠ key := by
          intro other hother heq
          exact hfirst (List.mem_map.mpr ⟨other, hother, heq.trans hkey.symm⟩)
        rw [List.filterMap_cons_some (b := e.2) (by simp [Value.display, hkey]), List.filterMap_eq_nil_iff.mpr]
        · simp
        · intro other hother
          simp [Value.display, hnone other hother]
      · rw [List.filterMap_cons_none (by simp [Value.display, hkey])]
        exact ih hrest

theorem length_valuesUnder_eq_countP {objects : List Item} {key : String}
    (h : ∀ o ∈ objects, (g.valuesUnder key o).length ≤ 1) :
    (objects.flatMap (g.valuesUnder key)).length = objects.countP (g.holdsKey key) := by
  induction objects with
  | nil => rfl
  | cons o objects ih =>
    rw [List.forall_mem_cons] at h
    rw [List.flatMap_cons, List.length_append, List.countP_cons, ih h.2, Nat.add_comm]
    have hone := h.1
    cases hvalues : g.valuesUnder key o with
    | nil => simp [holdsKey, hvalues]
    | cons v more =>
      rw [hvalues, List.length_cons] at hone
      have hmore : more = [] := List.length_eq_zero_iff.mp (by omega)
      simp [holdsKey, hvalues, hmore]

theorem length_flatMap_objectsOf_le {values : List Item} (h : ∀ v ∈ values, g.tag v ≠ .array) :
    (values.flatMap g.objectsOf).length ≤ values.length := by
  induction values with
  | nil => simp
  | cons v values ih =>
    rw [List.forall_mem_cons] at h
    have hv : (g.objectsOf v).length ≤ 1 := by
      unfold objectsOf
      split
      · simp
      · simp [FieldStats.elements_eq_nil_of_tag h.1]
    have hrest := ih h.2
    rw [List.flatMap_cons, List.length_append, List.length_cons]
    omega

theorem flatMap_objectsOf_eq {values : List Item} (h : ∀ v ∈ values, g.tag v ≠ .object) :
    values.flatMap g.objectsOf = (values.flatMap g.elements).filter g.isMapping := by
  induction values with
  | nil => rfl
  | cons v values ih =>
    rw [List.forall_mem_cons] at h
    have hv : ¬ g.isMapping v := fun hm => h.1 (tag_eq_object_iff.mpr hm)
    rw [List.flatMap_cons, List.flatMap_cons, List.filter_append, ih h.2, objectsOf, if_neg hv]

theorem flatMap_objectsOf_of_arrays {values : List Item} (h : ∀ v ∈ values, g.tag v ≠ .null → g.tag v = .array) :
    values.flatMap g.objectsOf = (values.flatMap g.elements).filter g.isMapping := by
  refine flatMap_objectsOf_eq fun v hv hobject => ?_
  have harray := h v hv (by simp [hobject])
  rw [hobject] at harray
  cases harray

theorem countP_flatMap_objectsOf (p : Item → Bool) (values : List Item) :
    (values.flatMap g.objectsOf).countP p =
      (values.filter g.isMapping).countP p + ((values.flatMap g.elements).filter g.isMapping).countP p := by
  induction values with
  | nil => rfl
  | cons v values ih =>
    rw [List.flatMap_cons, List.countP_append, ih, List.flatMap_cons, List.filter_append, List.countP_append,
      List.filter_cons, objectsOf]
    split
    · rename_i hmapping
      rw [elements_of_isMapping hmapping]
      simp only [List.countP_cons, List.countP_nil, List.filter_nil]
      omega
    · omega

theorem length_valuesUnder_le_of_mem_objectsAt {mappings : List Item} (h : ∀ m ∈ mappings, g.StringKeyed m)
    {path : List String} {o : Item} (ho : o ∈ g.objectsAt mappings path) (key : String) :
    (g.valuesUnder key o).length ≤ 1 := by
  obtain ⟨m, hm, hreaches⟩ := exists_reaches_of_mem_objectsAt ho
  exact ((h m hm).of_reaches hreaches).length_valuesUnder_le key

theorem length_valuesAt_concat {mappings : List Item} (h : ∀ m ∈ mappings, g.StringKeyed m)
    (above : List String) (name key : String) :
    (g.valuesAt mappings (above ++ [name]) key).length =
      ((g.valuesAt mappings above name).filter g.isMapping).countP (g.holdsKey key) +
        (((g.valuesAt mappings above name).flatMap g.elements).filter g.isMapping).countP (g.holdsKey key) := by
  have hone : ∀ o ∈ g.objectsAt mappings (above ++ [name]), (g.valuesUnder key o).length ≤ 1 :=
    fun o ho => length_valuesUnder_le_of_mem_objectsAt h ho key
  rw [valuesAt, length_valuesUnder_eq_countP hone, objectsAt_concat_eq_valuesAt, countP_flatMap_objectsOf]

/-- A sub-field is absent by the count if the single objects that hold it are fewer than the elements that
lack it, or still fewer than that where there are more values than elements. -/
theorem lackedAt_concat_iff {mappings : List Item} (h : ∀ m ∈ mappings, g.StringKeyed m)
    (above : List String) (name key : String) :
    let values := g.valuesAt mappings above name
    let single := values.filter g.isMapping
    let elements := (values.flatMap g.elements).filter g.isMapping
    let lacking := elements.filter fun e => !g.holdsKey key e
    g.LackedAt mappings (above ++ [name]) key ↔ elements ≠ [] ∧
      (single.countP (g.holdsKey key) < lacking.length ∨
        elements.length + single.countP (g.holdsKey key) < values.length + lacking.length) := by
  intro values single elements lacking
  have hlacking : elements.length = elements.countP (g.holdsKey key) + lacking.length := by
    rw [List.length_eq_countP_add_countP (g.holdsKey key), ← List.countP_eq_length_filter]
    simp
  rw [lackedAt_concat, length_valuesAt_concat h, ← List.length_pos_iff, List.countP_eq_length_filter]
  change 0 < elements.length ∧ single.countP _ + elements.countP _ < max values.length elements.length ↔ _
  omega

end Graph

/-- Where there are objects in arrays, a sub-field is marked as absent if the single objects that hold it are
fewer than the elements that lack it, or still fewer where there are more values than elements.  So one that
an element lacks is marked for certain only where no single object holds it. -/
theorem Analysis.run_marksAbsent (g : Graph) (documents : List Item) (hne : documents ≠ [])
    (hdocs : ∀ doc ∈ documents, g.isMapping doc → g.Acyclic doc ∧ g.StringKeyed doc) :
    ∃ a, run g documents = .ok a ∧ ∀ above name key s,
      let values := g.valuesAt (documents.filter g.isMapping) above name
      let single := values.filter g.isMapping
      let elements := (values.flatMap g.elements).filter g.isMapping
      let lacking := elements.filter fun e => !g.holdsKey key e
      elements ≠ [] → (a.fields.descend (above ++ [name])).stats? key = some s →
        (s.isNullable = true ↔ single.countP (g.holdsKey key) < lacking.length ∨
          elements.length + single.countP (g.holdsKey key) < values.length + lacking.length) ∧
        ((∀ o ∈ single, g.holdsKey key o = false) → lacking ≠ [] → s.isNullable = true) := by
  have hkeyed : ∀ doc ∈ documents.filter g.isMapping, g.StringKeyed doc := by
    intro doc hdoc
    rw [List.mem_filter] at hdoc
    exact (hdocs doc hdoc.1 hdoc.2).2
  refine ⟨ofDocuments g documents, run_eq_ok hne, ?_⟩
  intro above name key s values single elements lacking helements hs
  have hmarked : s.isNullable = true ↔ single.countP (g.holdsKey key) < lacking.length ∨
      elements.length + single.countP (g.holdsKey key) < values.length + lacking.length :=
    (isNullable_iff (fun doc hdoc hm => (hdocs doc hdoc hm).1) hs).trans
      ((Graph.lackedAt_concat_iff hkeyed above name key).trans (and_iff_right helements))
  refine ⟨hmarked, fun hsingle hlacking => hmarked.mpr (.inl ?_)⟩
  have hnone : single.countP (g.holdsKey key) = 0 := by
    rw [List.countP_eq_zero]
    exact fun o ho => by simp [hsingle o ho]
  rw [hnone]
  exact List.length_pos_iff.mpr hlacking

def singleLine : List Value :=
  [.record [("lines", .list [.record [("unit", .text "kg")], .record [("price", .whole 5)]])],
    .record [("lines", .record [("price", .whole 7)])]]

/-- The unit is marked, since the single line does not have one. -/
theorem Analysis.run_marksAbsent_singleLine :
    let (g, documents) := Graph.ofValues singleLine
    ∃ a, run g documents = .ok a ∧
      ∃ s, (a.fields.descend ["lines"]).stats? "unit" = some s ∧ s.isNullable = true := by
  have hkeys : (Graph.ofValues singleLine).1.TextKeyed := by decide +kernel
  obtain ⟨a, hrun, hmarks⟩ := run_marksAbsent (Graph.ofValues singleLine).1 (Graph.ofValues singleLine).2
    (by decide +kernel) fun doc hdoc _ => ⟨Graph.ofValues_acyclic singleLine hdoc, hkeys.stringKeyed doc⟩
  have hview : ((run (Graph.ofValues singleLine).1 (Graph.ofValues singleLine).2).toOption.map
      fun a => ((a.fields.descend ["lines"]).stats? "unit").isSome) = some true := by
    decide +kernel
  rw [hrun] at hview
  obtain ⟨s, hs⟩ := Option.isSome_iff_exists.mp (Option.some.inj hview)
  refine ⟨a, hrun, s, hs, ?_⟩
  exact (hmarks [] "lines" "unit" s (by decide +kernel) hs).2 (by decide +kernel) (by decide +kernel)

/-- The price is not marked, although one of the lines in the list lacks it. -/
theorem Analysis.run_unmarked_singleLine :
    let (g, documents) := Graph.ofValues singleLine
    (∀ doc ∈ documents, g.Acyclic doc ∧ g.StringKeyed doc) ∧
      (∃ e ∈ (g.valuesAt documents [] "lines").flatMap g.elements,
        g.isMapping e ∧ g.holdsKey "price" e = false) ∧
      ∃ a, run g documents = .ok a ∧
        ((a.fields.descend ["lines"]).stats? "price").map (·.isNullable) = some false := by
  have hkeys : (Graph.ofValues singleLine).1.TextKeyed := by decide +kernel
  refine ⟨fun doc hdoc => ⟨Graph.ofValues_acyclic singleLine hdoc, hkeys.stringKeyed doc⟩, by decide +kernel, ?_⟩
  exact ⟨_, run_eq_ok (by decide +kernel), by decide +kernel⟩

end SchemaInference
