import SchemaInference.Proofs.Field.Presence
import SchemaInference.Proofs.Number.Comparison
import SchemaInference.Proofs.Schema.Observed

set_option autoImplicit false

namespace SchemaInference

/-- What a required field promises of the objects at its type's path.  Its share reaches the threshold
where objects are counted by a scope that may exceed them, hence without rounding also its share of the
objects themselves. -/
structure FieldDefinition.RequiredOf (r : Rounding) (s : Settings) (g : Graph) (objects : List Item)
    (fromArrays : Prop) (f : FieldDefinition) : Prop where
  never_null : ∀ o ∈ objects, .scalar .null ∉ g.valuesUnder f.name o
  rounded_share : ∃ scope : Nat, objects.length ≤ scope ∧
    Double.le s.requiredThreshold (.ofRat r ((objects.countP (g.holdsKey f.name) : Rat) / scope)) = true
  share : r = .exact → ∀ threshold, s.requiredThreshold.toRat? = some threshold →
    threshold * objects.length ≤ objects.countP (g.holdsKey f.name)
  everywhere : fromArrays → ∀ o ∈ objects, g.holdsKey f.name o

namespace Settings

variable {r : Rounding} {s : Settings} {g : Graph} {documents : List Item} {rootName : String} {count : Int}
  {d : TypeDefinitions}

theorem isRequired_iff {stats : FieldStats} {scope : Int} :
    s.isRequired r stats scope = true ↔ stats.isNullable = false ∧ Tag.null ∉ stats.tags ∧ 0 < scope ∧
      Double.le s.requiredThreshold (.ofRat r ((stats.frequency : Rat) / scope)) = true := by
  unfold isRequired
  split
  · rename_i hnullable
    rw [Bool.or_eq_true, decide_eq_true_eq] at hnullable
    grind
  · rename_i hnullable
    rw [Bool.or_eq_true, decide_eq_true_eq, not_or, Bool.not_eq_true] at hnullable
    split
    · rename_i hscope
      simp only [Bool.false_eq_true, false_iff]
      omega
    · rename_i hscope
      have hpos : 0 < scope := by omega
      simp [hnullable, hpos]

end Settings

namespace Promotes

variable {r : Rounding} {s : Settings} {g : Graph} {key : String} {values : List Item}
  {container : Option FieldStats} {nested : FieldMap} {depth : Nat} {p : Promotion}

theorem of_array (h : Promotes r s key ((FieldStats.summary g values).markedIn container) nested depth p)
    (harray : ∃ v ∈ values, g.tag v = .array) :
    (∀ v ∈ values, g.tag v ≠ .null → g.tag v = .array) ∧
      (values.flatMap g.elements).filter g.isMapping ≠ [] ∧
      (FieldStats.summary g values).arrayDerived = true ∧
      p.scope = (FieldStats.summary g values).scopeSize ∧
      p.scope = max values.length ((values.flatMap g.elements).filter g.isMapping).length := by
  cases h with
  | objects _ _ _ _ hplain => exact absurd (FieldStats.isArray_summary.mpr harray) hplain
  | elements _ _ hagreed _ helements =>
    have hagreed : (FieldStats.summary g values).nonNullTags.length ≤ 1 := hagreed
    have helements : (FieldStats.summary g values).nonNullElementTags = [.object] := helements
    have hobject : Tag.object ∈ (FieldStats.summary g values).nonNullElementTags := by simp [helements]
    obtain ⟨⟨e, he, htag⟩, -⟩ := FieldStats.mem_nonNullElementTags_summary.mp hobject
    have hderived : (FieldStats.summary g values).arrayDerived = true :=
      List.any_eq_true.mpr ⟨e, he, beq_iff_eq.mpr htag⟩
    have hmem := FieldStats.array_mem_nonNullTags (FieldStats.isArray_summary.mpr harray)
    refine ⟨fun v hv hnull => FieldStats.tag_eq_of_agreed hagreed hv hnull hmem, ?_, hderived, rfl, ?_⟩
    · exact List.ne_nil_of_mem (List.mem_filter.mpr ⟨he, Graph.tag_eq_object_iff.mp htag⟩)
    · change (FieldStats.summary g values).scopeSize = _
      rw [FieldStats.scopeSize, if_pos hderived]
      rfl

theorem length_objects_le (h : Promotes r s key ((FieldStats.summary g values).markedIn container) nested depth p) :
    (values.flatMap g.objectsOf).length ≤ p.scope ∧ ((∃ v ∈ values, g.tag v = .array) →
      (FieldStats.summary g values).arrayDerived = true ∧
        p.scope = (FieldStats.summary g values).scopeSize) := by
  by_cases harray : ∃ v ∈ values, g.tag v = .array
  · obtain ⟨harrays, -, hderived, hscope, hmax⟩ := h.of_array harray
    refine ⟨?_, fun _ => ⟨hderived, hscope⟩⟩
    rw [Graph.flatMap_objectsOf_of_arrays harrays, hmax]
    exact Nat.le_max_right _ _
  · refine ⟨?_, fun hsome => absurd hsome harray⟩
    cases h with
    | elements _ _ _ hsome => exact absurd (FieldStats.isArray_summary.mp hsome) harray
    | objects => exact Graph.length_flatMap_objectsOf_le fun v hv htag => harray ⟨v, hv, htag⟩

end Promotes

namespace Settings

variable {r : Rounding} {s : Settings} {g : Graph} {documents : List Item} {rootName : String} {count : Int}
  {d : TypeDefinitions}

theorem Describes.required_iff {promoted : Option String} {container : Option FieldStats} {scope : Int}
    {objects : List Item} {f : FieldDefinition}
    (h : Describes r s promoted container scope g (objects.flatMap (g.valuesUnder f.name)) f)
    (hone : ∀ o ∈ objects, (g.valuesUnder f.name o).length ≤ 1) :
    f.required = true ↔
      (FieldStats.summary g (objects.flatMap (g.valuesUnder f.name))).absentIn container = false ∧
      (∀ o ∈ objects, .scalar .null ∉ g.valuesUnder f.name o) ∧ 0 < scope ∧
      Double.le s.requiredThreshold (.ofRat r ((objects.countP (g.holdsKey f.name) : Rat) / scope)) = true := by
  have hnull : Tag.null ∉ (FieldStats.summary g (objects.flatMap (g.valuesUnder f.name))).tags ↔
      ∀ o ∈ objects, .scalar .null ∉ g.valuesUnder f.name o := by
    simp only [FieldStats.summary, TagSet.mem_ofList, List.mem_map, List.mem_flatMap, Graph.tag_eq_null_iff]
    grind
  have hfrequency : (FieldStats.summary g (objects.flatMap (g.valuesUnder f.name))).frequency =
      objects.countP (g.holdsKey f.name) := Graph.length_valuesUnder_eq_countP hone
  rw [h.required, isRequired_iff, ← hnull, ← hfrequency]
  simp only [FieldStats.markedIn, FieldStats.summary, Bool.false_or]

theorem Describes.requiredOf {promoted : Option String} {container : Option FieldStats} {scope : Nat}
    {objects : List Item} {f : FieldDefinition} {fromArrays : Prop}
    (h : Describes r s promoted container scope g (objects.flatMap (g.valuesUnder f.name)) f)
    (hone : ∀ o ∈ objects, (g.valuesUnder f.name o).length ≤ 1) (hscope : objects.length ≤ scope)
    (hcontainer : fromArrays →
      ∃ c, container = some c ∧ c.arrayDerived = true ∧ objects.length ≤ c.scopeSize)
    (hrequired : f.required = true) : f.RequiredOf r s g objects fromArrays := by
  obtain ⟨habsent, hnull, hpos, hshare⟩ := (h.required_iff hone).mp hrequired
  refine ⟨hnull, ⟨scope, hscope, hshare⟩, ?_, ?_⟩
  · rintro rfl threshold hthreshold
    have hwhole : threshold * scope ≤ objects.countP (g.holdsKey f.name) :=
      (Double.le_ofRat_exact_div hthreshold _ (by exact_mod_cast hpos)).mp hshare
    have hcast : (objects.length : Rat) ≤ scope := by exact_mod_cast hscope
    -- The scope may exceed the objects, which helps a threshold that is not negative.
    by_cases hsign : 0 ≤ threshold
    · exact (mul_le_mul_of_nonneg_left hcast hsign).trans hwhole
    · have hneg : threshold * objects.length ≤ 0 :=
        mul_nonpos_of_nonpos_of_nonneg (le_of_not_ge hsign) (Nat.cast_nonneg _)
      exact hneg.trans (Nat.cast_nonneg _)
  · intro harrays
    obtain ⟨c, rfl, hderived, hcounted⟩ := hcontainer harrays
    have hfrequency := Graph.length_valuesUnder_eq_countP hone
    simp only [FieldStats.absentIn, hderived, Bool.true_and, decide_eq_false_iff_not, Nat.not_lt] at habsent
    have hall : objects.countP (g.holdsKey f.name) = objects.length := by
      have hle := List.countP_le_length (p := g.holdsKey f.name) (l := objects)
      have habsent : c.scopeSize ≤ (objects.flatMap (g.valuesUnder f.name)).length := habsent
      omega
    exact List.countP_eq_length.mp hall

section Sample

variable (hdocs : ∀ doc ∈ documents, g.isMapping doc → g.Acyclic doc)
  (h : s.build r (Analysis.ofDocuments g documents).fields rootName
    (documents.filter g.isMapping).length = .ok d)

include hdocs h

/-- The scope of a type is no less than the number of objects at its path, and where the type comes from
arrays the field that contains them counts as many. -/
theorem EmittedAt.exists_scope {path : List String} {t : TypeDefinition}
    (ht : EmittedAt r s (Analysis.ofDocuments g documents).fields rootName d path t) :
    ∃ scope : Nat, (g.objectsAt (documents.filter g.isMapping) path).length ≤ scope ∧
      s.fieldDefinitions r ((Analysis.ofDocuments g documents).fields.descend path) path scope
        (promotedNames (promotions r s (Analysis.ofDocuments g documents).fields rootName)) = .ok t.fields ∧
      ((∃ above key, path = above ++ [key] ∧
          ∃ v ∈ g.valuesAt (documents.filter g.isMapping) above key, g.tag v = .array) →
        ∃ c, (FieldMap.ofObjects g (documents.filter g.isMapping)).statsAt? path = some c ∧
          c.arrayDerived = true ∧ (g.objectsAt (documents.filter g.isMapping) path).length ≤ c.scopeSize) := by
  have hfields := Analysis.fields_distinct g documents
  cases ht with
  | root =>
    refine ⟨_, Nat.le_refl _, (build_eq_ok h).1, ?_⟩
    rintro ⟨above, key, hpath, -⟩
    simp at hpath
  | @nested plan t hzip =>
    obtain ⟨hplan, hdefs, -⟩ := mem_zip_nested h hzip
    rw [promotions_fields_eq hfields hplan] at hdefs
    obtain ⟨above, key, stats, hplaced⟩ := promotions_placed hfields hplan
    have hpath : plan.path = above ++ [key] := hplaced.path_eq
    have hstats := hplaced.stats_eq
    rw [Analysis.stats?_descend hdocs] at hstats
    split at hstats
    · cases hstats
    · rename_i hvalues
      cases hstats
      -- The statistics that the promotion looked at are those of the values at the type's path.
      obtain ⟨hscope, harrays⟩ := (promotes_of_promotion? hplaced.promotion).length_objects_le
      dsimp only at hscope harrays
      rw [← Graph.objectsAt_concat_eq_valuesAt, ← hpath] at hscope
      refine ⟨plan.frequency, hscope, hdefs, ?_⟩
      rintro ⟨up, name, hsplit, harray⟩
      obtain ⟨rfl, hname⟩ := List.append_inj' (hpath.symm.trans hsplit) rfl
      cases List.singleton_inj.mp hname
      obtain ⟨hderived, hcounted⟩ := harrays harray
      have hobjects : ∀ o ∈ documents.filter g.isMapping, g.Acyclic o := by
        intro o ho
        rw [List.mem_filter] at ho
        exact hdocs o ho.1 ho.2
      refine ⟨_, ?_, hderived, hcounted ▸ hscope⟩
      rw [hpath, FieldMap.statsAt?_concat, FieldMap.stats?_descend_ofObjects hobjects, if_neg hvalues]

end Sample

end Settings

/-- A required field of an inferred type keeps its promise at the path of the type.  In the root type a
field is required as soon as it is never null and its share reaches the threshold. -/
theorem InferredSchema.infer_required (r : Rounding) (s : Settings) (g : Graph) (documents : List Item)
    (typeName : String) (schema : InferredSchema)
    (hdocs : ∀ doc ∈ documents, g.isMapping doc → g.Acyclic doc ∧ g.StringKeyed doc)
    (hinfer : infer r s g documents typeName = .ok schema) :
    let mappings := documents.filter g.isMapping
    (∀ t ∈ schema.types, ∃ path,
      Settings.EmittedAt r s (Analysis.ofDocuments g documents).fields typeName
        ⟨schema.rootType, schema.nestedTypes⟩ path t ∧
      ∀ f ∈ t.fields, f.required = true → f.RequiredOf r s g (g.objectsAt mappings path)
        (∃ above key, path = above ++ [key] ∧ ∃ v ∈ g.valuesAt mappings above key, g.tag v = .array)) ∧
    ∀ f ∈ schema.rootType.fields, (∀ o ∈ mappings, .scalar .null ∉ g.valuesUnder f.name o) →
      (Double.le s.requiredThreshold
          (.ofRat r ((mappings.countP (g.holdsKey f.name) : Rat) / mappings.length)) = true →
        f.required = true) ∧
      (r = .exact → ∀ threshold, s.requiredThreshold.toRat? = some threshold →
        threshold * mappings.length ≤ mappings.countP (g.holdsKey f.name) → f.required = true) := by
  intro mappings
  obtain ⟨-, hbuild⟩ := infer_eq_ok hinfer
  have hacyclic : ∀ doc ∈ documents, g.isMapping doc → g.Acyclic doc :=
    fun doc hdoc hm => (hdocs doc hdoc hm).1
  have hkeyed : ∀ doc ∈ mappings, g.StringKeyed doc := by
    intro doc hdoc
    rw [List.mem_filter] at hdoc
    exact (hdocs doc hdoc.1 hdoc.2).2
  have hone : ∀ path key, ∀ o ∈ g.objectsAt mappings path, (g.valuesUnder key o).length ≤ 1 :=
    fun path key o ho => Graph.length_valuesUnder_le_of_mem_objectsAt hkeyed ho key
  constructor
  · intro t ht
    obtain ⟨path, hat⟩ := Settings.exists_emittedAt hbuild ht
    obtain ⟨scope, hscope, hdefs, hcontainer⟩ := hat.exists_scope hacyclic hbuild
    refine ⟨path, hat, fun f hf hrequired => ?_⟩
    have hdescribes := Settings.fieldDefinitions_describe hacyclic hdefs hf
    exact hdescribes.requiredOf (hone path f.name) hscope hcontainer hrequired
  · intro f hf hnull
    have hdescribes := Settings.fieldDefinitions_describe hacyclic (Settings.build_eq_ok hbuild).1 hf
    have hiff := hdescribes.required_iff (hone [] f.name)
    have hpos : 0 < mappings.length := by
      rw [List.length_pos_iff]
      intro hempty
      have hobserved := hdescribes.observed
      change mappings.flatMap (g.valuesUnder f.name) ≠ [] at hobserved
      rw [hempty] at hobserved
      exact hobserved rfl
    have hrequired : Double.le s.requiredThreshold
        (.ofRat r ((mappings.countP (g.holdsKey f.name) : Rat) / mappings.length)) = true → f.required = true :=
      fun hshare => hiff.mpr ⟨rfl, hnull, by exact_mod_cast hpos, hshare⟩
    refine ⟨hrequired, ?_⟩
    rintro rfl threshold hthreshold hshare
    exact hrequired ((Double.le_ofRat_exact_div hthreshold _ hpos).mpr hshare)

def Graph.orderLines : Graph where
  nodes := #[
    .mapping [(.text "sku", .scalar (.text "a")), (.text "quantity", .scalar (.number (.whole 2)))],
    .mapping [(.text "sku", .scalar (.text "b"))],
    .sequence false [.node 0, .node 1],
    .mapping [(.text "lines", .node 2)]]

/-- Half of the lines hold the quantity, which meets the threshold and yet is not enough in an array. -/
theorem InferredSchema.infer_required_orderLines :
    let s := { Settings.standard with requiredThreshold := .finite (1 / 2) }
    ∃ schema, infer .exact s .orderLines [.node 3] "Order" = .ok schema ∧
      schema.types.map (fun t => (t.name, t.fields)) =
        [("Order", [⟨"lines", .nestedList "OrderLine", true⟩]),
          ("OrderLine", [⟨"sku", .scalar .string, true⟩, ⟨"quantity", .scalar .int, false⟩])] ∧
      ∀ t ∈ schema.types, ∃ path, ∀ f ∈ t.fields, f.required = true →
        f.RequiredOf .exact s .orderLines (Graph.orderLines.objectsAt [.node 3] path)
          (∃ above key, path = above ++ [key] ∧
            ∃ v ∈ Graph.orderLines.valuesAt [.node 3] above key, Graph.orderLines.tag v = .array) := by
  intro s
  have hlayered : Graph.orderLines.Layered := by decide
  have hview : ((infer .exact s .orderLines [.node 3] "Order").toOption.map
      fun schema => schema.types.map fun t => (t.name, t.fields)) =
        some [("Order", [⟨"lines", .nestedList "OrderLine", true⟩]),
          ("OrderLine", [⟨"sku", .scalar .string, true⟩, ⟨"quantity", .scalar .int, false⟩])] := by
    decide +kernel
  obtain ⟨schema, hinfer, hshown⟩ := exists_ok_of_toOption hview
  obtain ⟨hall, -⟩ := infer_required .exact s .orderLines [.node 3] "Order" schema
    (fun doc _ _ => ⟨hlayered.acyclic doc, hlayered.stringKeyed doc⟩) hinfer
  refine ⟨schema, hinfer, hshown, fun t ht => ?_⟩
  obtain ⟨path, -, hfields⟩ := hall t ht
  exact ⟨path, hfields⟩

end SchemaInference
