import SchemaInference.Proofs.Schema.Requiredness

set_option autoImplicit false

namespace SchemaInference

namespace Settings

variable {r : Rounding} {s : Settings} {g : Graph} {documents : List Item} {rootName : String} {count : Int}
  {d : TypeDefinitions}

/-- A field of elements that are counted by themselves or by a greater number is required if they are no
fewer than that number and all of them hold it, unless even the whole is below the threshold. -/
theorem Describes.required_iff_of_elements {promoted : Option String} {container : Option FieldStats}
    {elements : List Item} {n : Nat} {f : FieldDefinition} (helements : elements ≠ [])
    (h : Describes r s promoted container (max n elements.length : Nat) g
      (elements.flatMap (g.valuesUnder f.name)) f)
    (hone : ∀ e ∈ elements, (g.valuesUnder f.name e).length ≤ 1)
    (habsent : (FieldStats.summary g (elements.flatMap (g.valuesUnder f.name))).absentIn container = true ↔
      elements.countP (g.holdsKey f.name) < max n elements.length) :
    f.required = true ↔ Double.le s.requiredThreshold (.ofRat r 1) = true ∧ n ≤ elements.length ∧
      ∀ e ∈ elements, g.holdsKey f.name e ∧ .scalar .null ∉ g.valuesUnder f.name e := by
  have hpos : 0 < elements.length := List.length_pos_iff.mpr helements
  have hle := List.countP_le_length (p := g.holdsKey f.name) (l := elements)
  have hwhole : (elements.length : Rat) / ((elements.length : Nat) : Int) = 1 := by
    rw [Int.cast_natCast]
    exact div_self (by exact_mod_cast hpos.ne')
  rw [h.required_iff hone, ← Bool.not_eq_true, habsent, Nat.not_lt]
  constructor
  · rintro ⟨hcount, hnull, -, hshare⟩
    have hall : elements.countP (g.holdsKey f.name) = elements.length := by omega
    have hmax : max n elements.length = elements.length := by omega
    rw [hall, hmax, hwhole] at hshare
    exact ⟨hshare, by omega, fun e he => ⟨List.countP_eq_length.mp hall e he, hnull e he⟩⟩
  · rintro ⟨hthreshold, hn, hheld⟩
    have hall : elements.countP (g.holdsKey f.name) = elements.length :=
      List.countP_eq_length.mpr fun e he => (hheld e he).1
    have hmax : max n elements.length = elements.length := by omega
    rw [hall, hmax, hwhole]
    exact ⟨Nat.le_refl _, fun e he => (hheld e he).2, by exact_mod_cast hpos, hthreshold⟩

section Sample

variable (hdocs : ∀ doc ∈ documents, g.isMapping doc → g.Acyclic doc ∧ g.StringKeyed doc)
  (h : s.build r (Analysis.ofDocuments g documents).fields rootName count = .ok d)

include hdocs h

theorem measured_of_mem_zip {plan : NestedPlan} {t : TypeDefinition}
    (hzip : (plan, t) ∈ (promotions r s (Analysis.ofDocuments g documents).fields rootName).zip d.nested)
    {above : List String} {key : String} (hpath : plan.path = above ++ [key]) :
    let values := g.valuesAt (documents.filter g.isMapping) above key
    let elements := (values.flatMap g.elements).filter g.isMapping
    (∃ v ∈ values, g.tag v = .array) →
      (∀ v ∈ values, g.tag v ≠ .null → g.tag v = .array) ∧ elements ≠ [] ∧
      t.parentFrequency = some (max values.length elements.length) ∧
      ∀ f ∈ t.fields, f.required = true ↔
        Double.le s.requiredThreshold (.ofRat r 1) = true ∧ values.length ≤ elements.length ∧
          ∀ e ∈ elements, g.holdsKey f.name e ∧ .scalar .null ∉ g.valuesUnder f.name e := by
  intro values elements harray
  have hacyclic : ∀ doc ∈ documents, g.isMapping doc → g.Acyclic doc :=
    fun doc hdoc hm => (hdocs doc hdoc hm).1
  have hkeyed : ∀ doc ∈ documents.filter g.isMapping, g.StringKeyed doc := by
    intro doc hdoc
    rw [List.mem_filter] at hdoc
    exact (hdocs doc hdoc.1 hdoc.2).2
  have hfields := Analysis.fields_distinct g documents
  obtain ⟨hplan, hdefs, ht⟩ := mem_zip_nested h hzip
  obtain ⟨up, name, stats, hplaced⟩ := promotions_placed hfields hplan
  have hpath' : plan.path = up ++ [name] := hplaced.path_eq
  obtain ⟨rfl, hname⟩ := List.append_inj' (hpath'.symm.trans hpath) rfl
  cases List.singleton_inj.mp hname
  have hstats := hplaced.stats_eq
  rw [Analysis.stats?_descend hacyclic] at hstats
  split at hstats
  · cases hstats
  · cases hstats
    obtain ⟨harrays, helements, -, -, hscope⟩ := (promotes_of_promotion? hplaced.promotion).of_array harray
    have hscope : plan.frequency = max values.length elements.length := hscope
    have hobjects : g.objectsAt (documents.filter g.isMapping) plan.path = elements := by
      rw [hpath, Graph.objectsAt_concat_eq_valuesAt]
      exact Graph.flatMap_objectsOf_of_arrays harrays
    refine ⟨harrays, helements, by rw [ht, hscope], fun f hf => ?_⟩
    rw [promotions_fields_eq hfields hplan, hscope] at hdefs
    have hdescribes := fieldDefinitions_describe hacyclic hdefs hf
    have hone : ∀ e ∈ elements, (g.valuesUnder f.name e).length ≤ 1 := fun e he =>
      Graph.length_valuesUnder_le_of_mem_objectsAt hkeyed (hobjects.symm ▸ he) f.name
    have hvalues : g.valuesAt (documents.filter g.isMapping) plan.path f.name =
        elements.flatMap (g.valuesUnder f.name) := by
      rw [Graph.valuesAt, hobjects]
    rw [hvalues] at hdescribes
    refine hdescribes.required_iff_of_elements helements hone ?_
    have habsent : (FieldStats.summary g (g.valuesAt (documents.filter g.isMapping) plan.path f.name)).absentIn
        ((FieldMap.ofObjects g (documents.filter g.isMapping)).statsAt? plan.path) = true ↔
          g.LackedAt (documents.filter g.isMapping) plan.path f.name :=
      Analysis.absentIn_iff fun o ho => hacyclic o (List.mem_filter.mp ho).1 (List.mem_filter.mp ho).2
    rw [hvalues] at habsent
    rw [habsent, hpath, Graph.lackedAt_concat, ← hpath, hvalues, Graph.length_valuesUnder_eq_countP hone,
      List.countP_eq_length_filter]
    exact and_iff_right (List.length_pos_iff.mpr helements)

end Sample

end Settings

/-- A type that comes from arrays is counted against the objects among their elements, or against the values
of the field where these are more, and its fields are required if no value is left over in this way and every
one of the elements holds them, never null. -/
theorem InferredSchema.infer_measuresArrays (r : Rounding) (s : Settings) (g : Graph) (documents : List Item)
    (typeName : String) (schema : InferredSchema)
    (hdocs : ∀ doc ∈ documents, g.isMapping doc → g.Acyclic doc ∧ g.StringKeyed doc)
    (hinfer : infer r s g documents typeName = .ok schema) :
    ∀ t ∈ schema.nestedTypes, ∃ above key,
      Settings.EmittedAt r s (Analysis.ofDocuments g documents).fields typeName
        ⟨schema.rootType, schema.nestedTypes⟩ (above ++ [key]) t ∧
      let values := g.valuesAt (documents.filter g.isMapping) above key
      let elements := (values.flatMap g.elements).filter g.isMapping
      (∃ v ∈ values, g.tag v = .array) →
        (∀ v ∈ values, g.tag v ≠ .null → g.tag v = .array) ∧ elements ≠ [] ∧
        t.parentFrequency = some (max values.length elements.length) ∧
        ∀ f ∈ t.fields, f.required = true ↔
          Double.le s.requiredThreshold (.ofRat r 1) = true ∧ values.length ≤ elements.length ∧
            ∀ e ∈ elements, g.holdsKey f.name e ∧ .scalar .null ∉ g.valuesUnder f.name e := by
  obtain ⟨-, hbuild⟩ := infer_eq_ok hinfer
  intro t ht
  obtain ⟨plan, hzip⟩ := Settings.exists_plan hbuild ht
  have hplan := (Settings.mem_zip_nested hbuild hzip).1
  obtain ⟨above, key, stats, hplaced⟩ :=
    Settings.promotions_placed (Analysis.fields_distinct g documents) hplan
  have hpath : plan.path = above ++ [key] := hplaced.path_eq
  exact ⟨above, key, hpath ▸ .nested hzip, Settings.measured_of_mem_zip hdocs hbuild hzip hpath⟩

def twoLines : List Value :=
  [.record [("lines", .list [.record [("sku", .text "a")], .record [("sku", .text "b"), ("note", .null)]])],
    .record [("lines", .null)]]

/-- The lines make up for the null, so that what they all hold is required. -/
theorem InferredSchema.infer_measuresArrays_twoLines :
    let (g, documents) := Graph.ofValues twoLines
    ∃ schema line, infer .binary64 .standard g documents "Order" = .ok schema ∧ schema.nestedTypes = [line] ∧
      line.parentFrequency = some 2 ∧ ∀ f ∈ line.fields, f.required = true ↔
        ∀ e ∈ ((g.valuesAt documents [] "lines").flatMap g.elements).filter g.isMapping,
          g.holdsKey f.name e ∧ .scalar .null ∉ g.valuesUnder f.name e := by
  have hkeys : (Graph.ofValues twoLines).1.TextKeyed := by decide +kernel
  have hview : ((infer .binary64 .standard (Graph.ofValues twoLines).1 (Graph.ofValues twoLines).2
      "Order").toOption.map fun schema => schema.nestedTypes.length) = some 1 := by
    decide +kernel
  have hpaths : (Settings.promotions .binary64 .standard (Analysis.ofDocuments (Graph.ofValues twoLines).1
      (Graph.ofValues twoLines).2).fields "Order").map (·.path) = [["lines"]] := by
    decide +kernel
  obtain ⟨schema, hinfer, hone⟩ := exists_ok_of_toOption hview
  obtain ⟨line, hline⟩ := List.length_eq_one_iff.mp hone
  obtain ⟨above, key, hat, hmeasured⟩ := infer_measuresArrays .binary64 .standard (Graph.ofValues twoLines).1
    (Graph.ofValues twoLines).2 "Order" schema
    (fun doc hdoc _ => ⟨Graph.ofValues_acyclic twoLines hdoc, hkeys.stringKeyed doc⟩) hinfer line (by simp [hline])
  have hpath : above ++ [key] = [] ++ ["lines"] := by
    generalize hends : above ++ [key] = path at hat ⊢
    cases hat with
    | root => simp at hends
    | nested hzip =>
      have hmem := List.mem_map_of_mem (f := NestedPlan.path) (List.of_mem_zip hzip).1
      rw [hpaths] at hmem
      exact List.mem_singleton.mp hmem
  obtain ⟨rfl, hkey⟩ := List.append_inj' hpath rfl
  cases List.singleton_inj.mp hkey
  obtain ⟨-, -, hfrequency, hrequired⟩ := hmeasured (by decide +kernel)
  refine ⟨schema, line, hinfer, hline, hfrequency.trans (by decide +kernel), fun f hf => ?_⟩
  rw [hrequired f hf, and_iff_right (by decide +kernel), and_iff_right (by decide +kernel)]
  rfl

def oneLine : List Value :=
  [.record [("lines", .list [.record [("sku", .text "a")]])], .record [("lines", .list [])]]

/-- There is one line and it holds the number, which is not required: lines are counted as if there were two. -/
theorem InferredSchema.infer_unmeasured_oneLine :
    let (g, documents) := Graph.ofValues oneLine
    (∀ doc ∈ documents, g.Acyclic doc ∧ g.StringKeyed doc) ∧
      (∃ e, (((g.valuesAt documents [] "lines").flatMap g.elements).filter g.isMapping) = [e] ∧
        g.holdsKey "sku" e ∧ .scalar .null ∉ g.valuesUnder "sku" e) ∧
      ∃ schema, infer .binary64 .standard g documents "Order" = .ok schema ∧
        schema.nestedTypes.map (fun t => (t.name, t.parentFrequency, t.fields)) =
          [("OrderLine", some 2, [⟨"sku", .scalar .string, false⟩])] := by
  have hkeys : (Graph.ofValues oneLine).1.TextKeyed := by decide +kernel
  have hview : ((infer .binary64 .standard (Graph.ofValues oneLine).1 (Graph.ofValues oneLine).2
      "Order").toOption.map fun schema => schema.nestedTypes.map fun t => (t.name, t.parentFrequency, t.fields)) =
        some [("OrderLine", some 2, [⟨"sku", .scalar .string, false⟩])] := by
    decide +kernel
  refine ⟨fun doc hdoc => ⟨Graph.ofValues_acyclic oneLine hdoc, hkeys.stringKeyed doc⟩, ?_, exists_ok_of_toOption hview⟩
  exact ⟨.node 0, by decide +kernel⟩

end SchemaInference
