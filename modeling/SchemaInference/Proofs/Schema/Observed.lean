import SchemaInference.Proofs.Schema.TypeTree
import SchemaInference.Schema.Inference

set_option autoImplicit false

namespace SchemaInference

theorem filter_eq_singleton {α β : Type} [BEq β] [LawfulBEq β] {f : α → β} {l : List α}
    (hnodup : (l.map f).Nodup) {a : α} (ha : a ∈ l) : l.filter (f · == f a) = [a] := by
  induction l with
  | nil => cases ha
  | cons b l ih =>
    rw [List.map_cons, List.nodup_cons] at hnodup
    obtain ⟨hb, hl⟩ := hnodup
    rw [List.filter_cons]
    obtain rfl | ha := List.mem_cons.mp ha
    · rw [if_pos (beq_self_eq_true _), List.filter_eq_nil_iff.mpr]
      intro c hc heq
      exact hb (eq_of_beq heq ▸ List.mem_map_of_mem hc)
    · rw [if_neg, ih hl ha]
      intro heq
      exact hb (eq_of_beq heq ▸ List.mem_map_of_mem ha)

namespace Settings

variable {r : Rounding} {s : Settings} {g : Graph} {documents : List Item} {rootName : String} {count : Int}
  {d : TypeDefinitions}

theorem Typed.of_markedIn {stats : FieldStats} {container : Option FieldStats} {promotedName : Option String}
    {base : FieldType} (h : Typed s (stats.markedIn container) promotedName base) :
    Typed s stats promotedName base := by
  cases h with
  | conflict htags hpolicy => exact .conflict htags hpolicy
  | objects htags harray hname helements => exact .objects htags harray hname helements
  | elements htags harray hname htype => exact .elements htags harray hname htype
  | object htags harray hobject hname => exact .object htags harray hobject hname
  | fallback htags harray hobject hname => exact .fallback htags harray hobject hname
  | primitive htags harray hobject => exact .primitive htags harray hobject

/-- What the definition of a field says about the values that it was made from, `container` being what
is known of the field that the objects lie under, and `scope` the number that they are counted by. -/
structure Describes (r : Rounding) (s : Settings) (promoted : Option String) (container : Option FieldStats)
    (scope : Int) (g : Graph) (values : List Item) (f : FieldDefinition) : Prop where
  observed : values ≠ []
  id : s.isId f.name = true → f.base = .scalar .id
  typed : s.isId f.name = false → Typed s (.summary g values) promoted f.base
  required : f.required = s.isRequired r ((FieldStats.summary g values).markedIn container) scope

section Analysed

variable (hdocs : ∀ doc ∈ documents, g.isMapping doc → g.Acyclic doc)

include hdocs

theorem fieldDefinitions_describe {path : List String} {scope : Int} {promoted : PromotedNames}
    {definitions : List FieldDefinition}
    (hdefs : s.fieldDefinitions r ((Analysis.ofDocuments g documents).fields.descend path) path scope promoted =
      .ok definitions) {f : FieldDefinition} (hf : f ∈ definitions) :
    Describes r s (promotedName? promoted (path ++ [f.name]))
      ((FieldMap.ofObjects g (documents.filter g.isMapping)).statsAt? path) scope g
      (g.valuesAt (documents.filter g.isMapping) path f.name) f := by
  have hdistinct := (Analysis.fields_distinct g documents).descend path
  obtain ⟨stats, hstats, hdef⟩ := ((fieldDefinitions_eq_ok hdistinct hdefs).2 f).mp hf
  rw [Analysis.stats?_descend hdocs] at hstats
  split at hstats
  · cases hstats
  · rename_i hvalues
    cases hstats
    obtain ⟨hbase, -, hrequired⟩ := fieldDefinition_eq_ok.mp hdef
    refine ⟨hvalues, fun hid => ?_, fun hid => ?_, hrequired⟩
    · rw [if_pos hid] at hbase
      exact (Except.ok.inj hbase).symm
    · rw [hid, if_neg Bool.false_ne_true] at hbase
      exact (baseType_typed hbase).of_markedIn

variable (h : s.build r (Analysis.ofDocuments g documents).fields rootName count = .ok d)

include h

theorem EmittedAt.exists_describes {path : List String} {t : TypeDefinition}
    (ht : EmittedAt r s (Analysis.ofDocuments g documents).fields rootName d path t) {f : FieldDefinition}
    (hf : f ∈ t.fields) : ∃ scope, Describes r s
      (promotedName? (promotedNames (promotions r s (Analysis.ofDocuments g documents).fields rootName))
        (path ++ [f.name]))
      ((FieldMap.ofObjects g (documents.filter g.isMapping)).statsAt? path) scope g
      (g.valuesAt (documents.filter g.isMapping) path f.name) f := by
  obtain ⟨scope, hdefs⟩ := ht.fieldDefinitions h (Analysis.fields_distinct g documents)
  exact ⟨scope, fieldDefinitions_describe hdocs hdefs hf⟩

theorem EmittedAt.exists_field {path : List String} {t : TypeDefinition}
    (ht : EmittedAt r s (Analysis.ofDocuments g documents).fields rootName d path t) {key : String}
    (hvalues : g.valuesAt (documents.filter g.isMapping) path key ≠ []) :
    ∃ f ∈ t.fields, f.name = key ∧ t.fields.filter (·.name == key) = [f] := by
  have hfields := Analysis.fields_distinct g documents
  obtain ⟨scope, hdefs⟩ := ht.fieldDefinitions h hfields
  obtain ⟨hnames, -⟩ := fieldDefinitions_eq_ok (hfields.descend path) hdefs
  have hstats := Analysis.stats?_descend hdocs path key
  dsimp only at hstats
  rw [if_neg hvalues] at hstats
  have hkey : key ∈ t.fields.map (·.name) := by
    rw [hnames]
    exact FieldMap.mem_names_of_stats? _ _ hstats
  obtain ⟨f, hf, rfl⟩ := List.mem_map.mp hkey
  refine ⟨f, hf, rfl, filter_eq_singleton ?_ hf⟩
  rw [hnames]
  exact (hfields.descend path).names_nodup

omit hdocs in
theorem exists_emittedAt_of_promotedName {path : List String} {name : String}
    (hname : promotedName? (promotedNames (promotions r s (Analysis.ofDocuments g documents).fields rootName))
      path = some name) :
    ∃ t, EmittedAt r s (Analysis.ofDocuments g documents).fields rootName d path t ∧ t.name = name ∧
      d.all.filter (·.name == t.name) = [t] := by
  obtain ⟨hlookup, -⟩ := promotedName?_eq_some.mp hname
  obtain ⟨plan, hplan, rfl, rfl⟩ := (lookup_promotedNames (Analysis.fields_distinct g documents)).mp hlookup
  obtain ⟨t, ht, hzip⟩ := exists_mem_zip h hplan
  refine ⟨t, .nested hzip, ?_, filter_eq_singleton (names_all_nodup h) (List.mem_cons_of_mem _ ht)⟩
  rw [(mem_zip_nested h hzip).2.2]

end Analysed

end Settings

namespace InferredSchema

variable {r : Rounding} {s : Settings} {g : Graph} {documents : List Item} {typeName : String}

theorem infer_eq_ok {schema : InferredSchema} (h : infer r s g documents typeName = .ok schema) :
    documents ≠ [] ∧ s.build r (Analysis.ofDocuments g documents).fields typeName
      (documents.filter g.isMapping).length = .ok ⟨schema.rootType, schema.nestedTypes⟩ := by
  unfold infer at h
  split at h
  · cases h
  · rename_i hne
    obtain ⟨d, hbuild, rfl⟩ := map_eq_ok.mp h
    exact ⟨by simpa using hne, hbuild⟩

theorem exists_infer (hne : documents ≠ []) (hpolicy : s.conflicts ≠ .error) :
    ∃ schema, infer r s g documents typeName = .ok schema := by
  obtain ⟨d, hd⟩ := Settings.exists_build hpolicy r (Analysis.ofDocuments g documents).fields typeName
    (Analysis.ofDocuments g documents).documentCount
  unfold infer ofAnalysis
  rw [if_neg (by simpa using hne), hd]
  exact ⟨_, rfl⟩

end InferredSchema

end SchemaInference
