import SchemaInference.Proofs.Schema.AlikeNames
import SchemaInference.Proofs.Schema.Observed

set_option autoImplicit false

namespace SchemaInference

/-- The type of a field with the path of a nested type in place of its name. -/
inductive PathType
  | scalar (s : ScalarType)
  | scalarList (s : ScalarType)
  | nested (path : List String)
  | nestedList (path : List String)
deriving DecidableEq

def FieldType.located (place : String → List String) : FieldType → PathType
  | scalar s => .scalar s
  | scalarList s => .scalarList s
  | nested name => .nested (place name)
  | nestedList name => .nestedList (place name)

structure FieldOutline where
  name : String
  required : Bool
  isArray : Bool
  base : PathType
deriving DecidableEq

def FieldDefinition.outline (place : String → List String) (f : FieldDefinition) : FieldOutline :=
  ⟨f.name, f.required, f.isArray, f.base.located place⟩

def Settings.placeOf (r : Rounding) (s : Settings) (fields : FieldMap) (rootName : String) (name : String) :
    List String :=
  (((promotions r s fields rootName).find? (·.name == name)).map (·.path)).getD []

/-- Two types that differ at most in their names, in the order of their fields and in the names of the
types that these refer to. -/
structure TypeDefinition.SameUpToNaming (place place' : String → List String) (t t' : TypeDefinition) :
    Prop where
  isNested : t.isNested = t'.isNested
  depth : t.depth = t'.depth
  parentFrequency : t.parentFrequency = t'.parentFrequency
  fields : (t.fields.map (·.outline place)).Perm (t'.fields.map (·.outline place'))

namespace Settings

variable {r : Rounding} {s : Settings} {fields fields' : FieldMap} {rootName : String} {documents : Int}
  {d d' : TypeDefinitions}

theorem placeOf_name {plan : NestedPlan} (hplan : plan ∈ promotions r s fields rootName) :
    placeOf r s fields rootName plan.name = plan.path := by
  unfold placeOf
  cases hfound : (promotions r s fields rootName).find? (·.name == plan.name) with
  | none => simpa using List.find?_eq_none.mp hfound plan hplan
  | some other =>
    have hname : other.name = plan.name := by simpa using List.find?_some hfound
    rw [promotions_eq_of_name (List.mem_of_find?_eq_some hfound) hplan hname]
    rfl

theorem outline_eq_of_akin {path : List String} {base base' : FieldType}
    (h : base.Akin (NamesAt r s fields fields' rootName path) base') (name : String) (required : Bool) :
    (FieldDefinition.mk name base required).outline (placeOf r s fields rootName) =
      (FieldDefinition.mk name base' required).outline (placeOf r s fields' rootName) := by
  have hplaces : ∀ {name name'}, NamesAt r s fields fields' rootName path name name' →
      placeOf r s fields rootName name = placeOf r s fields' rootName name' := by
    rintro _ _ ⟨⟨plan, hplan, hpath, rfl⟩, ⟨plan', hplan', hpath', rfl⟩, -⟩
    rw [placeOf_name hplan, placeOf_name hplan', hpath, hpath']
  cases h with
  | scalar | scalarList => rfl
  | nested h =>
    simp [FieldDefinition.outline, FieldDefinition.isArray, FieldType.text, FieldType.located, hplaces h, h.head]
  | nestedList h =>
    simp [FieldDefinition.outline, FieldDefinition.isArray, FieldType.text, FieldType.located, hplaces h]

section Alike

variable (hfields : fields.Alike fields') (hnamed : fields.Named) (htemplate : s.template = none)
  (hpolicy : s.conflicts ≠ .error)

include hfields hnamed htemplate hpolicy

theorem exists_outline {path : List String} {scope : Int} {definitions definitions' : List FieldDefinition}
    (hdefs : s.fieldDefinitions r (fields.descend path) path scope
      (promotedNames (promotions r s fields rootName)) = .ok definitions)
    (hdefs' : s.fieldDefinitions r (fields'.descend path) path scope
      (promotedNames (promotions r s fields' rootName)) = .ok definitions') {f : FieldDefinition}
    (hf : f ∈ definitions) : ∃ f' ∈ definitions',
      f.outline (placeOf r s fields rootName) = f'.outline (placeOf r s fields' rootName) := by
  have hbelow := hfields.descend path
  obtain ⟨stats, hstats, hdef⟩ := ((fieldDefinitions_eq_ok hbelow.distinct hdefs).2 f).mp hf
  obtain ⟨hbase, -, hrequired⟩ := fieldDefinition_eq_ok.mp hdef
  obtain ⟨stats', hstats', hs⟩ := hbelow.exists_stats? hstats
  obtain ⟨name, base, required⟩ := f
  dsimp only at hbase hrequired hstats hstats'
  have hother : ∃ base', (if s.isId name then .ok (.scalar .id) else s.baseType stats' (path ++ [name])
      (promotedNames (promotions r s fields' rootName))) = .ok base' ∧
        base.Akin (NamesAt r s fields fields' rootName (path ++ [name])) base' := by
    split at hbase
    · rename_i hid
      cases hbase
      exact ⟨.scalar .id, if_pos hid, .scalar .id⟩
    · rename_i hid
      obtain ⟨found, base', hfound, hbase', hakin⟩ := baseType_alike hpolicy hs
        (promotedName?_alike (r := r) hfields hnamed htemplate (path ++ [name]))
      cases hbase.symm.trans hfound
      exact ⟨base', (if_neg hid).trans hbase', hakin⟩
  obtain ⟨base', hbase', hakin⟩ := hother
  refine ⟨⟨name, base', required⟩, ?_, outline_eq_of_akin hakin name required⟩
  rw [(fieldDefinitions_eq_ok hbelow.distinct' hdefs').2]
  refine ⟨stats', hstats', fieldDefinition_eq_ok.mpr ⟨hbase', rfl, ?_⟩⟩
  rw [hrequired, isRequired_alike hs]

theorem outlines_perm {path : List String} {scope : Int} {definitions definitions' : List FieldDefinition}
    (hdefs : s.fieldDefinitions r (fields.descend path) path scope
      (promotedNames (promotions r s fields rootName)) = .ok definitions)
    (hdefs' : s.fieldDefinitions r (fields'.descend path) path scope
      (promotedNames (promotions r s fields' rootName)) = .ok definitions') :
    (definitions.map (·.outline (placeOf r s fields rootName))).Perm
      (definitions'.map (·.outline (placeOf r s fields' rootName))) := by
  have hnodup : ∀ {m : FieldMap} {promoted : PromotedNames} {defs : List FieldDefinition}
      {place : String → List String}, m.Distinct → s.fieldDefinitions r m path scope promoted = .ok defs →
      (defs.map (·.outline place)).Nodup := by
    intro m promoted defs place hm hok
    have hnames := hm.names_nodup
    rw [← (fieldDefinitions_eq_ok hm hok).1] at hnames
    refine List.Nodup.of_map (·.name) ?_
    rwa [List.map_map]
  have hbelow := hfields.descend path
  -- The fields of a map differ in name, so that the same outlines on both sides are enough.
  rw [List.perm_ext_iff_of_nodup (hnodup hbelow.distinct hdefs) (hnodup hbelow.distinct' hdefs')]
  intro outline
  rw [List.mem_map, List.mem_map]
  constructor
  · rintro ⟨f, hf, rfl⟩
    obtain ⟨f', hf', hsame⟩ := exists_outline hfields hnamed htemplate hpolicy hdefs hdefs' hf
    exact ⟨f', hf', hsame.symm⟩
  · rintro ⟨f', hf', rfl⟩
    obtain ⟨f, hf, hsame⟩ := exists_outline hfields.symm (named_of_alike hfields hnamed) htemplate hpolicy hdefs'
      hdefs hf'
    exact ⟨f, hf, hsame.symm⟩

theorem exists_emittedAt_of_alike (h : s.build r fields rootName documents = .ok d)
    (h' : s.build r fields' rootName documents = .ok d') {path : List String} {t : TypeDefinition}
    (ht : EmittedAt r s fields rootName d path t) : ∃ t', EmittedAt r s fields' rootName d' path t' ∧
      t.SameUpToNaming (placeOf r s fields rootName) (placeOf r s fields' rootName) t' := by
  cases ht with
  | root =>
    obtain ⟨hdefs, hroot, -⟩ := build_eq_ok h
    obtain ⟨hdefs', hroot', -⟩ := build_eq_ok h'
    change s.fieldDefinitions r (fields.descend []) [] documents _ = _ at hdefs
    change s.fieldDefinitions r (fields'.descend []) [] documents _ = _ at hdefs'
    have houtlines := outlines_perm hfields hnamed htemplate hpolicy hdefs hdefs'
    exact ⟨d'.root, .root, by rw [hroot, hroot'], by rw [hroot, hroot'], by rw [hroot, hroot'], houtlines⟩
  | @nested plan t hzip =>
    obtain ⟨hplan, hdefs, ht⟩ := mem_zip_nested h hzip
    obtain ⟨plan', hplan', hmatch⟩ : ∃ plan' ∈ promotions r s fields' rootName, plan.Matches plan' :=
      exists_matching_plan hfields hplan
    obtain ⟨t', -, hzip'⟩ := exists_mem_zip h' hplan'
    obtain ⟨-, hdefs', ht'⟩ := mem_zip_nested h' hzip'
    rw [promotions_fields_eq hfields.distinct hplan] at hdefs
    rw [promotions_fields_eq hfields.distinct' hplan', ← hmatch.path, ← hmatch.frequency] at hdefs'
    have houtlines := outlines_perm hfields hnamed htemplate hpolicy hdefs hdefs'
    refine ⟨t', hmatch.path ▸ .nested hzip', ?_, ?_, ?_, houtlines⟩
    · rw [ht, ht']
    · rw [ht, ht', hmatch.depth]
    · rw [ht, ht', hmatch.frequency]

omit hnamed htemplate hpolicy in
theorem length_nested_eq (h : s.build r fields rootName documents = .ok d)
    (h' : s.build r fields' rootName documents = .ok d') : d.nested.length = d'.nested.length := by
  obtain ⟨-, -, define, hnested, -⟩ := build_eq_ok h
  obtain ⟨-, -, define', hnested', -⟩ := build_eq_ok h'
  have hlength : ((promotions r s fields rootName).map (·.path)).length =
      ((promotions r s fields' rootName).map (·.path)).length := (promotions_paths_perm hfields).length_eq
  rw [List.length_map, List.length_map] at hlength
  rw [hnested, hnested', List.length_map, List.length_map, hlength]

end Alike

end Settings

namespace InferredSchema

/-- Two schemas inferred with one name for the root from two maps of fields: types are promoted at the same
paths, and the types of a path differ only in order and naming; the statistics are equal, the conflicted
fields in any order. -/
structure SameUpToNaming (r : Rounding) (s : Settings) (fields fields' : FieldMap) (typeName : String)
    (schema schema' : InferredSchema) : Prop where
  emitted : ∀ path t, s.EmittedAt r fields typeName ⟨schema.rootType, schema.nestedTypes⟩ path t →
    ∃ t', s.EmittedAt r fields' typeName ⟨schema'.rootType, schema'.nestedTypes⟩ path t' ∧
      t.SameUpToNaming (s.placeOf r fields typeName) (s.placeOf r fields' typeName) t'
  emitted' : ∀ path t', s.EmittedAt r fields' typeName ⟨schema'.rootType, schema'.nestedTypes⟩ path t' →
    ∃ t, s.EmittedAt r fields typeName ⟨schema.rootType, schema.nestedTypes⟩ path t ∧
      t'.SameUpToNaming (s.placeOf r fields' typeName) (s.placeOf r fields typeName) t
  documentsAnalyzed : schema.stats.documentsAnalyzed = schema'.stats.documentsAnalyzed
  fieldsAnalyzed : schema.stats.fieldsAnalyzed = schema'.stats.fieldsAnalyzed
  typesGenerated : schema.stats.typesGenerated = schema'.stats.typesGenerated
  conflictsResolved : schema.stats.conflictsResolved = schema'.stats.conflictsResolved
  conflictedFields : schema.stats.conflictedFields.Perm schema'.stats.conflictedFields
  nestedTypesCreated : schema.stats.nestedTypesCreated = schema'.stats.nestedTypesCreated

variable {r : Rounding} {s : Settings} {g g' : Graph} {documents documents' : List Item} {typeName : String}

theorem stats_of_infer {schema : InferredSchema} (h : infer r s g documents typeName = .ok schema) :
    schema.stats =
      { documentsAnalyzed := (Analysis.ofDocuments g documents).documentCount
        fieldsAnalyzed := (Analysis.ofDocuments g documents).fieldCount
        typesGenerated := schema.nestedTypes.length + 1
        conflictsResolved := (Analysis.ofDocuments g documents).conflicts.length
        conflictedFields := (Analysis.ofDocuments g documents).conflicts
        nestedTypesCreated := schema.nestedTypes.length } := by
  unfold infer at h
  split at h
  · cases h
  · obtain ⟨d, -, rfl⟩ := map_eq_ok.mp h
    rfl

theorem sameUpToNaming_of_alike (halike : (Analysis.ofDocuments g documents).Alike (.ofDocuments g' documents'))
    (hnamed : (Analysis.ofDocuments g documents).fields.Named) (htemplate : s.template = none)
    (hpolicy : s.conflicts ≠ .error) {schema schema' : InferredSchema}
    (h : infer r s g documents typeName = .ok schema) (h' : infer r s g' documents' typeName = .ok schema') :
    SameUpToNaming r s (Analysis.ofDocuments g documents).fields (Analysis.ofDocuments g' documents').fields
      typeName schema schema' := by
  have hfields := halike.fields
  have hbuild := (infer_eq_ok h).2
  have hbuild' := (infer_eq_ok h').2
  have hcount : (documents'.filter g'.isMapping).length = (documents.filter g.isMapping).length :=
    halike.documentCount.symm
  rw [hcount] at hbuild'
  have hnested : schema.nestedTypes.length = schema'.nestedTypes.length :=
    Settings.length_nested_eq hfields hbuild hbuild'
  have hstats := stats_of_infer h
  have hstats' := stats_of_infer h'
  refine
    { emitted := fun path t ht =>
        Settings.exists_emittedAt_of_alike hfields hnamed htemplate hpolicy hbuild hbuild' ht
      emitted' := fun path t' ht' => Settings.exists_emittedAt_of_alike hfields.symm
        (Settings.named_of_alike hfields hnamed) htemplate hpolicy hbuild' hbuild ht'
      documentsAnalyzed := ?_
      fieldsAnalyzed := ?_
      typesGenerated := ?_
      conflictsResolved := ?_
      conflictedFields := ?_
      nestedTypesCreated := ?_ } <;> rw [hstats, hstats']
  · exact halike.documentCount
  · exact halike.fieldCount
  · exact congrArg (· + 1) hnested
  · exact halike.conflicts.length_eq
  · exact halike.conflicts
  · exact hnested

end InferredSchema

/-- The order of documents and of the keys in their mappings does not matter to the schema that is
inferred, under a built-in naming and a lenient policy, but for order and naming. -/
theorem InferredSchema.infer_reordered (r : Rounding) (s : Settings) (htemplate : s.template = none)
    (hpolicy : s.conflicts ≠ .error) (ρ : Equiv.Perm Nat) (g g' : Graph) (hgraph : g.Reorders ρ g')
    (documents documents' : List Item) (hdocs : documents'.Perm (documents.map (·.renumber ρ)))
    (hkeys : ∀ d ∈ documents, g.NamedKeys d) (typeName : String) :
    (documents = [] → infer r s g documents typeName = .error emptySample ∧
      infer r s g' documents' typeName = .error emptySample) ∧
    (documents ≠ [] → ∃ schema schema', infer r s g documents typeName = .ok schema ∧
      infer r s g' documents' typeName = .ok schema' ∧
      SameUpToNaming r s (Analysis.ofDocuments g documents).fields (Analysis.ofDocuments g' documents').fields
        typeName schema schema') := by
  constructor
  · rintro rfl
    rw [List.map_nil, List.perm_nil] at hdocs
    subst hdocs
    exact ⟨rfl, rfl⟩
  · intro hne
    have hne' : documents' ≠ [] := by
      rintro rfl
      exact hne (List.map_eq_nil_iff.mp (List.nil_perm.mp hdocs))
    obtain ⟨schema, h⟩ : ∃ schema, infer r s g documents typeName = .ok schema := exists_infer hne hpolicy
    obtain ⟨schema', h'⟩ : ∃ schema, infer r s g' documents' typeName = .ok schema := exists_infer hne' hpolicy
    have hnamed : (Analysis.ofDocuments g documents).fields.Named :=
      fun _ _ _ hstats => Analysis.key_ne_empty hkeys hstats
    exact ⟨schema, schema', h, h',
      sameUpToNaming_of_alike (hgraph.analysis_alike hdocs) hnamed htemplate hpolicy h h'⟩

def Graph.drawers : Graph where
  nodes := #[
    .mapping [(.text "weight", .scalar (.number (.whole 1)))],
    .mapping [(.text "thing", .node 0)],
    .mapping [(.text "label", .scalar (.text "spoon"))],
    .mapping [(.text "thing", .node 2)],
    .mapping [(.text "upper", .node 1), (.text "lower", .node 3)],
    .mapping [(.text "lower", .node 3)]]

def Graph.drawersReordered : Graph where
  nodes := #[
    .mapping [(.text "weight", .scalar (.number (.whole 1)))],
    .mapping [(.text "thing", .node 0)],
    .mapping [(.text "label", .scalar (.text "spoon"))],
    .mapping [(.text "thing", .node 2)],
    .mapping [(.text "lower", .node 3)],
    .mapping [(.text "lower", .node 3), (.text "upper", .node 1)]]

theorem Graph.drawers_reorders : drawers.Reorders (Equiv.swap 4 5) drawersReordered where
  size_eq := rfl
  nodes id := by
    match id with
    | 0 | 1 | 2 | 3 | 5 => exact .some (.mapping (.refl _))
    | 4 => exact .some (.mapping (.swap _ _ _))
    | id + 6 =>
      rw [Equiv.swap_apply_of_ne_of_ne (by omega) (by omega)]
      exact .none

/-- Both drawers hold a type that is named for the thing; which of the two gets the number depends on the
order, and nothing else does. -/
theorem InferredSchema.infer_reordered_drawers :
    let s := { Settings.standard with naming := .flat }
    s.template = none ∧ s.conflicts ≠ .error ∧ Graph.drawers.Reorders (Equiv.swap 4 5) .drawersReordered ∧
      [Item.node 4, .node 5].Perm ([Item.node 4, .node 5].map (·.renumber (Equiv.swap 4 5))) ∧
      (∀ d ∈ [Item.node 4, .node 5], Graph.drawers.NamedKeys d) ∧ [Item.node 4, .node 5] ≠ [] ∧
      ∃ schema schema', infer .exact s .drawers [.node 4, .node 5] "Cabinet" = .ok schema ∧
        infer .exact s .drawersReordered [.node 4, .node 5] "Cabinet" = .ok schema' ∧
        schema.nestedTypes.map (·.name) = ["Thing", "Upper", "Thing_2", "Lower"] ∧
        schema'.nestedTypes.map (·.name) = ["Thing", "Lower", "Thing_2", "Upper"] ∧
        SameUpToNaming .exact s (Analysis.ofDocuments .drawers [.node 4, .node 5]).fields
          (Analysis.ofDocuments .drawersReordered [.node 4, .node 5]).fields "Cabinet" schema schema' := by
  intro s
  have hdocs : [Item.node 4, .node 5].Perm ([Item.node 4, .node 5].map (·.renumber (Equiv.swap 4 5))) :=
    .swap _ _ _
  have hkeys : ∀ d ∈ [Item.node 4, .node 5], Graph.drawers.NamedKeys d :=
    fun d _ => Graph.namedKeys_of_nodes (by decide +kernel) d
  have hnames : ((infer .exact s .drawers [.node 4, .node 5] "Cabinet").toOption.map
      fun schema => schema.nestedTypes.map (·.name)) = some ["Thing", "Upper", "Thing_2", "Lower"] := by
    decide +kernel
  have hnames' : ((infer .exact s .drawersReordered [.node 4, .node 5] "Cabinet").toOption.map
      fun schema => schema.nestedTypes.map (·.name)) = some ["Thing", "Lower", "Thing_2", "Upper"] := by
    decide +kernel
  obtain ⟨schema, schema', h, h', hsame⟩ := (infer_reordered .exact s rfl (by decide) (Equiv.swap 4 5) .drawers
    .drawersReordered Graph.drawers_reorders _ _ hdocs hkeys "Cabinet").2 (by decide)
  rw [h] at hnames
  rw [h'] at hnames'
  exact ⟨rfl, by decide, Graph.drawers_reorders, hdocs, hkeys, by decide, schema, schema', h, h',
    Option.some.inj hnames, Option.some.inj hnames', hsame⟩

end SchemaInference
