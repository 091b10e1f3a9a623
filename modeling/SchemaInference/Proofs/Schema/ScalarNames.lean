import SchemaInference.Proofs.Document.Trees
import SchemaInference.Proofs.Schema.PlanNames
import SchemaInference.Proofs.Schema.TypeTree

set_option autoImplicit false

namespace SchemaInference

namespace ScalarType

/-- The ways to cut a name in two, the second part not beginning with a small letter. -/
def cuts : ScalarType → List (String × String)
  | id => [("", "ID"), ("I", "D"), ("ID", "")]
  | json => [("", "JSON"), ("J", "SON"), ("JS", "ON"), ("JSO", "N"), ("JSON", "")]
  | type => [("", type.name), (type.name, "")]

theorem append_of_mem_cuts {type : ScalarType} {kept own : String} (h : (kept, own) ∈ type.cuts) :
    kept ++ own = type.name := by
  have hall : ∀ cut ∈ type.cuts, cut.1 ++ cut.2 = type.name := by cases type <;> decide
  exact hall (kept, own) h

theorem append_eq_name_iff {type : ScalarType} {kept own : String} (hown : Word.IsCapitalized own) :
    kept ++ own = type.name ↔ (kept, own) ∈ type.cuts := by
  refine ⟨fun hname => ?_, append_of_mem_cuts⟩
  have hletters : kept.toList ++ own.toList = type.name.toList := by rw [← String.toList_append, hname]
  have hkept : kept = String.ofList (type.name.toList.take kept.toList.length) := by
    rw [← hletters, List.take_left, String.ofList_toList]
  have hrest : own = String.ofList (type.name.toList.drop kept.toList.length) := by
    rw [← hletters, List.drop_left, String.ofList_toList]
  have hlength : kept.toList.length < type.name.toList.length + 1 := by
    rw [← hletters, List.length_append]
    omega
  have hall : ∀ n < type.name.toList.length + 1,
      Word.IsCapitalized (String.ofList (type.name.toList.drop n)) →
        (String.ofList (type.name.toList.take n), String.ofList (type.name.toList.drop n)) ∈ type.cuts := by
    cases type <;> decide
  have hcut := hall kept.toList.length hlength
  rw [← hkept, ← hrest] at hcut
  exact hcut hown

theorem underscore_not_mem_name (type : ScalarType) : '_' ∉ type.name.toList := by
  cases type <;> decide

end ScalarType

def FieldType.bareName : FieldType → String
  | scalar type => type.name
  | scalarList type => type.name
  | nested name => name
  | nestedList name => name

/-- The two parts of the name that was asked for spell the name of a scalar. -/
def NestedPlan.Spells (strategy : NamingStrategy) (plan : NestedPlan) (type : ScalarType) : Prop :=
  ∃ above key, plan.path = above ++ [key] ∧
    (strategy.keptPart plan.parent plan.depth plan.isArray, strategy.ownPart key plan.depth plan.isArray) ∈ type.cuts

namespace Settings

variable {r : Rounding} {s : Settings} {fields : FieldMap} {rootName : String}

theorem eq_of_register_eq_name {known : NameRegistry} {name : String} {type : ScalarType}
    (h : (known.register name).1 = type.name) : name = type.name := by
  obtain hself | ⟨-, n, hnumbered⟩ := known.register_eq_self_or_numbered name
  · exact hself.symm.trans h
  · have hunderscore := NameRegistry.underscore_mem_numbered name n
    rw [← hnumbered, h] at hunderscore
    exact absurd hunderscore type.underscore_not_mem_name

theorem exists_promotion_named_iff (hfields : fields.Distinct) (htemplate : s.template = none) {type : ScalarType}
    (hroot : rootName ≠ type.name) :
    (∃ plan ∈ promotions r s fields rootName, plan.name = type.name) ↔
      ∃ plan ∈ promotions r s fields rootName, plan.Spells s.strategy type := by
  have hbuiltin := strategy_ne_template htemplate
  constructor
  · rintro ⟨plan, hplan, htype⟩
    obtain ⟨known, above, key, stats, hpath, -, -, hname⟩ := exists_promotion_request hfields hplan
    have hrequest := eq_of_register_eq_name (hname.symm.trans htype)
    rw [NamingStrategy.generate_eq_append hbuiltin,
      ScalarType.append_eq_name_iff (NamingStrategy.isCapitalized_ownPart _ _ _ _)] at hrequest
    exact ⟨plan, hplan, above, key, hpath, hrequest⟩
  · rintro ⟨plan, hplan, above, key, hpath, hcut⟩
    obtain ⟨known, above', key', stats, hpath', -, hknown, hname⟩ := exists_promotion_request hfields hplan
    obtain ⟨rfl, hkey⟩ := List.append_inj' (hpath.symm.trans hpath') rfl
    cases List.singleton_inj.mp hkey
    have hrequest := ScalarType.append_of_mem_cuts hcut
    rw [← NamingStrategy.generate_eq_append hbuiltin] at hrequest
    rw [hrequest] at hname
    obtain hself | ⟨hmem, -⟩ := known.register_eq_self_or_numbered type.name
    · exact ⟨plan, hplan, hname.trans hself⟩
    · -- The name was taken before, and not by the root.
      obtain hrootName | hother := List.mem_cons.mp (hknown hmem)
      · exact absurd hrootName.symm hroot
      · obtain ⟨other, hmem, hother⟩ := List.mem_map.mp hother
        exact ⟨other, hmem, hother⟩

theorem exists_promotion_name_eq_root_append (hfields : fields.Distinct) (hstrategy : s.strategy = .hierarchical)
    {plan : NestedPlan} (hplan : plan ∈ promotions r s fields rootName) :
    ∃ rest, Word.IsCapitalized rest ∧ plan.name = rootName ++ rest := by
  refine (promotions_name_induction (P := fun name => ∃ rest, Word.IsCapitalized rest ∧ name = rootName ++ rest)
    hfields ⟨"", by simp [Word.IsCapitalized], by simp⟩ ?_ hplan).2
  rintro known above key stats _ depth isArray - ⟨rest, hrest, rfl⟩
  have hown := hrest.append (NamingStrategy.isCapitalized_ownPart s.strategy key depth isArray)
  have hrequest : s.strategy.generate (rootName ++ rest) key depth isArray =
      rootName ++ (rest ++ s.strategy.ownPart key depth isArray) := by
    rw [NamingStrategy.generate_eq_append (by simp [hstrategy]), ← String.append_assoc]
    simp [hstrategy, NamingStrategy.keptPart]
  obtain hself | ⟨-, n, hnumbered⟩ :=
    known.register_eq_self_or_numbered (s.strategy.generate (rootName ++ rest) key depth isArray)
  · exact ⟨_, hown, hself.trans hrequest⟩
  · have hnumber : Word.IsCapitalized ("_" ++ toString n) := by simp [Word.IsCapitalized]
    refine ⟨_, hown.append hnumber, ?_⟩
    rw [hnumbered, hrequest, NameRegistry.numbered]
    simp [String.append_assoc]

theorem root_of_promotion_named (hfields : fields.Distinct) (hstrategy : s.strategy = .hierarchical)
    {type : ScalarType} (hroot : rootName ≠ type.name)
    (h : ∃ plan ∈ promotions r s fields rootName, plan.name = type.name) : rootName ∈ ["", "I", "J", "JS", "JSO"] := by
  obtain ⟨plan, hplan, htype⟩ := h
  obtain ⟨rest, hrest, hname⟩ := exists_promotion_name_eq_root_append hfields hstrategy hplan
  have hcut := (ScalarType.append_eq_name_iff hrest).mp (hname.symm.trans htype)
  have hall : ∀ cut ∈ type.cuts, cut.1 ≠ type.name → cut.1 ∈ ["", "I", "J", "JS", "JSO"] := by
    cases type <;> decide
  exact hall _ hcut hroot

theorem exists_nested_named_iff {documents : Int} {d : TypeDefinitions}
    (h : s.build r fields rootName documents = .ok d) {name : String} :
    (∃ t ∈ d.nested, t.name = name) ↔ ∃ plan ∈ promotions r s fields rootName, plan.name = name := by
  rw [← List.mem_map, map_name_nested h, List.mem_map]

/-- With a built-in strategy, a nested type has the name of a scalar type exactly where the two parts of a name
spell it, which names that contain their parents' do below very few roots only.  Where none is spelled, the type of
every field names a scalar or an emitted type and never both. -/
theorem build_spellsScalars (r : Rounding) (s : Settings) (g : Graph) (documents : List Item) (rootName : String)
    (count : Int) (d : TypeDefinitions) (htemplate : s.template = none)
    (hroot : ∀ type : ScalarType, rootName ≠ type.name)
    (h : s.build r (Analysis.ofDocuments g documents).fields rootName count = .ok d) :
    let plans := promotions r s (Analysis.ofDocuments g documents).fields rootName
    (∀ type : ScalarType, (∃ t ∈ d.nested, t.name = type.name) ↔ ∃ plan ∈ plans, plan.Spells s.strategy type) ∧
      (s.strategy = .hierarchical → rootName ∉ ["", "I", "J", "JS", "JSO"] →
        ∀ t ∈ d.nested, ∀ type : ScalarType, t.name ≠ type.name) ∧
      ((∀ plan ∈ plans, ∀ type : ScalarType, ¬ plan.Spells s.strategy type) → ∀ u ∈ d.all, ∀ f ∈ u.fields,
        (∃ type : ScalarType, f.base.bareName = type.name) ∧ (∀ t ∈ d.all, t.name ≠ f.base.bareName) ∨
        (∃ t ∈ d.all, t.name = f.base.bareName) ∧ ∀ type : ScalarType, f.base.bareName ≠ type.name) := by
  intro plans
  have hfields := Analysis.fields_distinct g documents
  have hspelled : ∀ type : ScalarType, (∃ t ∈ d.nested, t.name = type.name) ↔
      ∃ plan ∈ plans, plan.Spells s.strategy type := fun type =>
    (exists_nested_named_iff h).trans (exists_promotion_named_iff hfields htemplate (hroot type))
  refine ⟨hspelled, fun hstrategy hrare t ht type hname => ?_, fun hnone u hu f hf => ?_⟩
  · exact hrare (root_of_promotion_named hfields hstrategy (hroot type)
      ((exists_nested_named_iff h).mp ⟨t, ht, hname⟩))
  · have hfree : ∀ t ∈ d.all, ∀ type : ScalarType, t.name ≠ type.name := by
      intro t ht type hname
      obtain rfl | ht := List.mem_cons.mp ht
      · rw [(build_eq_ok h).2.1] at hname
        exact hroot type hname
      · obtain ⟨plan, hplan, hspells⟩ := (hspelled type).mp ⟨t, ht, hname⟩
        exact hnone plan hplan type hspells
    obtain ⟨path, hat⟩ := exists_emittedAt h hu
    have hemitted : ∀ name, f.customTypeName = some name → ∃ t ∈ d.all, t.name = name := by
      intro name hname
      obtain ⟨plan, hplan, -, hplanName, -⟩ := hat.exists_reference h hfields hf hname
      obtain ⟨t, ht, htName⟩ := (exists_nested_named_iff h).mpr ⟨plan, hplan, hplanName⟩
      exact ⟨t, List.mem_cons_of_mem _ ht, htName⟩
    cases hbase : f.base with
    | scalar type | scalarList type => exact .inl ⟨⟨type, rfl⟩, fun t ht => hfree t ht type⟩
    | nested name | nestedList name =>
      obtain ⟨t, ht, htName⟩ := hemitted name (by rw [FieldDefinition.customTypeName, hbase]; rfl)
      exact .inr ⟨⟨t, ht, htName⟩, fun type hname => hfree t ht type (htName.trans hname)⟩

def ratioAndBits : List Value :=
  [.record [("float", .record [("ratio", .real (.finite (1 / 2)))]), ("ints", .list [.record [("bits", .whole 32)]])]]

theorem build_spellsScalars_ratioAndBits :
    let s := { Settings.standard with naming := .flat }
    let (g, documents) := Graph.ofValues ratioAndBits
    s.template = none ∧ (∀ type : ScalarType, "Root" ≠ type.name) ∧
      ∃ d, s.build .binary64 (Analysis.ofDocuments g documents).fields "Root" 1 = .ok d ∧
        d.nested.map (·.name) = ["Float", "Int"] ∧ ∀ type : ScalarType,
          (∃ plan ∈ promotions .binary64 s (Analysis.ofDocuments g documents).fields "Root",
            plan.Spells s.strategy type) ↔ type = .float ∨ type = .int := by
  intro s
  have hroot : ∀ type : ScalarType, "Root" ≠ type.name := by
    intro type
    cases type <;> decide
  have hview : ((s.build .binary64 (Analysis.ofDocuments (Graph.ofValues ratioAndBits).1
      (Graph.ofValues ratioAndBits).2).fields "Root" 1).toOption.map fun d => d.nested.map (·.name)) =
        some ["Float", "Int"] := by
    decide +kernel
  obtain ⟨d, hbuild, hnames⟩ := exists_ok_of_toOption hview
  obtain ⟨hspelled, -⟩ := build_spellsScalars .binary64 s _ _ "Root" 1 d rfl hroot hbuild
  refine ⟨rfl, hroot, d, hbuild, hnames, fun type => ?_⟩
  refine (hspelled type).symm.trans ?_
  rw [← List.mem_map, hnames]
  cases type <;> decide

def floatRatio : List Value :=
  [.record [("float", .record [("ratio", .real (.finite (1 / 2)))])]]

/-- The two types have the same text, of which the one is of records and the other of numbers. -/
theorem build_collides_floatRatio :
    let s := { Settings.standard with naming := .flat }
    let (g, documents) := Graph.ofValues floatRatio
    (∀ doc ∈ documents, g.StringKeyed doc) ∧ s.template = none ∧ (∀ type : ScalarType, "Root" ≠ type.name) ∧
      ∃ d, s.build .binary64 (Analysis.ofDocuments g documents).fields "Root" 1 = .ok d ∧
        d.all.map (fun t => (t.name, t.fields.map fun f => (f.base, f.type))) =
          [("Root", [(.nested "Float", "Float!")]), ("Float", [(.scalar .float, "Float!")])] := by
  intro s
  have hkeys : (Graph.ofValues floatRatio).1.TextKeyed := by decide +kernel
  have hroot : ∀ type : ScalarType, "Root" ≠ type.name := by
    intro type
    cases type <;> decide
  have hview : ((s.build .binary64 (Analysis.ofDocuments (Graph.ofValues floatRatio).1
      (Graph.ofValues floatRatio).2).fields "Root" 1).toOption.map
        fun d => d.all.map fun t => (t.name, t.fields.map fun f => (f.base, f.type))) =
          some [("Root", [(.nested "Float", "Float!")]), ("Float", [(.scalar .float, "Float!")])] := by
    decide +kernel
  exact ⟨fun doc _ => hkeys.stringKeyed doc, rfl, hroot, exists_ok_of_toOption hview⟩

end Settings

end SchemaInference
