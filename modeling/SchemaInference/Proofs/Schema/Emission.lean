import SchemaInference.Proofs.Schema.FieldTyping
import SchemaInference.Proofs.Schema.PostOrder

set_option autoImplicit false

namespace SchemaInference

namespace Settings

variable {r : Rounding} {s : Settings} {fields : FieldMap} {rootName : String} {documents : Int}
  {d : TypeDefinitions}

def promotions (r : Rounding) (s : Settings) (fields : FieldMap) (rootName : String) : List NestedPlan :=
  (s.plans r s.strategy rootName 0 [] fields (NameRegistry.empty.add rootName)).1

def promotedNames (plans : List NestedPlan) : PromotedNames :=
  plans.map fun plan => (plan.path, plan.name)

theorem promotions_derives (r : Rounding) (s : Settings) (fields : FieldMap) (rootName : String) :
    Derives r s s.strategy rootName 0 [] fields (NameRegistry.empty.add rootName)
      (promotions r s fields rootName)
      (s.plans r s.strategy rootName 0 [] fields (NameRegistry.empty.add rootName)).2 :=
  plans_derives rootName 0 [] fields _

theorem promotions_names_nodup (r : Rounding) (s : Settings) (fields : FieldMap) (rootName : String) :
    (rootName :: (promotions r s fields rootName).map (·.name)).Nodup := by
  have h := promotions_derives r s fields rootName
  have hnodup := h.names_nodup (by simp)
  have hperm := h.names_perm.nodup_iff.mp hnodup
  simpa using hperm

theorem promotions_placed (hfields : fields.Distinct) {plan : NestedPlan}
    (hplan : plan ∈ promotions r s fields rootName) :
    ∃ above key stats, plan.Placed r s 0 [] fields above key stats :=
  (promotions_derives r s fields rootName).placed hfields hplan

theorem promotions_fields_eq (hfields : fields.Distinct) {plan : NestedPlan}
    (hplan : plan ∈ promotions r s fields rootName) : plan.fields = fields.descend plan.path := by
  obtain ⟨above, key, stats, hp⟩ := promotions_placed hfields hplan
  rw [hp.fields_eq, hp.path_eq, List.nil_append, FieldMap.descend_concat]

theorem promotions_path_ne_nil (hfields : fields.Distinct) {plan : NestedPlan}
    (hplan : plan ∈ promotions r s fields rootName) : plan.path ≠ [] := by
  obtain ⟨above, key, stats, hp⟩ := promotions_placed hfields hplan
  rw [hp.path_eq]
  simp

theorem promotions_eq_of_path (hfields : fields.Distinct) {plan other : NestedPlan}
    (hplan : plan ∈ promotions r s fields rootName) (hother : other ∈ promotions r s fields rootName)
    (h : plan.path = other.path) : plan = other :=
  List.inj_on_of_nodup_map ((promotions_derives r s fields rootName).paths_nodup hfields) hplan hother h

theorem promotions_eq_of_name {plan other : NestedPlan} (hplan : plan ∈ promotions r s fields rootName)
    (hother : other ∈ promotions r s fields rootName) (h : plan.name = other.name) : plan = other :=
  List.inj_on_of_nodup_map (promotions_names_nodup r s fields rootName).of_cons hplan hother h

theorem promotions_name_ne_root {plan : NestedPlan} (hplan : plan ∈ promotions r s fields rootName) :
    plan.name ≠ rootName := by
  have h := (List.nodup_cons.mp (promotions_names_nodup r s fields rootName)).1
  exact fun heq => h (List.mem_map.mpr ⟨plan, hplan, heq⟩)

theorem promotions_parent (hfields : fields.Distinct) {plan : NestedPlan}
    (hplan : plan ∈ promotions r s fields rootName) :
    (plan.path.dropLast = [] ∧ plan.parent = rootName ∧ plan.depth = 1) ∨
      ∃ up ∈ promotions r s fields rootName,
        up.path = plan.path.dropLast ∧ up.name = plan.parent ∧ plan.depth = up.depth + 1 := by
  have hdepth : ∀ p ∈ promotions r s fields rootName, p.depth = p.path.length := by
    intro p hp
    obtain ⟨above, key, stats, hplaced⟩ := promotions_placed hfields hp
    rw [hplaced.depth_eq, hplaced.path_eq]
    simp
  have hlength : plan.path.length = plan.path.dropLast.length + 1 := by
    have hpos := List.length_pos_iff.mpr (promotions_path_ne_nil hfields hplan)
    rw [List.length_dropLast]
    omega
  obtain ⟨hpath, hparent⟩ | ⟨up, hup, hpath, hname⟩ :=
    (promotions_derives r s fields rootName).parent_eq hplan
  · refine .inl ⟨hpath, hparent, ?_⟩
    rw [hdepth plan hplan, hlength, hpath]
    rfl
  · refine .inr ⟨up, hup, hpath, hname, ?_⟩
    rw [hdepth plan hplan, hdepth up hup, hpath]
    exact hlength

theorem lookup_promotedNames (hfields : fields.Distinct) {path : List String} {name : String} :
    (promotedNames (promotions r s fields rootName)).lookup path = some name ↔
      ∃ plan ∈ promotions r s fields rootName, plan.path = path ∧ plan.name = name := by
  have hnodup := (promotions_derives r s fields rootName).paths_nodup hfields
  generalize promotions r s fields rootName = plans at hnodup ⊢
  induction plans with
  | nil => simp [promotedNames]
  | cons plan plans ih =>
    rw [List.map_cons, List.nodup_cons] at hnodup
    simp only [promotedNames, List.map_cons, List.lookup_cons] at ih ⊢
    by_cases hpath : path = plan.path
    · subst hpath
      simp only [beq_self_eq_true, Option.some.injEq, List.mem_cons, exists_eq_or_imp, true_and]
      constructor
      · exact .inl
      · rintro (hname | ⟨other, hother, heq, -⟩)
        · exact hname
        · exact absurd (heq ▸ List.mem_map_of_mem hother) hnodup.1
    · have hbeq : (path == plan.path) = false := beq_eq_false_iff_ne.mpr hpath
      rw [hbeq]
      simpa [Ne.symm hpath] using ih hnodup.2

theorem fieldDefinition_eq_ok {name : String} {stats : FieldStats} {path : List String} {scope : Int}
    {promoted : PromotedNames} {f : FieldDefinition} :
    s.fieldDefinition r name stats path scope promoted = .ok f ↔
      (if s.isId name then .ok (.scalar .id) else s.baseType stats path promoted) = .ok f.base ∧
        f.name = name ∧ f.required = s.isRequired r stats scope := by
  obtain ⟨fname, base, required⟩ := f
  unfold fieldDefinition
  by_cases hid : s.isId name
  · simp only [hid, ↓reduceIte, bind, Except.bind, Except.ok.injEq, FieldDefinition.mk.injEq]
    grind
  · cases hbase : s.baseType stats path promoted with
    | error e => simp [hid, bind, Except.bind]
    | ok b =>
      simp only [hid, Bool.false_eq_true, ↓reduceIte, bind, Except.bind, Except.ok.injEq,
        FieldDefinition.mk.injEq]
      grind

theorem fieldDefinitions_eq_ok (hfields : fields.Distinct) {path : List String} {scope : Int}
    {promoted : PromotedNames} {definitions : List FieldDefinition}
    (h : s.fieldDefinitions r fields path scope promoted = .ok definitions) :
    definitions.map (·.name) = fields.names ∧ ∀ f, f ∈ definitions ↔
      ∃ stats, fields.stats? f.name = some stats ∧
        s.fieldDefinition r f.name stats (path ++ [f.name]) scope promoted = .ok f := by
  obtain ⟨result, rfl, hall⟩ := mapM_eq_ok h
  have hname : ∀ entry ∈ fields.toList, (result entry).name = entry.1 := fun entry hentry =>
    (fieldDefinition_eq_ok.mp (hall entry hentry)).2.1
  constructor
  · rw [List.map_map, FieldMap.names]
    exact List.map_congr_left hname
  · intro f
    rw [List.mem_map]
    constructor
    · rintro ⟨entry, hentry, rfl⟩
      rw [hname entry hentry]
      exact ⟨entry.2.1, (hfields.mem_toList.mp hentry).1, hall entry hentry⟩
    · rintro ⟨stats, hstats, hf⟩
      have hentry : (f.name, stats, fields.nested f.name) ∈ fields.toList :=
        hfields.mem_toList.mpr ⟨hstats, rfl⟩
      refine ⟨_, hentry, ?_⟩
      have hok := hall _ hentry
      dsimp only at hok
      rw [hf] at hok
      exact (Except.ok.inj hok).symm

def definePlan (r : Rounding) (s : Settings) (promoted : PromotedNames) (plan : NestedPlan) :
    Except Failure TypeDefinition :=
  (s.fieldDefinitions r plan.fields plan.path plan.frequency promoted).map fun definitions =>
    ⟨plan.name, definitions, true, some plan.parent, plan.depth, some plan.frequency⟩

theorem build_eq (fields : FieldMap) (rootName : String) (documents : Int) :
    s.build r fields rootName documents =
      ((promotions r s fields rootName).mapM
        (s.definePlan r (promotedNames (promotions r s fields rootName)))).bind fun nested =>
      (s.fieldDefinitions r fields [] documents (promotedNames (promotions r s fields rootName))).map
        fun definitions => ⟨⟨rootName, definitions, false, none, 0, none⟩, nested⟩ := by
  unfold build
  rw [NameRegistry.register_empty]
  rfl

theorem build_eq_ok (h : s.build r fields rootName documents = .ok d) :
    let plans := promotions r s fields rootName
    s.fieldDefinitions r fields [] documents (promotedNames plans) = .ok d.root.fields ∧
      d.root = ⟨rootName, d.root.fields, false, none, 0, none⟩ ∧
      ∃ define : NestedPlan → TypeDefinition, d.nested = plans.map define ∧ ∀ plan ∈ plans,
        s.fieldDefinitions r plan.fields plan.path plan.frequency (promotedNames plans) =
            .ok (define plan).fields ∧
          define plan =
            ⟨plan.name, (define plan).fields, true, some plan.parent, plan.depth, some plan.frequency⟩ := by
  intro plans
  unfold build at h
  simp only [NameRegistry.register_empty, bind, Except.bind] at h
  split at h
  · cases h
  · rename_i nested hnested
    split at h
    · cases h
    · rename_i definitions hroot
      cases h
      obtain ⟨define, rfl, hall⟩ := mapM_eq_ok hnested
      refine ⟨hroot, rfl, define, rfl, fun plan hplan => ?_⟩
      have hplan := hall plan hplan
      split at hplan
      · cases hplan
      · rename_i fieldDefs hdefs
        rw [← Except.ok.inj hplan]
        exact ⟨hdefs, rfl⟩

theorem exists_fieldDefinition (hpolicy : s.conflicts ≠ .error) (r : Rounding) (name : String)
    (stats : FieldStats) (path : List String) (scope : Int) (promoted : PromotedNames) :
    ∃ f, s.fieldDefinition r name stats path scope promoted = .ok f := by
  have hbase : ∃ base, (if s.isId name then .ok (.scalar .id) else s.baseType stats path promoted) =
      .ok base := by
    split
    · exact ⟨_, rfl⟩
    · exact exists_baseType hpolicy _ _ _
  obtain ⟨base, hbase⟩ := hbase
  exact ⟨⟨name, base, s.isRequired r stats scope⟩, fieldDefinition_eq_ok.mpr ⟨hbase, rfl, rfl⟩⟩

theorem exists_fieldDefinitions (hpolicy : s.conflicts ≠ .error) (r : Rounding) (fields : FieldMap)
    (path : List String) (scope : Int) (promoted : PromotedNames) :
    ∃ definitions, s.fieldDefinitions r fields path scope promoted = .ok definitions :=
  exists_mapM_eq_ok fun _ _ => exists_fieldDefinition hpolicy r _ _ _ _ _

/-- Without the strict policy a build succeeds. -/
theorem exists_build (hpolicy : s.conflicts ≠ .error) (r : Rounding) (fields : FieldMap) (rootName : String)
    (documents : Int) : ∃ d, s.build r fields rootName documents = .ok d := by
  unfold build
  simp only [NameRegistry.register_empty, bind, Except.bind]
  split
  · rename_i e herror
    obtain ⟨_, plan, _, -, -, hplan⟩ := mapM_eq_error herror
    obtain ⟨definitions, hdefs⟩ := exists_fieldDefinitions hpolicy r plan.fields plan.path plan.frequency
      (promotedNames (promotions r s fields rootName))
    split at hplan
    · rename_i hfailed
      cases hfailed.symm.trans hdefs
    · cases hplan
  · obtain ⟨definitions, hdefs⟩ := exists_fieldDefinitions hpolicy r fields [] documents
      (promotedNames (promotions r s fields rootName))
    split
    · rename_i hfailed
      cases hfailed.symm.trans hdefs
    · exact ⟨_, rfl⟩

/-- Where a type definition stands: the root at the empty path, a nested type where its plan was
promoted. -/
inductive EmittedAt (r : Rounding) (s : Settings) (fields : FieldMap) (rootName : String)
    (d : TypeDefinitions) : List String → TypeDefinition → Prop
  | root : EmittedAt r s fields rootName d [] d.root
  | nested {plan : NestedPlan} {t : TypeDefinition}
    (hplan : (plan, t) ∈ (promotions r s fields rootName).zip d.nested) :
    EmittedAt r s fields rootName d plan.path t

section Emitted

variable (h : s.build r fields rootName documents = .ok d)

include h

theorem mem_zip_nested {plan : NestedPlan} {t : TypeDefinition}
    (hplan : (plan, t) ∈ (promotions r s fields rootName).zip d.nested) :
    plan ∈ promotions r s fields rootName ∧
      s.fieldDefinitions r plan.fields plan.path plan.frequency
        (promotedNames (promotions r s fields rootName)) = .ok t.fields ∧
      t = ⟨plan.name, t.fields, true, some plan.parent, plan.depth, some plan.frequency⟩ := by
  obtain ⟨-, -, define, hnested, hall⟩ := build_eq_ok h
  rw [hnested, ← List.map_prod_left_eq_zip] at hplan
  obtain ⟨p, hp, heq⟩ := List.mem_map.mp hplan
  obtain ⟨rfl, rfl⟩ := Prod.mk.inj heq
  exact ⟨hp, hall p hp⟩

theorem exists_mem_zip {plan : NestedPlan} (hplan : plan ∈ promotions r s fields rootName) :
    ∃ t ∈ d.nested, (plan, t) ∈ (promotions r s fields rootName).zip d.nested := by
  obtain ⟨-, -, define, hnested, -⟩ := build_eq_ok h
  rw [hnested, ← List.map_prod_left_eq_zip]
  exact ⟨define plan, List.mem_map_of_mem hplan, List.mem_map.mpr ⟨plan, hplan, rfl⟩⟩

theorem exists_plan {t : TypeDefinition} (ht : t ∈ d.nested) :
    ∃ plan, (plan, t) ∈ (promotions r s fields rootName).zip d.nested := by
  obtain ⟨-, -, define, hnested, -⟩ := build_eq_ok h
  rw [hnested] at ht
  obtain ⟨plan, hplan, rfl⟩ := List.mem_map.mp ht
  rw [hnested, ← List.map_prod_left_eq_zip]
  exact ⟨plan, List.mem_map.mpr ⟨plan, hplan, rfl⟩⟩

theorem exists_emittedAt {t : TypeDefinition} (ht : t ∈ d.all) :
    ∃ path, EmittedAt r s fields rootName d path t := by
  obtain rfl | ht := List.mem_cons.mp ht
  · exact ⟨[], .root⟩
  · obtain ⟨plan, hplan⟩ := exists_plan h ht
    exact ⟨plan.path, .nested hplan⟩

theorem EmittedAt.fieldDefinitions (hfields : fields.Distinct) {path : List String} {t : TypeDefinition}
    (ht : EmittedAt r s fields rootName d path t) : ∃ scope : Int,
      s.fieldDefinitions r (fields.descend path) path scope
        (promotedNames (promotions r s fields rootName)) = .ok t.fields := by
  cases ht with
  | root => exact ⟨documents, (build_eq_ok h).1⟩
  | @nested plan t hplan =>
    obtain ⟨hmem, hdefs, -⟩ := mem_zip_nested h hplan
    rw [promotions_fields_eq hfields hmem] at hdefs
    exact ⟨plan.frequency, hdefs⟩

end Emitted

theorem promotedName?_eq_some {promoted : PromotedNames} {path : List String} {name : String} :
    promotedName? promoted path = some name ↔ promoted.lookup path = some name ∧ name ≠ "" := by
  simp [promotedName?, Option.filter_eq_some_iff]

theorem Typed.promotedName {stats : FieldStats} {promotedName : Option String} {base : FieldType}
    {name : String} (h : Typed s stats promotedName base) (hname : base.nestedName? = some name) :
    promotedName = some name := by
  cases h with
  | objects _ _ h _ | object _ _ _ h => exact h.trans hname
  | conflict | elements | fallback | primitive => cases hname

theorem EmittedAt.exists_reference (h : s.build r fields rootName documents = .ok d) (hfields : fields.Distinct)
    {path : List String} {t : TypeDefinition} (ht : EmittedAt r s fields rootName d path t)
    {f : FieldDefinition} (hf : f ∈ t.fields) {name : String} (hname : f.customTypeName = some name) :
    ∃ plan ∈ promotions r s fields rootName, plan.path = path ++ [f.name] ∧ plan.name = name ∧ name ≠ "" := by
  obtain ⟨scope, hdefs⟩ := ht.fieldDefinitions h hfields
  obtain ⟨stats, -, hdef⟩ := ((fieldDefinitions_eq_ok (hfields.descend path) hdefs).2 f).mp hf
  have hbase := (fieldDefinition_eq_ok.mp hdef).1
  split at hbase
  · rw [FieldDefinition.customTypeName, ← Except.ok.inj hbase] at hname
    cases hname
  · have hpromoted := (baseType_typed hbase).promotedName hname
    rw [promotedName?_eq_some, lookup_promotedNames hfields] at hpromoted
    obtain ⟨⟨plan, hplan, hpath, rfl⟩, hne⟩ := hpromoted
    exact ⟨plan, hplan, hpath, rfl, hne⟩

end Settings

end SchemaInference
