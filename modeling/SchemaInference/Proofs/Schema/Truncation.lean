import SchemaInference.Proofs.Schema.AlikeNames
import SchemaInference.Proofs.Schema.Reference
import SchemaInference.Proofs.Schema.Traversal
import Mathlib.Logic.Relator

/-!
# Smaller depth limits

The limit for the depth of types takes no part in what is promoted above it.  So under a smaller limit the plans
are those under a greater one up to that depth, names apart, and a build differs in two things: types get other
names, as less of them compete, and a field whose type is cut off falls back to a scalar.
-/

set_option autoImplicit false

namespace SchemaInference

def Settings.limitedTo (s : Settings) (depth : Nat) : Settings :=
  { s with maxDepth := depth }

namespace Settings

variable {r : Rounding} {s : Settings} {d D : Nat} {fields : FieldMap} {rootName : String}

@[simp] theorem isId_limitedTo (s : Settings) (depth : Nat) : (s.limitedTo depth).isId = s.isId := rfl

@[simp] theorem baseType_limitedTo (s : Settings) (depth : Nat) : (s.limitedTo depth).baseType = s.baseType := rfl

/-- Under a smaller limit the promoted places are those that it allows, in the same order. -/
theorem places_limitedTo (hle : d ≤ D) (visit : Visit) (depth : Nat) (path : List String) (fields : FieldMap) :
    (s.limitedTo d).places r visit depth path fields =
      ((s.limitedTo D).places r visit depth path fields).filter (·.depth ≤ d) := by
  induction fields generalizing depth path with
  | empty => rfl
  | field name stats nested rest ihnested ihrest =>
    by_cases hdepth : d ≤ depth
    · rw [places_capped hdepth]
      refine (List.filter_eq_nil_iff.mpr fun place hplace => ?_).symm
      have hlt := depth_lt_of_mem_places hplace
      simp only [decide_eq_true_eq]
      omega
    · have hlt : depth < (s.limitedTo d).maxDepth := Nat.lt_of_not_le hdepth
      have hltD : depth < (s.limitedTo D).maxDepth := Nat.lt_of_lt_of_le hlt hle
      cases hp : s.promotion? r name stats nested (depth + 1) with
      | none =>
        rw [places_skipped hlt hp, places_skipped hltD hp]
        exact ihrest depth path
      | some p =>
        rw [places_promoted hlt hp, places_promoted hltD hp, List.filter_append, Visit.filter_arrange
          (decide_eq_true hlt), ← ihnested, ← ihrest]

theorem map_place_plans_limitedTo (hle : d ≤ D) (strategy : NamingStrategy) (parent parent' : String)
    (depth : Nat) (path : List String) (fields : FieldMap) (names names' : NameRegistry) :
    ((s.limitedTo d).plans r strategy parent depth path fields names).1.map (·.place) =
      (((s.limitedTo D).plans r strategy parent' depth path fields names').1.filter (·.depth ≤ d)).map (·.place) := by
  have hfilter : ∀ plans : List NestedPlan, (plans.filter (·.depth ≤ d)).map (·.place) =
      (plans.map (·.place)).filter (·.depth ≤ d) := fun plans => by rw [List.filter_map]; rfl
  rw [hfilter, (plans_derives _ _ _ _ _).map_place, (plans_derives _ _ _ _ _).map_place, places_limitedTo hle]

end Settings

theorem Derives.name_ne_empty {r : Rounding} {s : Settings} {strategy : NamingStrategy} {parent : String} {depth : Nat}
    {path : List String} {fields : FieldMap} {names after : NameRegistry} {plans : List NestedPlan}
    (h : Derives r s strategy parent depth path fields names plans after) (hstrategy : strategy.KeepsParent)
    (hparent : parent ≠ "") : ∀ plan ∈ plans, plan.name ≠ "" := by
  induction h with
  | exhausted | capped => exact List.forall_mem_nil _
  | skipped _ _ _ ih => exact ih hparent
  | @promoted parent name typeName depth path stats nested rest names registered between after p below later
      _ _ hregister _ _ ihbelow ihlater =>
    have htype : typeName ≠ "" := by
      have hname := names.register_ne_empty (hstrategy.generate_ne_empty hparent name (depth + 1) p.isArray)
      rwa [hregister] at hname
    exact List.forall_mem_append.mpr ⟨ihbelow htype, List.forall_mem_cons.mpr ⟨htype, ihlater hparent⟩⟩

namespace Settings

/-- A type is called by the first name under the first settings and by the second one under the others: it is
the root, or it was promoted at one place under both. -/
def Renames (r : Rounding) (s s' : Settings) (fields : FieldMap) (rootName name name' : String) : Prop :=
  (name = rootName ∧ name' = rootName) ∨ ∃ plan ∈ promotions r s fields rootName,
    ∃ plan' ∈ promotions r s' fields rootName, plan.place = plan'.place ∧ plan.name = name ∧ plan'.name = name'

def PromotedOnly (r : Rounding) (s s' : Settings) (fields : FieldMap) (rootName : String) (plan : NestedPlan) : Prop :=
  plan ∈ promotions r s' fields rootName ∧ ∀ other ∈ promotions r s fields rootName, other.path ≠ plan.path

variable {r : Rounding} {s s' : Settings} {fields : FieldMap} {rootName : String}

theorem Renames.symm {name name' : String} (h : Renames r s s' fields rootName name name') :
    Renames r s' s fields rootName name' name := by
  obtain ⟨hname, hname'⟩ | ⟨plan, hplan, plan', hplan', hplace, hname, hname'⟩ := h
  · exact .inl ⟨hname', hname⟩
  · exact .inr ⟨plan', hplan', plan, hplan, hplace.symm, hname', hname⟩

theorem renames_rightUnique (hfields : fields.Distinct) :
    Relator.RightUnique (Renames r s s' fields rootName) := by
  intro name first second hfirst hsecond
  obtain ⟨rfl, rfl⟩ | ⟨plan, hplan, plan', hplan', hplace, rfl, rfl⟩ := hfirst
  · obtain ⟨-, rfl⟩ | ⟨plan, hplan, -, -, -, hroot, -⟩ := hsecond
    · rfl
    · exact absurd hroot (promotions_name_ne_root hplan)
  · obtain ⟨hroot, -⟩ | ⟨other, hother, other', hother', hplaceother, hname, rfl⟩ := hsecond
    · exact absurd hroot (promotions_name_ne_root hplan)
    · rw [promotions_eq_of_name hother hplan hname, hplace] at hplaceother
      have hpath : plan'.path = other'.path := congrArg PromotedPlace.path hplaceother
      rw [promotions_eq_of_path hfields hplan' hother' hpath]

theorem renames_biUnique (hfields : fields.Distinct) : Relator.BiUnique (Renames r s s' fields rootName) :=
  ⟨fun _ _ _ h h' => renames_rightUnique hfields h.symm h'.symm, renames_rightUnique hfields⟩

theorem PromotedOnly.promotedName?_eq_none (hfields : fields.Distinct) {plan : NestedPlan}
    (h : PromotedOnly r s s' fields rootName plan) :
    promotedName? (promotedNames (promotions r s fields rootName)) plan.path = none := by
  rw [Option.eq_none_iff_forall_ne_some]
  intro name hname
  rw [promotedName?_eq_some, lookup_promotedNames hfields] at hname
  obtain ⟨⟨other, hother, hpath, -⟩, -⟩ := hname
  exact h.2 other hother hpath

end Settings

theorem Settings.EmittedAt.root_or_nested {r : Rounding} {s : Settings} {fields : FieldMap} {rootName : String}
    {d : TypeDefinitions} {path : List String} {t : TypeDefinition} (h : EmittedAt r s fields rootName d path t) :
    (path = [] ∧ t = d.root) ∨
      ∃ plan, (plan, t) ∈ (promotions r s fields rootName).zip d.nested ∧ plan.path = path := by
  cases h with
  | root => exact .inl ⟨rfl, rfl⟩
  | nested hplan => exact .inr ⟨_, hplan, rfl⟩

/-- A field of the type at a path and the same field under other settings: where its type is promoted only under
these, it is the fallback or a list of it, and elsewhere it is the same up to renaming. -/
structure FieldDefinition.Truncates (r : Rounding) (s s' : Settings) (fields : FieldMap) (rootName : String)
    (path : List String) (f f' : FieldDefinition) : Prop where
  name : f.name = f'.name
  required : f.required = f'.required
  cut : ∀ plan, Settings.PromotedOnly r s s' fields rootName plan → plan.path = path ++ [f.name] →
    f.base = if plan.isArray then .scalarList s.fallback.scalar else .scalar s.fallback.scalar
  kept : (∀ plan, Settings.PromotedOnly r s s' fields rootName plan → plan.path ≠ path ++ [f.name]) →
    f.base.Akin (Settings.Renames r s s' fields rootName) f'.base

/-- A type at a path and the same type under other settings, up to renaming and to fields that are cut off. -/
structure TypeDefinition.Truncates (r : Rounding) (s s' : Settings) (fields : FieldMap) (rootName : String)
    (path : List String) (t t' : TypeDefinition) : Prop where
  name : Settings.Renames r s s' fields rootName t.name t'.name
  isNested : t.isNested = t'.isNested
  parentType : Option.Rel (Settings.Renames r s s' fields rootName) t.parentType t'.parentType
  depth : t.depth = t'.depth
  parentFrequency : t.parentFrequency = t'.parentFrequency
  fields : List.Forall₂ (FieldDefinition.Truncates r s s' fields rootName path) t.fields t'.fields

theorem forall₂_of_mapM {α β ε : Type} [Inhabited β] {f g : α → Except ε β} {R : β → β → Prop} {l : List α}
    {ys zs : List β} (hf : l.mapM f = .ok ys) (hg : l.mapM g = .ok zs)
    (h : ∀ a ∈ l, ∀ y z, f a = .ok y → g a = .ok z → R y z) : List.Forall₂ R ys zs := by
  obtain ⟨result, rfl, hall⟩ := mapM_eq_ok hf
  obtain ⟨result', rfl, hall'⟩ := mapM_eq_ok hg
  rw [List.forall₂_map_left_iff, List.forall₂_map_right_iff, List.forall₂_same]
  exact fun a ha => h a ha _ _ (hall a ha) (hall' a ha)

namespace Settings

variable {r : Rounding} {s : Settings} {d D : Nat} {fields : FieldMap} {rootName : String}

section Limits

variable (hle : d ≤ D)

include hle

theorem exists_deeper_plan {plan : NestedPlan} (hplan : plan ∈ promotions r (s.limitedTo d) fields rootName) :
    ∃ plan' ∈ promotions r (s.limitedTo D) fields rootName, plan.place = plan'.place ∧ plan'.depth ≤ d := by
  have hmem : plan.place ∈ (promotions r (s.limitedTo d) fields rootName).map (·.place) := List.mem_map_of_mem hplan
  rw [promotions, map_place_plans_limitedTo hle _ rootName rootName 0 [] fields _
    (NameRegistry.empty.add rootName)] at hmem
  obtain ⟨plan', hplan', hplace⟩ := List.mem_map.mp hmem
  obtain ⟨hdeeper, hdepth⟩ := List.mem_filter.mp hplan'
  exact ⟨plan', hdeeper, hplace.symm, of_decide_eq_true hdepth⟩

theorem exists_shallower_plan {plan' : NestedPlan} (hplan' : plan' ∈ promotions r (s.limitedTo D) fields rootName)
    (hdepth : plan'.depth ≤ d) : ∃ plan ∈ promotions r (s.limitedTo d) fields rootName, plan.place = plan'.place := by
  have hmem : plan'.place ∈ ((promotions r (s.limitedTo D) fields rootName).filter (·.depth ≤ d)).map (·.place) :=
    List.mem_map_of_mem (List.mem_filter.mpr ⟨hplan', decide_eq_true hdepth⟩)
  rw [promotions, ← map_place_plans_limitedTo hle _ rootName rootName 0 [] fields
    (NameRegistry.empty.add rootName)] at hmem
  obtain ⟨plan, hplan, hplace⟩ := List.mem_map.mp hmem
  exact ⟨plan, hplan, hplace⟩

variable (hfields : fields.Distinct)

include hfields

theorem place_eq_of_path {plan plan' : NestedPlan} (hplan : plan ∈ promotions r (s.limitedTo d) fields rootName)
    (hplan' : plan' ∈ promotions r (s.limitedTo D) fields rootName) (hpath : plan.path = plan'.path) :
    plan.place = plan'.place := by
  obtain ⟨other, hother, hplace, -⟩ := exists_deeper_plan hle hplan
  have hsame : other.path = plan'.path := (congrArg PromotedPlace.path hplace).symm.trans hpath
  rw [hplace, promotions_eq_of_path hfields hother hplan' hsame]

theorem renames_of_path {plan plan' : NestedPlan} (hplan : plan ∈ promotions r (s.limitedTo d) fields rootName)
    (hplan' : plan' ∈ promotions r (s.limitedTo D) fields rootName) (hpath : plan.path = plan'.path) :
    Renames r (s.limitedTo d) (s.limitedTo D) fields rootName plan.name plan'.name :=
  .inr ⟨plan, hplan, plan', hplan', place_eq_of_path hle hfields hplan hplan' hpath, rfl, rfl⟩

theorem parents_renamed {plan plan' : NestedPlan} (hplan : plan ∈ promotions r (s.limitedTo d) fields rootName)
    (hplan' : plan' ∈ promotions r (s.limitedTo D) fields rootName) (hpath : plan.path = plan'.path) :
    Renames r (s.limitedTo d) (s.limitedTo D) fields rootName plan.parent plan'.parent := by
  obtain ⟨htop, hroot, -⟩ | ⟨up, hup, hpathup, hnameup, -⟩ := promotions_parent hfields hplan
  · obtain ⟨-, hroot', -⟩ | ⟨up', hup', hpathup', -⟩ := promotions_parent hfields hplan'
    · exact .inl ⟨hroot, hroot'⟩
    · rw [← hpath, htop] at hpathup'
      exact absurd hpathup' (promotions_path_ne_nil hfields hup')
  · obtain ⟨htop', -⟩ | ⟨up', hup', hpathup', hnameup', -⟩ := promotions_parent hfields hplan'
    · rw [← hpath] at htop'
      exact absurd (hpathup.trans htop') (promotions_path_ne_nil hfields hup)
    · rw [← hnameup, ← hnameup']
      rw [← hpath, ← hpathup] at hpathup'
      exact renames_of_path hle hfields hup hup' hpathup'.symm

variable (hkeeps : s.strategy.KeepsParent) (hroot : rootName ≠ "")

include hkeeps hroot

omit hle hfields in
theorem name_ne_empty_limitedTo (limit : Nat) :
    ∀ plan ∈ promotions r (s.limitedTo limit) fields rootName, plan.name ≠ "" :=
  (promotions_derives r (s.limitedTo limit) fields rootName).name_ne_empty hkeeps hroot

theorem promotedName?_kept {path : List String} (hkept : ∀ plan,
    PromotedOnly r (s.limitedTo d) (s.limitedTo D) fields rootName plan → plan.path ≠ path) :
    Option.Rel (Renames r (s.limitedTo d) (s.limitedTo D) fields rootName)
      (promotedName? (promotedNames (promotions r (s.limitedTo d) fields rootName)) path)
      (promotedName? (promotedNames (promotions r (s.limitedTo D) fields rootName)) path) := by
  refine promotedName?_rel hfields hfields (name_ne_empty_limitedTo hkeeps hroot d)
    (name_ne_empty_limitedTo hkeeps hroot D) ?_ ?_
  · exact fun plan hplan plan' hplan' hpath hpath' =>
      renames_of_path hle hfields hplan hplan' (hpath.trans hpath'.symm)
  · constructor
    · rintro ⟨plan, hplan, rfl⟩
      obtain ⟨plan', hplan', hplace, -⟩ := exists_deeper_plan hle hplan
      exact ⟨plan', hplan', (congrArg PromotedPlace.path hplace).symm⟩
    · rintro ⟨plan', hplan', rfl⟩
      by_contra hnone
      exact hkept plan' ⟨hplan', fun other hother heq => hnone ⟨other, hother, heq⟩⟩ rfl

variable (hpolicy : s.conflicts ≠ .error)

include hpolicy

theorem fieldDefinition_truncates {path : List String} {key : String} {stats : FieldStats} {scope : Int}
    {f f' : FieldDefinition} (hstats : (fields.descend path).stats? key = some stats)
    (hf : (s.limitedTo d).fieldDefinition r key stats (path ++ [key]) scope
      (promotedNames (promotions r (s.limitedTo d) fields rootName)) = .ok f)
    (hf' : (s.limitedTo D).fieldDefinition r key stats (path ++ [key]) scope
      (promotedNames (promotions r (s.limitedTo D) fields rootName)) = .ok f') :
    f.Truncates r (s.limitedTo d) (s.limitedTo D) fields rootName path f' := by
  obtain ⟨hbase, rfl, hrequired⟩ := fieldDefinition_eq_ok.mp hf
  obtain ⟨hbase', hname', hrequired'⟩ := fieldDefinition_eq_ok.mp hf'
  refine ⟨hname'.symm, hrequired.trans hrequired'.symm, fun plan hcut hpath => ?_, fun hkept => ?_⟩
  · obtain ⟨above, key, found, hplaced⟩ := promotions_placed hfields hcut.1
    have hpath' : plan.path = above ++ [key] := hplaced.path_eq
    obtain ⟨rfl, hkey⟩ := List.append_inj' (hpath.symm.trans hpath') rfl
    cases List.singleton_inj.mp hkey
    cases hstats.symm.trans hplaced.stats_eq
    have hpromotion : (s.limitedTo d).promotion? r f.name stats plan.fields plan.depth = _ := hplaced.promotion
    have hpromotes := promotes_of_promotion? hpromotion
    rw [if_neg (by simp [hpromotes.holdsObjects.1.not_id])] at hbase
    have htyped := baseType_typed hbase
    rw [← hpath, hcut.promotedName?_eq_none hfields] at htyped
    -- A field without a plan has the type that it would have if the plan were there but had no name.
    let unnamed : NestedPlan := { plan with name := "" }
    have htype : f.base = (s.limitedTo d).promotedType unnamed := Typed.eq_promotedType hpromotes htyped
    simpa [promotedType, unnamed] using htype
  · by_cases hid : s.isId f.name
    · rw [isId_limitedTo, if_pos hid] at hbase hbase'
      rw [← Except.ok.inj hbase, ← Except.ok.inj hbase']
      exact .scalar .id
    · rw [isId_limitedTo, if_neg hid, baseType_limitedTo] at hbase hbase'
      obtain ⟨base, base', hok, hok', hakin⟩ := baseType_alike hpolicy (.refl stats)
        (promotedName?_kept hle hfields hkeeps hroot hkept)
      cases hbase.symm.trans hok
      cases hbase'.symm.trans hok'
      exact hakin

theorem fieldDefinitions_truncate {path : List String} {scope : Int} {definitions definitions' : List FieldDefinition}
    (h : (s.limitedTo d).fieldDefinitions r (fields.descend path) path scope
      (promotedNames (promotions r (s.limitedTo d) fields rootName)) = .ok definitions)
    (h' : (s.limitedTo D).fieldDefinitions r (fields.descend path) path scope
      (promotedNames (promotions r (s.limitedTo D) fields rootName)) = .ok definitions') :
    List.Forall₂ (FieldDefinition.Truncates r (s.limitedTo d) (s.limitedTo D) fields rootName path) definitions
      definitions' := by
  refine forall₂_of_mapM h h' fun entry hentry f f' hf hf' => ?_
  have hstats := ((hfields.descend path).mem_toList.mp hentry).1
  exact fieldDefinition_truncates hle hfields hkeeps hroot hpolicy hstats hf hf'

section Builds

variable {documents : Int} {shallow deep : TypeDefinitions}
  (h : (s.limitedTo d).build r fields rootName documents = .ok shallow)
  (h' : (s.limitedTo D).build r fields rootName documents = .ok deep)

include h h'

theorem types_truncate {path : List String} {t t' : TypeDefinition}
    (ht : EmittedAt r (s.limitedTo d) fields rootName shallow path t)
    (ht' : EmittedAt r (s.limitedTo D) fields rootName deep path t') :
    t.Truncates r (s.limitedTo d) (s.limitedTo D) fields rootName path t' := by
  obtain ⟨rfl, rfl⟩ | ⟨plan, hzip, rfl⟩ := ht.root_or_nested
  · obtain ⟨-, rfl⟩ | ⟨plan', hzip', hpath'⟩ := ht'.root_or_nested
    · obtain ⟨hdefs, hshape, -⟩ := build_eq_ok h
      obtain ⟨hdefs', hshape', -⟩ := build_eq_ok h'
      have hroots : List.Forall₂ (FieldDefinition.Truncates r (s.limitedTo d) (s.limitedTo D) fields rootName [])
          shallow.root.fields deep.root.fields :=
        fieldDefinitions_truncate hle hfields hkeeps hroot hpolicy hdefs hdefs'
      rw [hshape, hshape']
      exact ⟨.inl ⟨rfl, rfl⟩, rfl, .none, rfl, rfl, hroots⟩
    · exact absurd hpath' (promotions_path_ne_nil hfields (mem_zip_nested h' hzip').1)
  · obtain ⟨hplan, hdefs, hshape⟩ := mem_zip_nested h hzip
    obtain ⟨hnil, -⟩ | ⟨plan', hzip', hpath⟩ := ht'.root_or_nested
    · exact absurd hnil (promotions_path_ne_nil hfields hplan)
    · obtain ⟨hplan', hdefs', hshape'⟩ := mem_zip_nested h' hzip'
      have hplace := place_eq_of_path hle hfields hplan hplan' hpath.symm
      have hdepth : plan.depth = plan'.depth := congrArg PromotedPlace.depth hplace
      have hfrequency : plan.frequency = plan'.frequency := congrArg PromotedPlace.frequency hplace
      rw [promotions_fields_eq hfields hplan] at hdefs
      rw [promotions_fields_eq hfields hplan', hpath, ← hfrequency] at hdefs'
      have hnested := fieldDefinitions_truncate hle hfields hkeeps hroot hpolicy hdefs hdefs'
      rw [hshape, hshape']
      exact ⟨renames_of_path hle hfields hplan hplan' hpath.symm, rfl,
        .some (parents_renamed hle hfields hplan hplan' hpath.symm), hdepth, congrArg some hfrequency, hnested⟩

omit hfields hkeeps hroot hpolicy in
theorem exists_emittedAt_iff (path : List String) :
    (∃ t, EmittedAt r (s.limitedTo d) fields rootName shallow path t) ↔
      ∃ t', EmittedAt r (s.limitedTo D) fields rootName deep path t' ∧ t'.depth ≤ d := by
  constructor
  · rintro ⟨t, ht⟩
    obtain ⟨rfl, -⟩ | ⟨plan, hzip, rfl⟩ := ht.root_or_nested
    · refine ⟨deep.root, .root, ?_⟩
      rw [(build_eq_ok h').2.1]
      exact Nat.zero_le d
    · obtain ⟨plan', hplan', hplace, hdepth⟩ := exists_deeper_plan hle (mem_zip_nested h hzip).1
      obtain ⟨t', -, hzip'⟩ := exists_mem_zip h' hplan'
      have hpath : plan.path = plan'.path := congrArg PromotedPlace.path hplace
      refine ⟨t', hpath ▸ .nested hzip', ?_⟩
      rw [(mem_zip_nested h' hzip').2.2]
      exact hdepth
  · rintro ⟨t', ht', hdepth⟩
    obtain ⟨rfl, -⟩ | ⟨plan', hzip', rfl⟩ := ht'.root_or_nested
    · exact ⟨shallow.root, .root⟩
    · obtain ⟨hplan', -, hshape'⟩ := mem_zip_nested h' hzip'
      rw [hshape'] at hdepth
      obtain ⟨plan, hplan, hplace⟩ := exists_shallower_plan hle hplan' hdepth
      obtain ⟨t, -, hzip⟩ := exists_mem_zip h hplan
      have hpath : plan.path = plan'.path := congrArg PromotedPlace.path hplace
      exact ⟨t, hpath ▸ .nested hzip⟩

end Builds

end Limits

/-- Of two limits the smaller one only cuts off.  The plans under it are those under the greater one up to its
depth, in the same order, names apart.  With a strategy that keeps the parent's name, a name for the root and a
lenient policy, both builds succeed, types are emitted at the paths that the limit allows, and they truncate those
under the greater one. -/
theorem limitedTo_truncates (r : Rounding) (s : Settings) {d D : Nat} (hle : d ≤ D) (fields : FieldMap)
    (rootName : String) :
    (∀ (strategy : NamingStrategy) (names names' : NameRegistry),
      ((s.limitedTo d).plans r strategy rootName 0 [] fields names).1.map (·.place) =
        (((s.limitedTo D).plans r strategy rootName 0 [] fields names').1.filter (·.depth ≤ d)).map (·.place)) ∧
    (fields.Distinct → s.strategy.KeepsParent → rootName ≠ "" → s.conflicts ≠ .error → ∀ documents : Int,
      Relator.BiUnique (Renames r (s.limitedTo d) (s.limitedTo D) fields rootName) ∧
      ∃ shallow deep, (s.limitedTo d).build r fields rootName documents = .ok shallow ∧
        (s.limitedTo D).build r fields rootName documents = .ok deep ∧
        (∀ path, (∃ t, EmittedAt r (s.limitedTo d) fields rootName shallow path t) ↔
          ∃ t', EmittedAt r (s.limitedTo D) fields rootName deep path t' ∧ t'.depth ≤ d) ∧
        ∀ path t t', EmittedAt r (s.limitedTo d) fields rootName shallow path t →
          EmittedAt r (s.limitedTo D) fields rootName deep path t' →
          t.Truncates r (s.limitedTo d) (s.limitedTo D) fields rootName path t') := by
  constructor
  · exact fun strategy => map_place_plans_limitedTo hle strategy rootName rootName 0 [] fields
  · intro hfields hkeeps hroot hpolicy documents
    refine ⟨renames_biUnique hfields, ?_⟩
    have hlenient : ∀ limit, (s.limitedTo limit).conflicts ≠ .error := fun _ => hpolicy
    obtain ⟨shallow, h⟩ := exists_build (hlenient d) r fields rootName documents
    obtain ⟨deep, h'⟩ := exists_build (hlenient D) r fields rootName documents
    exact ⟨shallow, deep, h, h', exists_emittedAt_iff hle h h',
      fun _ _ _ ht ht' => types_truncate hle hfields hkeeps hroot hpolicy h h' ht ht'⟩

end Settings

def Graph.boxAndLid : Graph where
  nodes := #[
    .mapping [(.text "wood", .scalar (.text "oak"))],
    .mapping [(.text "lid", .node 0)],
    .mapping [(.text "box", .node 1), (.text "boxLid", .node 0)]]

/-- Under the smaller limit the lid of the box is cut off, and the other lid gets the name that is left. -/
theorem Settings.limitedTo_truncates_boxAndLid :
    let fields := (Analysis.ofDocuments .boxAndLid [.node 2]).fields
    1 ≤ 2 ∧ fields.Distinct ∧ Settings.standard.strategy.KeepsParent ∧ "Crate" ≠ "" ∧
      Settings.standard.conflicts ≠ .error ∧
      ∃ shallow deep, (Settings.standard.limitedTo 1).build .exact fields "Crate" 1 = .ok shallow ∧
        (Settings.standard.limitedTo 2).build .exact fields "Crate" 1 = .ok deep ∧
        shallow.nested.map (fun t => (t.name, t.fields.map (·.base))) =
          [("CrateBox", [.scalar .json]), ("CrateBoxLid", [.scalar .string])] ∧
        deep.nested.map (fun t => (t.name, t.fields.map (·.base))) =
          [("CrateBoxLid", [.scalar .string]), ("CrateBox", [.nested "CrateBoxLid"]),
            ("CrateBoxLid_2", [.scalar .string])] ∧
        ∀ path t t', EmittedAt .exact (Settings.standard.limitedTo 1) fields "Crate" shallow path t →
          EmittedAt .exact (Settings.standard.limitedTo 2) fields "Crate" deep path t' →
          t.Truncates .exact (Settings.standard.limitedTo 1) (Settings.standard.limitedTo 2) fields "Crate" path
            t' := by
  intro fields
  have hfields : fields.Distinct := Analysis.fields_distinct .boxAndLid [.node 2]
  have hshallow : (((Settings.standard.limitedTo 1).build .exact fields "Crate" 1).toOption.map
      fun d => d.nested.map fun t => (t.name, t.fields.map (·.base))) =
        some [("CrateBox", [.scalar .json]), ("CrateBoxLid", [.scalar .string])] := by
    decide +kernel
  have hdeep : (((Settings.standard.limitedTo 2).build .exact fields "Crate" 1).toOption.map
      fun d => d.nested.map fun t => (t.name, t.fields.map (·.base))) =
        some [("CrateBoxLid", [.scalar .string]), ("CrateBox", [.nested "CrateBoxLid"]),
          ("CrateBoxLid_2", [.scalar .string])] := by
    decide +kernel
  obtain ⟨-, shallow, deep, h, h', -, htruncates⟩ := (limitedTo_truncates .exact .standard (by decide : 1 ≤ 2)
    fields "Crate").2 hfields (.inl rfl) (by decide) (by decide) 1
  rw [h] at hshallow
  rw [h'] at hdeep
  exact ⟨by decide, hfields, .inl rfl, by decide, by decide, shallow, deep, h, h', Option.some.inj hshallow,
    Option.some.inj hdeep, htruncates⟩

end SchemaInference
