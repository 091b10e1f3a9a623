import SchemaInference.Proofs.Field.Map
import SchemaInference.Proofs.Naming.Registry
import SchemaInference.Schema.Promotion

/-!
# Laws of plans

How plans come about is said once, by a derivation with one case for each thing that can become of a
field.  From it follow, each by one induction, that names are fresh, that a plan stands where its field
stands and carries what was decided there, that its parent is the plan one step up, and that plans are
listed in post-order.
-/

set_option autoImplicit false

namespace SchemaInference

variable {r : Rounding} {s : Settings} {strategy : NamingStrategy}

/-- What a field is like that is promoted: no identifier, without conflict, and either an array of
objects or objects that look like a structure. -/
inductive Promotes (r : Rounding) (s : Settings) (name : String) (stats : FieldStats) (nested : FieldMap)
    (depth : Nat) : Promotion → Prop
  | elements (hnested : nested ≠ .empty) (hid : ¬ s.isId name) (htags : stats.nonNullTags.length ≤ 1)
    (harray : stats.isArray) (helements : stats.nonNullElementTags = [.object]) :
    Promotes r s name stats nested depth ⟨true, stats.scopeSize⟩
  | objects (hnested : nested ≠ .empty) (hid : ¬ s.isId name) (htags : stats.nonNullTags.length ≤ 1)
    (hobject : .object ∈ stats.tags) (harray : ¬ stats.isArray)
    (hstable : s.stability.accepts r nested.frequencies stats.frequency depth) :
    Promotes r s name stats nested depth ⟨false, stats.frequency⟩

theorem Promotes.nested_ne_empty {name : String} {stats : FieldStats} {nested : FieldMap} {depth : Nat}
    {p : Promotion} (h : Promotes r s name stats nested depth p) : nested ≠ .empty := by
  cases h with
  | elements hnested | objects hnested => exact hnested

theorem Settings.promotes_of_promotion? {name : String} {stats : FieldStats} {nested : FieldMap} {depth : Nat}
    {p : Promotion} (h : s.promotion? r name stats nested depth = some p) :
    Promotes r s name stats nested depth p := by
  unfold promotion? at h
  split at h
  · cases h
  · rename_i hfirst
    simp only [Bool.or_eq_true, decide_eq_true_eq, not_or, FieldMap.isEmpty_eq_true_iff, Nat.not_lt] at hfirst
    obtain ⟨⟨hnested, hid⟩, htags⟩ := hfirst
    split at h
    · rename_i hobjects
      cases h
      simp only [isObjectArray, Bool.and_eq_true, beq_iff_eq] at hobjects
      exact .elements hnested hid htags hobjects.1.1 hobjects.2
    · split at h
      · rename_i hobject
        cases h
        exact .objects hnested hid htags hobject.1 hobject.2.1 hobject.2.2
      · cases h

/-- How the plans of the fields of a type come about, with the names known before and after. -/
inductive Derives (r : Rounding) (s : Settings) (strategy : NamingStrategy) :
    String → Nat → List String → FieldMap → NameRegistry → List NestedPlan → NameRegistry → Prop
  | exhausted (parent : String) (depth : Nat) (path : List String) (names : NameRegistry) :
    Derives r s strategy parent depth path .empty names [] names
  | capped {depth : Nat} (parent : String) (path : List String) (fields : FieldMap) (names : NameRegistry)
    (hdepth : s.maxDepth ≤ depth) : Derives r s strategy parent depth path fields names [] names
  | skipped {parent name : String} {depth : Nat} {path : List String} {stats : FieldStats}
    {nested rest : FieldMap} {names after : NameRegistry} {later : List NestedPlan}
    (hdepth : depth < s.maxDepth) (hpromotion : s.promotion? r name stats nested (depth + 1) = none)
    (hlater : Derives r s strategy parent depth path rest names later after) :
    Derives r s strategy parent depth path (.field name stats nested rest) names later after
  /-- The type of the field is named, then the types below it, then those of later fields. -/
  | promoted {parent name typeName : String} {depth : Nat} {path : List String} {stats : FieldStats}
    {nested rest : FieldMap} {names registered between after : NameRegistry} {p : Promotion}
    {below later : List NestedPlan}
    (hdepth : depth < s.maxDepth) (hpromotion : s.promotion? r name stats nested (depth + 1) = some p)
    (hregister : names.register (strategy.generate parent name (depth + 1) p.isArray) = (typeName, registered))
    (hbelow : Derives r s strategy typeName (depth + 1) (path ++ [name]) nested registered below between)
    (hlater : Derives r s strategy parent depth path rest between later after) :
    Derives r s strategy parent depth path (.field name stats nested rest) names
      (below ++ ⟨typeName, nested, parent, depth + 1, p.scope, path ++ [name], p.isArray⟩ :: later) after

theorem Settings.plans_derives (parent : String) (depth : Nat) (path : List String) (fields : FieldMap)
    (names : NameRegistry) : Derives r s strategy parent depth path fields names
      (s.plans r strategy parent depth path fields names).1
      (s.plans r strategy parent depth path fields names).2 := by
  induction fields generalizing parent depth path names with
  | empty => exact .exhausted parent depth path names
  | field name stats nested rest ihnested ihrest =>
    unfold Settings.plans
    by_cases hdepth : s.maxDepth ≤ depth
    · simp only [hdepth, ↓reduceIte]
      exact .capped parent path _ names hdepth
    · simp only [hdepth, ↓reduceIte]
      have hlt : depth < s.maxDepth := Nat.lt_of_not_le hdepth
      cases hp : s.promotion? r name stats nested (depth + 1) with
      | none => exact .skipped hlt hp (ihrest parent depth path names)
      | some p => exact .promoted hlt hp rfl (ihnested _ _ _ _) (ihrest _ _ _ _)

namespace Derives

variable {parent : String} {depth : Nat} {path : List String} {fields : FieldMap}
  {names after : NameRegistry} {plans : List NestedPlan}

theorem names_perm (h : Derives r s strategy parent depth path fields names plans after) :
    after.names.Perm (names.names ++ plans.map (·.name)) := by
  induction h with
  | exhausted => simp
  | capped => simp
  | skipped _ _ _ ih => exact ih
  | @promoted parent name typeName depth path stats nested rest names registered between after p below later
      _ _ hregister _ _ ihbelow ihlater =>
    have hr : registered.names = names.names ++ [typeName] := by
      have hn := NameRegistry.names_register names (strategy.generate parent name (depth + 1) p.isArray)
      rwa [hregister] at hn
    rw [hr] at ihbelow
    refine ihlater.trans ((ihbelow.append_right _).trans ?_)
    simp only [List.map_append, List.map_cons, List.append_assoc]
    refine List.Perm.append_left _ ?_
    rw [List.singleton_append]
    exact List.perm_middle.symm

theorem names_nodup (h : Derives r s strategy parent depth path fields names plans after)
    (hnames : names.names.Nodup) : after.names.Nodup := by
  induction h with
  | exhausted => exact hnames
  | capped => exact hnames
  | skipped _ _ _ ih => exact ih hnames
  | @promoted parent name typeName depth path stats nested rest names registered between after p below later
      _ _ hregister _ _ ihbelow ihlater =>
    have hnodup := names.nodup_register hnames (strategy.generate parent name (depth + 1) p.isArray)
    rw [hregister] at hnodup
    exact ihlater (ihbelow hnodup)

theorem exists_mem_names (h : Derives r s strategy parent depth path fields names plans after)
    {plan : NestedPlan} (hplan : plan ∈ plans) : ∃ key ∈ fields.names, path ++ [key] <+: plan.path := by
  induction h generalizing plan with
  | exhausted => simp at hplan
  | capped => simp at hplan
  | skipped _ _ _ ih =>
    obtain ⟨key, hkey, hpath⟩ := ih hplan
    exact ⟨key, List.mem_cons_of_mem _ hkey, hpath⟩
  | promoted _ _ _ _ _ ihbelow ihlater =>
    rw [List.mem_append, List.mem_cons] at hplan
    obtain hplan | rfl | hplan := hplan
    · obtain ⟨key, -, hpath⟩ := ihbelow hplan
      exact ⟨_, List.mem_cons_self, (List.prefix_append _ _).trans hpath⟩
    · exact ⟨_, List.mem_cons_self, List.prefix_rfl⟩
    · obtain ⟨key, hkey, hpath⟩ := ihlater hplan
      exact ⟨key, List.mem_cons_of_mem _ hkey, hpath⟩

end Derives

namespace FieldMap

theorem descend_field_of_rest {name key : String} {stats : FieldStats} {sub rest : FieldMap}
    (hname : name ∉ rest.names) (above : List String) (h : key ∈ (rest.descend above).names) :
    ((field name stats sub rest).descend above).stats? key = (rest.descend above).stats? key ∧
      ((field name stats sub rest).descend above).nested key = (rest.descend above).nested key := by
  cases above with
  | nil =>
    have hne : name ≠ key := fun he => hname (he ▸ h)
    simp [stats?, nested, hne]
  | cons next above =>
    have hnext : next ∈ rest.names := by
      by_contra hnot
      change key ∈ ((rest.nested next).descend above).names at h
      rw [nested_of_not_mem _ _ hnot, descend_empty] at h
      simp at h
    have hne : name ≠ next := fun he => hname (he ▸ hnext)
    have hsame : (field name stats sub rest).descend (next :: above) = rest.descend (next :: above) := by
      simp [descend, nested, hne]
    rw [hsame]
    exact ⟨rfl, rfl⟩

end FieldMap

/-- Where a plan stands among the fields of a type at some depth and path, and what was decided there:
it is for the field of a key at the path `above` further down. -/
structure NestedPlan.Placed (r : Rounding) (s : Settings) (depth : Nat) (path : List String) (fields : FieldMap)
    (plan : NestedPlan) (above : List String) (key : String) (stats : FieldStats) : Prop where
  path_eq : plan.path = path ++ (above ++ [key])
  stats_eq : (fields.descend above).stats? key = some stats
  fields_eq : plan.fields = (fields.descend above).nested key
  depth_eq : plan.depth = depth + above.length + 1
  depth_le : plan.depth ≤ s.maxDepth
  promotion : s.promotion? r key stats plan.fields plan.depth = some ⟨plan.isArray, plan.frequency⟩

namespace Derives

variable {parent : String} {depth : Nat} {path : List String} {fields : FieldMap}
  {names after : NameRegistry} {plans : List NestedPlan}

theorem placed (h : Derives r s strategy parent depth path fields names plans after) (hfields : fields.Distinct)
    {plan : NestedPlan} (hplan : plan ∈ plans) :
    ∃ above key stats, plan.Placed r s depth path fields above key stats := by
  induction h generalizing plan with
  | exhausted => simp at hplan
  | capped => simp at hplan
  | skipped _ _ _ ih =>
    obtain ⟨above, key, stats, hp⟩ := ih hfields.2.2 hplan
    obtain ⟨hstats, hnested⟩ := FieldMap.descend_field_of_rest hfields.1 above
      (FieldMap.mem_names_of_stats? _ _ hp.stats_eq)
    exact ⟨above, key, stats, { hp with
      stats_eq := hstats.trans hp.stats_eq
      fields_eq := hp.fields_eq.trans hnested.symm }⟩
  | @promoted parent name typeName depth path stats nested rest names registered between after p below later
      hdepth hpromotion _ _ _ ihbelow ihlater =>
    rw [List.mem_append, List.mem_cons] at hplan
    obtain hplan | rfl | hplan := hplan
    · obtain ⟨above, key, stats, hp⟩ := ihbelow hfields.2.1 hplan
      refine ⟨name :: above, key, stats, ?_, ?_, ?_, ?_, hp.depth_le, hp.promotion⟩
      · rw [hp.path_eq]
        simp
      · simpa [FieldMap.descend, FieldMap.nested] using hp.stats_eq
      · simpa [FieldMap.descend, FieldMap.nested] using hp.fields_eq
      · rw [hp.depth_eq, List.length_cons]
        omega
    · refine ⟨[], name, stats, rfl, ?_, ?_, rfl, hdepth, hpromotion⟩
      · simp [FieldMap.stats?]
      · simp [FieldMap.nested]
    · obtain ⟨above, key, stats, hp⟩ := ihlater hfields.2.2 hplan
      obtain ⟨hstats, hnested⟩ := FieldMap.descend_field_of_rest hfields.1 above
        (FieldMap.mem_names_of_stats? _ _ hp.stats_eq)
      exact ⟨above, key, stats, { hp with
        stats_eq := hstats.trans hp.stats_eq
        fields_eq := hp.fields_eq.trans hnested.symm }⟩

theorem parent_eq (h : Derives r s strategy parent depth path fields names plans after) {plan : NestedPlan}
    (hplan : plan ∈ plans) : (plan.path.dropLast = path ∧ plan.parent = parent) ∨
      ∃ up ∈ plans, up.path = plan.path.dropLast ∧ up.name = plan.parent := by
  induction h generalizing plan with
  | exhausted => simp at hplan
  | capped => simp at hplan
  | skipped _ _ _ ih => exact ih hplan
  | promoted _ _ _ _ _ ihbelow ihlater =>
    rw [List.mem_append, List.mem_cons] at hplan
    obtain hplan | rfl | hplan := hplan
    · right
      obtain ⟨hpath, hparent⟩ | ⟨up, hup, hpath, hname⟩ := ihbelow hplan
      · exact ⟨_, List.mem_append_right _ List.mem_cons_self, hpath.symm, hparent.symm⟩
      · exact ⟨up, List.mem_append_left _ hup, hpath, hname⟩
    · left
      simp
    · refine (ihlater hplan).imp_right fun ⟨up, hup, hpath, hname⟩ => ?_
      exact ⟨up, List.mem_append_right _ (List.mem_cons_of_mem _ hup), hpath, hname⟩

end Derives

end SchemaInference
