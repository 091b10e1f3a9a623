import SchemaInference.Proofs.Schema.AlikeTyping
import SchemaInference.Proofs.Schema.Emission

set_option autoImplicit false

namespace SchemaInference

variable {r : Rounding} {s : Settings}

/-- The field at a path is promoted, and so is every field on the way to it.  The path starts at the
fields of a type of the given depth. -/
inductive PromotedAt (r : Rounding) (s : Settings) : Nat → FieldMap → List String → Promotion → Prop
  | here {depth : Nat} {m : FieldMap} {key : String} {stats : FieldStats} {p : Promotion}
    (hdepth : depth < s.maxDepth) (hstats : m.stats? key = some stats)
    (hpromotion : s.promotion? r key stats (m.nested key) (depth + 1) = some p) :
    PromotedAt r s depth m [key] p
  | inside {depth : Nat} {m : FieldMap} {key : String} {path : List String} {stats : FieldStats}
    {p above : Promotion} (hdepth : depth < s.maxDepth) (hstats : m.stats? key = some stats)
    (hpromotion : s.promotion? r key stats (m.nested key) (depth + 1) = some above)
    (hbelow : PromotedAt r s (depth + 1) (m.nested key) path p) : PromotedAt r s depth m (key :: path) p

namespace PromotedAt

variable {depth : Nat} {path : List String} {p : Promotion} {name : String} {stats : FieldStats}
  {nested rest : FieldMap}

theorem alike {m m' : FieldMap} (h : PromotedAt r s depth m path p) (hm : m.Alike m') :
    PromotedAt r s depth m' path p := by
  induction h generalizing m' with
  | here hdepth hstats hpromotion =>
    obtain ⟨stats', hstats', hs⟩ := hm.exists_stats? hstats
    rw [Settings.promotion?_alike hs (hm.nested _)] at hpromotion
    exact .here hdepth hstats' hpromotion
  | inside hdepth hstats hpromotion _ ih =>
    obtain ⟨stats', hstats', hs⟩ := hm.exists_stats? hstats
    rw [Settings.promotion?_alike hs (hm.nested _)] at hpromotion
    exact .inside hdepth hstats' hpromotion (ih (hm.nested _))

theorem of_rest (hname : name ∉ rest.names) (h : PromotedAt r s depth rest path p) :
    PromotedAt r s depth (.field name stats nested rest) path p := by
  have hapart : ∀ {key found}, rest.stats? key = some found →
      (FieldMap.field name stats nested rest).stats? key = some found ∧
        (FieldMap.field name stats nested rest).nested key = rest.nested key := by
    intro key found hfound
    obtain ⟨hstats, hnested⟩ := FieldMap.descend_field_of_rest hname []
      (FieldMap.mem_names_of_stats? rest key hfound)
    exact ⟨hstats.trans hfound, hnested⟩
  cases h with
  | here hdepth hstats hpromotion =>
    obtain ⟨hfound, hsame⟩ := hapart hstats
    exact .here hdepth hfound (hsame ▸ hpromotion)
  | inside hdepth hstats hpromotion hbelow =>
    obtain ⟨hfound, hsame⟩ := hapart hstats
    exact .inside hdepth hfound (hsame ▸ hpromotion) (hsame ▸ hbelow)

theorem cases_field (h : PromotedAt r s depth (.field name stats nested rest) path p) :
    depth < s.maxDepth ∧
      ((path = [name] ∧ s.promotion? r name stats nested (depth + 1) = some p) ∨
        (∃ above later, path = name :: later ∧ s.promotion? r name stats nested (depth + 1) = some above ∧
          PromotedAt r s (depth + 1) nested later p) ∨
        PromotedAt r s depth rest path p) := by
  cases h with
  | @here _ _ key found _ hdepth hstats hpromotion =>
    refine ⟨hdepth, ?_⟩
    by_cases hkey : name = key
    · subst hkey
      simp only [FieldMap.stats?, FieldMap.nested, ↓reduceIte, Option.some.injEq] at hstats hpromotion
      subst hstats
      exact .inl ⟨rfl, hpromotion⟩
    · simp only [FieldMap.stats?, FieldMap.nested, hkey, ↓reduceIte] at hstats hpromotion
      exact .inr (.inr (.here hdepth hstats hpromotion))
  | @inside _ _ key later found _ above hdepth hstats hpromotion hbelow =>
    refine ⟨hdepth, ?_⟩
    by_cases hkey : name = key
    · subst hkey
      simp only [FieldMap.stats?, FieldMap.nested, ↓reduceIte, Option.some.injEq] at hstats hpromotion hbelow
      subst hstats
      exact .inr (.inl ⟨above, later, rfl, hpromotion, hbelow⟩)
    · simp only [FieldMap.stats?, FieldMap.nested, hkey, ↓reduceIte] at hstats hpromotion hbelow
      exact .inr (.inr (.inside hdepth hstats hpromotion hbelow))

end PromotedAt

namespace Derives

variable {strategy : NamingStrategy} {parent : String} {depth : Nat} {path : List String} {fields : FieldMap}
  {names after : NameRegistry} {plans : List NestedPlan}

theorem promotedAt (h : Derives r s strategy parent depth path fields names plans after)
    (hfields : fields.Distinct) {plan : NestedPlan} (hplan : plan ∈ plans) :
    ∃ later, plan.path = path ++ later ∧ PromotedAt r s depth fields later ⟨plan.isArray, plan.frequency⟩ := by
  induction h generalizing plan with
  | exhausted => simp at hplan
  | capped => simp at hplan
  | skipped _ _ _ ih =>
    obtain ⟨later, hpath, hat⟩ := ih hfields.2.2 hplan
    exact ⟨later, hpath, hat.of_rest hfields.1⟩
  | @promoted parent name typeName depth path stats nested rest names registered between after p below later
      hdepth hpromotion _ _ _ ihbelow ihlater =>
    have hstats : (FieldMap.field name stats nested rest).stats? name = some stats := by simp [FieldMap.stats?]
    have hnested : (FieldMap.field name stats nested rest).nested name = nested := by simp [FieldMap.nested]
    rw [List.mem_append, List.mem_cons] at hplan
    obtain hplan | rfl | hplan := hplan
    · obtain ⟨deeper, hpath, hat⟩ := ihbelow hfields.2.1 hplan
      exact ⟨name :: deeper, by simp [hpath],
        .inside hdepth hstats (hnested.symm ▸ hpromotion) (hnested.symm ▸ hat)⟩
    · exact ⟨[name], rfl, .here hdepth hstats (hnested.symm ▸ hpromotion)⟩
    · obtain ⟨further, hpath, hat⟩ := ihlater hfields.2.2 hplan
      exact ⟨further, hpath, hat.of_rest hfields.1⟩

theorem exists_of_promotedAt (h : Derives r s strategy parent depth path fields names plans after)
    {later : List String} {p : Promotion} (hat : PromotedAt r s depth fields later p) :
    ∃ plan ∈ plans, plan.path = path ++ later ∧ plan.isArray = p.isArray ∧ plan.frequency = p.scope := by
  induction h generalizing later p with
  | exhausted =>
    cases hat with
    | here _ hstats | inside _ hstats => cases hstats
  | capped _ _ _ _ hdepth =>
    cases hat with
    | here hless | inside hless => omega
  | skipped _ hnone _ ih =>
    obtain ⟨-, ⟨-, hsome⟩ | ⟨_, _, -, hsome, -⟩ | hrest⟩ := hat.cases_field
    · cases hnone.symm.trans hsome
    · cases hnone.symm.trans hsome
    · exact ih hrest
  | @promoted parent name typeName depth path stats nested rest names registered between after q below further
      _ hpromotion _ _ _ ihbelow ihlater =>
    obtain ⟨-, ⟨rfl, hsame⟩ | ⟨above, deeper, rfl, -, hbelow⟩ | hrest⟩ := hat.cases_field
    · cases hpromotion.symm.trans hsame
      exact ⟨_, List.mem_append_right _ List.mem_cons_self, rfl, rfl, rfl⟩
    · obtain ⟨plan, hplan, hpath, hkind⟩ := ihbelow hbelow
      exact ⟨plan, List.mem_append_left _ hplan, by simp [hpath], hkind⟩
    · obtain ⟨plan, hplan, hpath, hkind⟩ := ihlater hrest
      exact ⟨plan, List.mem_append_right _ (List.mem_cons_of_mem _ hplan), hpath, hkind⟩

end Derives

/-- Two plans for the same place that count and nest their objects alike. -/
structure NestedPlan.Matches (plan plan' : NestedPlan) : Prop where
  path : plan.path = plan'.path
  depth : plan.depth = plan'.depth
  frequency : plan.frequency = plan'.frequency
  isArray : plan.isArray = plan'.isArray

namespace Settings

variable {fields fields' : FieldMap} {rootName rootName' : String}

theorem promotions_depth_eq (hfields : fields.Distinct) {plan : NestedPlan}
    (hplan : plan ∈ promotions r s fields rootName) : plan.depth = plan.path.length := by
  obtain ⟨above, key, stats, hplaced⟩ := promotions_placed hfields hplan
  rw [hplaced.depth_eq, hplaced.path_eq]
  simp

theorem exists_matching_plan (h : fields.Alike fields') {plan : NestedPlan}
    (hplan : plan ∈ promotions r s fields rootName) :
    ∃ plan' ∈ promotions r s fields' rootName', plan.Matches plan' := by
  obtain ⟨path, hpath, hat⟩ := (promotions_derives r s fields rootName).promotedAt h.distinct hplan
  obtain ⟨plan', hplan', hpath', harray, hfrequency⟩ :=
    (promotions_derives r s fields' rootName').exists_of_promotedAt (hat.alike h)
  have hsame : plan.path = plan'.path := hpath.trans hpath'.symm
  refine ⟨plan', hplan', hsame, ?_, hfrequency.symm, harray.symm⟩
  rw [promotions_depth_eq h.distinct hplan, promotions_depth_eq h.distinct' hplan', hsame]

theorem promotions_paths_perm (h : fields.Alike fields') :
    ((promotions r s fields rootName).map (·.path)).Perm ((promotions r s fields' rootName').map (·.path)) := by
  have hsub : ∀ {m m' : FieldMap} {name name' : String}, m.Alike m' → ∀ path,
      path ∈ (promotions r s m name).map (·.path) → path ∈ (promotions r s m' name').map (·.path) := by
    intro m m' name name' hm path hpath
    obtain ⟨plan, hplan, rfl⟩ := List.mem_map.mp hpath
    obtain ⟨plan', hplan', hmatch⟩ := exists_matching_plan hm hplan
    exact List.mem_map.mpr ⟨plan', hplan', hmatch.path.symm⟩
  rw [List.perm_ext_iff_of_nodup ((promotions_derives r s fields rootName).paths_nodup h.distinct)
    ((promotions_derives r s fields' rootName').paths_nodup h.distinct')]
  exact fun path => ⟨hsub h path, hsub h.symm path⟩

end Settings

end SchemaInference
