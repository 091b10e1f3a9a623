import SchemaInference.Proofs.Naming.Parts
import SchemaInference.Proofs.Schema.Emission

set_option autoImplicit false

namespace SchemaInference

variable {r : Rounding} {s : Settings}

def FieldMap.Named (m : FieldMap) : Prop :=
  ∀ above key stats, (m.descend above).stats? key = some stats → key ≠ ""

/-- Every name was asked for, and only names were known then that are known in the end. -/
theorem Derives.exists_register {strategy : NamingStrategy} {parent : String} {depth : Nat} {path : List String}
    {fields : FieldMap} {names after : NameRegistry} {plans : List NestedPlan}
    (h : Derives r s strategy parent depth path fields names plans after) {plan : NestedPlan}
    (hplan : plan ∈ plans) : ∃ (known : NameRegistry) (above : List String) (key : String),
      plan.path = above ++ [key] ∧ known.names ⊆ names.names ++ plans.map (·.name) ∧
        plan.name = (known.register (strategy.generate plan.parent key plan.depth plan.isArray)).1 := by
  induction h generalizing plan with
  | exhausted => simp at hplan
  | capped => simp at hplan
  | skipped _ _ _ ih => exact ih hplan
  | @promoted parent name typeName depth path stats nested rest names registered between after p below later
      _ _ hregister hbelow _ ihbelow ihlater =>
    have hregistered : registered.names = names.names ++ [typeName] := by
      have hnames := names.names_register (strategy.generate parent name (depth + 1) p.isArray)
      rwa [hregister] at hnames
    rw [List.mem_append, List.mem_cons] at hplan
    obtain hplan | rfl | hplan := hplan
    · obtain ⟨known, above, key, hpath, hknown, hname⟩ := ihbelow hplan
      refine ⟨known, above, key, hpath, fun x hx => ?_, hname⟩
      have hx := hknown hx
      rw [hregistered] at hx
      simp only [List.map_append, List.map_cons, List.mem_append, List.mem_cons, List.not_mem_nil] at hx ⊢
      tauto
    · exact ⟨names, path, name, rfl, List.subset_append_left _ _, (congrArg Prod.fst hregister).symm⟩
    · obtain ⟨known, above, key, hpath, hknown, hname⟩ := ihlater hplan
      refine ⟨known, above, key, hpath, fun x hx => ?_, hname⟩
      have hbetween := hbelow.names_perm.mem_iff (a := x)
      have hx := hknown hx
      rw [hregistered] at hbetween
      simp only [List.map_append, List.map_cons, List.mem_append, List.mem_cons, List.not_mem_nil] at hx hbetween ⊢
      tauto

namespace Settings

variable {fields : FieldMap} {rootName : String}

theorem strategy_ne_template (htemplate : s.template = none) (t : Template) : s.strategy ≠ .template t := by
  unfold strategy
  rw [htemplate]
  cases s.naming <;> simp

theorem exists_promotion_request (hfields : fields.Distinct) {plan : NestedPlan}
    (hplan : plan ∈ promotions r s fields rootName) : ∃ (known : NameRegistry) (above : List String) (key : String)
      (stats : FieldStats), plan.path = above ++ [key] ∧ (fields.descend above).stats? key = some stats ∧
        known.names ⊆ rootName :: (promotions r s fields rootName).map (·.name) ∧
        plan.name = (known.register (s.strategy.generate plan.parent key plan.depth plan.isArray)).1 := by
  obtain ⟨known, above, key, hpath, hknown, hname⟩ := (promotions_derives r s fields rootName).exists_register hplan
  obtain ⟨above', key', stats, hplaced⟩ := promotions_placed hfields hplan
  have hpath' : plan.path = above' ++ [key'] := hplaced.path_eq
  obtain ⟨rfl, hkey⟩ := List.append_inj' (hpath.symm.trans hpath') rfl
  cases List.singleton_inj.mp hkey
  exact ⟨known, above, key, stats, hpath, hplaced.stats_eq, by simpa using hknown, hname⟩

/-- What naming keeps true from a parent to its children is true of every promoted name. -/
theorem promotions_name_induction (hfields : fields.Distinct) {P : String → Prop} (hroot : P rootName)
    (hstep : ∀ (known : NameRegistry) above key stats parent depth isArray,
      (fields.descend above).stats? key = some stats → P parent →
        P (known.register (s.strategy.generate parent key depth isArray)).1) {plan : NestedPlan}
    (hplan : plan ∈ promotions r s fields rootName) : P plan.parent ∧ P plan.name := by
  -- The induction goes down the path.
  induction hn : plan.path.length generalizing plan with
  | zero => exact absurd (List.length_eq_zero_iff.mp hn) (promotions_path_ne_nil hfields hplan)
  | succ n ih =>
    have hparent : P plan.parent := by
      obtain ⟨-, hparent, -⟩ | ⟨up, hup, hpath, hname, -⟩ := promotions_parent hfields hplan
      · rwa [hparent]
      · rw [← hname]
        refine (ih hup ?_).2
        rw [hpath, List.length_dropLast, hn]
        rfl
    obtain ⟨known, above, key, stats, -, hstats, -, hname⟩ := exists_promotion_request hfields hplan
    exact ⟨hparent, hname ▸ hstep known above key stats _ _ _ hstats hparent⟩

theorem promotion_name_ne_empty (hfields : fields.Distinct) (hnamed : fields.Named) (htemplate : s.template = none)
    {plan : NestedPlan} (hplan : plan ∈ promotions r s fields rootName) : plan.name ≠ "" := by
  obtain ⟨known, above, key, stats, -, hstats, -, hname⟩ := exists_promotion_request hfields hplan
  rw [hname]
  exact known.register_ne_empty
    (NamingStrategy.generate_ne_empty (strategy_ne_template htemplate) (hnamed _ _ _ hstats) _ _ _)

theorem promotedName?_of_names_ne_empty (hfields : fields.Distinct)
    (hnames : ∀ plan ∈ promotions r s fields rootName, plan.name ≠ "") {path : List String} {name : String} :
    promotedName? (promotedNames (promotions r s fields rootName)) path = some name ↔
      ∃ plan ∈ promotions r s fields rootName, plan.path = path ∧ plan.name = name := by
  rw [promotedName?_eq_some, lookup_promotedNames hfields, and_iff_left_iff_imp]
  rintro ⟨plan, hplan, -, rfl⟩
  exact hnames plan hplan

theorem not_mem_promotion_name (hfields : fields.Distinct) (htemplate : s.template = none) {x : Char}
    (hascii : x.toNat < 128) (hupper : x.isUpper = false) (hdigit : x.isDigit = false) (hunderscore : x ≠ '_')
    (hroot : x ∉ rootName.toList)
    (hkeys : ∀ above key stats, (fields.descend above).stats? key = some stats → x ∉ key.toList)
    {plan : NestedPlan} (hplan : plan ∈ promotions r s fields rootName) : x ∉ plan.name.toList := by
  refine (promotions_name_induction (P := fun name => x ∉ name.toList) hfields hroot ?_ hplan).2
  intro known above key stats parent depth isArray hstats hparent hmem
  have hrequest : x ∉ (s.strategy.generate parent key depth isArray).toList := by
    rw [NamingStrategy.generate_eq_append (strategy_ne_template htemplate), String.toList_append, List.mem_append]
    rintro (hkept | hown)
    · exact hparent (NamingStrategy.mem_of_mem_keptPart hkept)
    · exact hkeys _ _ _ hstats (NamingStrategy.mem_of_mem_ownPart hascii hupper hown)
  obtain hself | ⟨-, n, hnumbered⟩ := known.register_eq_self_or_numbered (s.strategy.generate parent key depth isArray)
  · exact hrequest (hself ▸ hmem)
  · rw [hnumbered] at hmem
    obtain hname | rfl | hnumber := NameRegistry.mem_numbered hmem
    · exact hrequest hname
    · exact hunderscore rfl
    · simp [hdigit] at hnumber

end Settings

end SchemaInference
