import SchemaInference.Proofs.Schema.PlanNames
import SchemaInference.Proofs.Schema.PromotedPlaces

set_option autoImplicit false

namespace SchemaInference

variable {r : Rounding} {s : Settings}

namespace Settings

variable {fields fields' : FieldMap} {rootName : String}

theorem promotedName?_rel {s' : Settings} {related : String → String → Prop} {path : List String}
    (hfields : fields.Distinct) (hfields' : fields'.Distinct)
    (hnames : ∀ plan ∈ promotions r s fields rootName, plan.name ≠ "")
    (hnames' : ∀ plan' ∈ promotions r s' fields' rootName, plan'.name ≠ "")
    (hrelated : ∀ plan ∈ promotions r s fields rootName, ∀ plan' ∈ promotions r s' fields' rootName,
      plan.path = path → plan'.path = path → related plan.name plan'.name)
    (hboth : (∃ plan ∈ promotions r s fields rootName, plan.path = path) ↔
      ∃ plan' ∈ promotions r s' fields' rootName, plan'.path = path) :
    Option.Rel related (promotedName? (promotedNames (promotions r s fields rootName)) path)
      (promotedName? (promotedNames (promotions r s' fields' rootName)) path) := by
  have hsome : ∀ name, promotedName? (promotedNames (promotions r s fields rootName)) path = some name ↔ _ :=
    fun name => promotedName?_of_names_ne_empty hfields hnames
  have hsome' : ∀ name, promotedName? (promotedNames (promotions r s' fields' rootName)) path = some name ↔ _ :=
    fun name => promotedName?_of_names_ne_empty hfields' hnames'
  cases hfirst : promotedName? (promotedNames (promotions r s fields rootName)) path with
  | some name =>
    obtain ⟨plan, hplan, hpath, rfl⟩ := (hsome name).mp hfirst
    obtain ⟨plan', hplan', hpath'⟩ := hboth.mp ⟨plan, hplan, hpath⟩
    rw [(hsome' plan'.name).mpr ⟨plan', hplan', hpath', rfl⟩]
    exact .some (hrelated plan hplan plan' hplan' hpath hpath')
  | none =>
    cases hsecond : promotedName? (promotedNames (promotions r s' fields' rootName)) path with
    | none => exact .none
    | some name' =>
      obtain ⟨plan', hplan', hpath', -⟩ := (hsome' name').mp hsecond
      obtain ⟨plan, hplan, hpath⟩ := hboth.mpr ⟨plan', hplan', hpath'⟩
      rw [(hsome plan.name).mpr ⟨plan, hplan, hpath, rfl⟩] at hfirst
      cases hfirst

section Alike

variable (hfields : fields.Alike fields')

include hfields

theorem matches_of_path_eq {plan plan' : NestedPlan} (hplan : plan ∈ promotions r s fields rootName)
    (hplan' : plan' ∈ promotions r s fields' rootName) (hpath : plan.path = plan'.path) : plan.Matches plan' := by
  obtain ⟨other, hother, hmatch⟩ : ∃ other ∈ promotions r s fields' rootName, plan.Matches other :=
    exists_matching_plan hfields hplan
  rw [promotions_eq_of_path hfields.distinct' hplan' hother (hpath.symm.trans hmatch.path)]
  exact hmatch

theorem named_of_alike (hnamed : fields.Named) : fields'.Named := by
  intro above key stats hstats
  obtain ⟨_, hfound, -⟩ := (hfields.symm.descend above).exists_stats? hstats
  exact hnamed _ _ _ hfound

variable (hnamed : fields.Named) (htemplate : s.template = none)

include hnamed htemplate

theorem promotion_names_resemble {plan plan' : NestedPlan} (hplan : plan ∈ promotions r s fields rootName)
    (hplan' : plan' ∈ promotions r s fields' rootName) (hpath : plan.path = plan'.path) :
    s.strategy.Resembles plan.depth plan.name plan'.name := by
  have hbuiltin := strategy_ne_template htemplate
  -- The induction goes down the path; the parents resemble each other, the root resembling itself.
  induction hn : plan.path.length generalizing plan plan' with
  | zero => exact absurd (List.length_eq_zero_iff.mp hn) (promotions_path_ne_nil hfields.distinct hplan)
  | succ n ih =>
    obtain ⟨known, above, key, stats, hends, hstats, -, hname⟩ := exists_promotion_request hfields.distinct hplan
    obtain ⟨known', above', key', -, hends', -, -, hname'⟩ := exists_promotion_request hfields.distinct' hplan'
    obtain ⟨rfl, hsame⟩ := List.append_inj' ((hends.symm.trans hpath).trans hends') rfl
    cases List.singleton_inj.mp hsame
    have hmatch := matches_of_path_eq hfields hplan hplan' hpath
    have hparents : ∃ depth, plan.depth = depth + 1 ∧ s.strategy.Resembles depth plan.parent plan'.parent := by
      obtain ⟨htop, hroot, hdepth⟩ | ⟨up, hup, hpathup, hnameup, hdepth⟩ := promotions_parent hfields.distinct hplan
      · obtain ⟨-, hroot', -⟩ | ⟨up', hup', hpathup', -⟩ := promotions_parent hfields.distinct' hplan'
        · exact ⟨0, hdepth, by rw [hroot, hroot']; exact .refl _ _ _⟩
        · rw [← hpath, htop] at hpathup'
          exact absurd hpathup' (promotions_path_ne_nil hfields.distinct' hup')
      · obtain ⟨htop', -⟩ | ⟨up', hup', hpathup', hnameup', -⟩ := promotions_parent hfields.distinct' hplan'
        · rw [← hpath] at htop'
          exact absurd (hpathup.trans htop') (promotions_path_ne_nil hfields.distinct hup)
        · rw [← hpath, ← hpathup] at hpathup'
          refine ⟨up.depth, hdepth, ?_⟩
          rw [← hnameup, ← hnameup']
          refine ih hup hup' hpathup'.symm ?_
          rw [hpathup, List.length_dropLast, hn]
          rfl
    obtain ⟨depth, hdepth, hparents⟩ := hparents
    rw [hname, hname', ← hmatch.depth, ← hmatch.isArray, hdepth]
    exact known.register_resembles known' (NamingStrategy.generate_resembles hbuiltin hparents key plan.isArray)
      (NamingStrategy.generate_ne_empty hbuiltin (hnamed _ _ _ hstats) _ _ _)

/-- Two names of the types promoted at one path, the one for the fields of a map and the other for those of
an alike map. -/
structure NamesAt (r : Rounding) (s : Settings) (fields fields' : FieldMap) (rootName : String)
    (path : List String) (name name' : String) : Prop where
  first : ∃ plan ∈ promotions r s fields rootName, plan.path = path ∧ plan.name = name
  second : ∃ plan ∈ promotions r s fields' rootName, plan.path = path ∧ plan.name = name'
  head : name.toList.head? = name'.toList.head?

theorem promotedName?_alike (path : List String) :
    Option.Rel (NamesAt r s fields fields' rootName path)
      (promotedName? (promotedNames (promotions r s fields rootName)) path)
      (promotedName? (promotedNames (promotions r s fields' rootName)) path) := by
  have hfields' := hfields.distinct'
  refine promotedName?_rel hfields.distinct hfields'
    (fun _ hplan => promotion_name_ne_empty hfields.distinct hnamed htemplate hplan)
    (fun _ hplan' => promotion_name_ne_empty hfields' (named_of_alike hfields hnamed) htemplate hplan') ?_ ?_
  · intro plan hplan plan' hplan' hpath hpath'
    have hresemble := promotion_names_resemble hfields hnamed htemplate hplan hplan' (hpath.trans hpath'.symm)
    exact ⟨⟨plan, hplan, hpath, rfl⟩, ⟨plan', hplan', hpath', rfl⟩, hresemble.head⟩
  · constructor
    · rintro ⟨plan, hplan, rfl⟩
      obtain ⟨plan', hplan', hmatch⟩ : ∃ plan' ∈ promotions r s fields' rootName, plan.Matches plan' :=
        exists_matching_plan hfields hplan
      exact ⟨plan', hplan', hmatch.path.symm⟩
    · rintro ⟨plan', hplan', rfl⟩
      obtain ⟨plan, hplan, hmatch⟩ : ∃ plan ∈ promotions r s fields rootName, plan'.Matches plan :=
        exists_matching_plan hfields.symm hplan'
      exact ⟨plan, hplan, hmatch.path.symm⟩

end Alike

end Settings

end SchemaInference
