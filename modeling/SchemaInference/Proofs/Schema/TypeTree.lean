import SchemaInference.Proofs.Field.Nullability
import SchemaInference.Proofs.Schema.Emission

set_option autoImplicit false

namespace SchemaInference

def TypeDefinitions.Below (d : TypeDefinitions) : TypeDefinition → TypeDefinition → Prop :=
  Relation.TransGen fun child parent =>
    child ∈ d.nested ∧ parent ∈ d.nested ∧ child.parentType = some parent.name

/-- The emitted types are a uniquely named tree under the root, no deeper than the limit, listed in
post-order, and every reference is to a child of the type that refers. -/
structure TypeDefinitions.IsTree (d : TypeDefinitions) (rootName : String) (limit : Nat) : Prop where
  root_name : d.root.name = rootName
  root_top : d.root.isNested = false ∧ d.root.parentType = none ∧ d.root.depth = 0
  names_nodup : (d.all.map (·.name)).Nodup
  parent : ∀ t ∈ d.nested, ∃ p ∈ d.all, t.parentType = some p.name ∧ t.depth = p.depth + 1 ∧
    ∀ q ∈ d.all, t.parentType = some q.name → q = p
  depth_le : ∀ t ∈ d.all, t.depth ≤ limit
  before_parent : ∀ before p after, d.nested = before ++ p :: after →
    ∀ t ∈ d.nested, t.parentType = some p.name → t ∈ before
  below_directly_before : ∀ before p after, d.nested = before ++ p :: after →
    ∃ others own, before = others ++ own ∧ (∀ t ∈ own, d.Below t p) ∧ ∀ t ∈ others ++ p :: after, ¬ d.Below t p
  reference : ∀ t ∈ d.all, ∀ f ∈ t.fields, ∀ name, f.customTypeName = some name →
    ∃ u ∈ d.nested, u.name = name ∧ u.parentType = some t.name
  references_nodup : (d.all.flatMap fun t => t.fields.filterMap (·.customTypeName)).Nodup

namespace Settings

variable {r : Rounding} {s : Settings} {fields : FieldMap} {rootName : String} {documents : Int}
  {d : TypeDefinitions}

theorem promotions_parent_iff (hfields : fields.Distinct) {plan up : NestedPlan}
    (hplan : plan ∈ promotions r s fields rootName) (hup : up ∈ promotions r s fields rootName) :
    plan.parent = up.name ↔ plan.path.dropLast = up.path := by
  obtain ⟨htop, hparent, -⟩ | ⟨other, hother, hpath, hname, -⟩ := promotions_parent hfields hplan
  · rw [htop, hparent]
    constructor
    · exact fun h => absurd h.symm (promotions_name_ne_root hup)
    · exact fun h => absurd h.symm (promotions_path_ne_nil hfields hup)
  · rw [← hpath, ← hname]
    constructor
    · intro h
      rw [promotions_eq_of_name hother hup h]
    · intro h
      rw [promotions_eq_of_path hfields hother hup h]

section Emitted

variable (h : s.build r fields rootName documents = .ok d)

include h

theorem map_name_nested : d.nested.map (·.name) = (promotions r s fields rootName).map (·.name) := by
  obtain ⟨-, -, define, hnested, hall⟩ := build_eq_ok h
  rw [hnested, List.map_map]
  refine List.map_congr_left fun plan hplan => ?_
  rw [Function.comp_apply, (hall plan hplan).2]

theorem names_all_nodup : (d.all.map (·.name)).Nodup := by
  rw [TypeDefinitions.all, List.map_cons, (build_eq_ok h).2.1, map_name_nested h]
  exact promotions_names_nodup r s fields rootName

theorem eq_of_name_eq {t u : TypeDefinition} (ht : t ∈ d.all) (hu : u ∈ d.all) (hname : t.name = u.name) :
    t = u :=
  List.inj_on_of_nodup_map (names_all_nodup h) ht hu hname

variable (hfields : fields.Distinct)

include hfields

theorem below_of_prefix {a b : NestedPlan} {t u : TypeDefinition}
    (ha : (a, t) ∈ (promotions r s fields rootName).zip d.nested)
    (hb : (b, u) ∈ (promotions r s fields rootName).zip d.nested)
    (hpath : b.path <+: a.path) (hne : a.path ≠ b.path) : d.Below t u := by
  -- The type one step up is the other one, or lies below it by induction.
  induction hn : a.path.length generalizing a t with
  | zero =>
    have hnil := List.length_eq_zero_iff.mp hn
    exact absurd hnil (promotions_path_ne_nil hfields (mem_zip_nested h ha).1)
  | succ n ih =>
    obtain ⟨haplan, -, ht⟩ := mem_zip_nested h ha
    obtain ⟨hbplan, -, hu⟩ := mem_zip_nested h hb
    have hmem : t ∈ d.nested := (List.of_mem_zip ha).2
    have hup := prefix_dropLast hpath (Ne.symm hne)
    have hnonempty : a.path.dropLast ≠ [] := by
      intro hnil
      rw [hnil, List.prefix_nil] at hup
      exact promotions_path_ne_nil hfields hbplan hup
    obtain ⟨htop, -⟩ | ⟨up, hmemup, hpathup, hname, -⟩ := promotions_parent hfields haplan
    · exact absurd htop hnonempty
    · obtain ⟨v, hv, hzip⟩ := exists_mem_zip h hmemup
      have hvname : v.name = up.name := by rw [(mem_zip_nested h hzip).2.2]
      have hstep : t.parentType = some v.name := by
        rw [ht, hvname, hname]
      by_cases heq : up.path = b.path
      · have hsame := promotions_eq_of_path hfields hmemup hbplan heq
        subst hsame
        have huv : u.name = up.name := by rw [hu]
        exact .single ⟨hmem, (List.of_mem_zip hb).2, by rw [hstep, hvname, huv]⟩
      · refine .head ⟨hmem, hv, hstep⟩ (ih hzip (hpathup ▸ hup) heq ?_)
        rw [hpathup, List.length_dropLast, hn]
        rfl

theorem prefix_of_below {t u : TypeDefinition} (hbelow : d.Below t u) {a b : NestedPlan}
    (ha : (a, t) ∈ (promotions r s fields rootName).zip d.nested)
    (hb : (b, u) ∈ (promotions r s fields rootName).zip d.nested) : b.path <+: a.path ∧ a.path ≠ b.path := by
  -- Each step from a type to its parent drops one name at the end of the path.
  have hstep : ∀ {x y : NestedPlan} {v w : TypeDefinition},
      (x, v) ∈ (promotions r s fields rootName).zip d.nested →
      (y, w) ∈ (promotions r s fields rootName).zip d.nested → v.parentType = some w.name →
      y.path <+: x.path ∧ y.path.length < x.path.length := by
    intro x y v w hx hy hparent
    obtain ⟨hxplan, -, hv⟩ := mem_zip_nested h hx
    obtain ⟨hyplan, -, hw⟩ := mem_zip_nested h hy
    rw [hv, hw] at hparent
    have hpath := (promotions_parent_iff hfields hxplan hyplan).mp (Option.some.inj hparent)
    have hpos := List.length_pos_iff.mpr (promotions_path_ne_nil hfields hxplan)
    rw [← hpath, List.length_dropLast]
    exact ⟨List.dropLast_prefix _, by omega⟩
  have hall : ∀ {x : NestedPlan}, (x, t) ∈ (promotions r s fields rootName).zip d.nested →
      b.path <+: x.path ∧ b.path.length < x.path.length := by
    clear ha
    induction hbelow using Relation.TransGen.head_induction_on with
    | single hlast => exact fun hx => hstep hx hb hlast.2.2
    | head hfirst _ ih =>
      intro x hx
      obtain ⟨-, hmiddle, hparent⟩ := hfirst
      obtain ⟨y, hy⟩ := exists_plan h hmiddle
      obtain ⟨hxy, hlength⟩ := hstep hx hy hparent
      obtain ⟨hyb, hshorter⟩ := ih hy
      exact ⟨hyb.trans hxy, by omega⟩
  obtain ⟨hpath, hlength⟩ := hall ha
  exact ⟨hpath, fun heq => by rw [heq] at hlength; omega⟩

theorem exists_owner {plan : NestedPlan} {t : TypeDefinition}
    (hzip : (plan, t) ∈ (promotions r s fields rootName).zip d.nested) :
    ∃ owner ∈ d.all, EmittedAt r s fields rootName d plan.path.dropLast owner ∧
      t.parentType = some owner.name ∧ t.depth = owner.depth + 1 := by
  obtain ⟨hplan, -, ht⟩ := mem_zip_nested h hzip
  obtain ⟨hpath, hparent, hdepth⟩ | ⟨up, hup, hpath, hname, hdepth⟩ := promotions_parent hfields hplan
  · refine ⟨d.root, List.mem_cons_self, ?_, ?_, ?_⟩
    · rw [hpath]
      exact .root
    · rw [ht, hparent, (build_eq_ok h).2.1]
    · rw [ht, hdepth, (build_eq_ok h).2.1]
  · obtain ⟨owner, howner, hzipup⟩ := exists_mem_zip h hup
    obtain ⟨-, -, heq⟩ := mem_zip_nested h hzipup
    refine ⟨owner, List.mem_cons_of_mem _ howner, ?_, ?_, ?_⟩
    · rw [← hpath]
      exact .nested hzipup
    · rw [ht, heq, hname]
    · rw [ht, heq, hdepth]

theorem exists_child {t : TypeDefinition} (ht : t ∈ d.all) {f : FieldDefinition} (hf : f ∈ t.fields)
    {name : String} (hname : f.customTypeName = some name) :
    ∃ u ∈ d.nested, u.name = name ∧ u.parentType = some t.name := by
  obtain ⟨path, hat⟩ := exists_emittedAt h ht
  obtain ⟨plan, hplan, hpath, rfl, -⟩ := hat.exists_reference h hfields hf hname
  obtain ⟨u, hu, hzip⟩ := exists_mem_zip h hplan
  obtain ⟨-, -, heq⟩ := mem_zip_nested h hzip
  refine ⟨u, hu, by rw [heq], ?_⟩
  rw [heq]
  cases hat with
  | root =>
    obtain ⟨-, hparent, -⟩ | ⟨up, hup, hpathup, -⟩ := promotions_parent hfields hplan
    · rw [hparent, (build_eq_ok h).2.1]
    · rw [hpath, List.dropLast_concat] at hpathup
      exact absurd hpathup (promotions_path_ne_nil hfields hup)
  | @nested owner t hzipt =>
    obtain ⟨howner, -, hteq⟩ := mem_zip_nested h hzipt
    rw [hteq]
    refine congrArg some ((promotions_parent_iff hfields hplan howner).mpr ?_)
    rw [hpath, List.dropLast_concat]

theorem reference_unique {t u : TypeDefinition} (ht : t ∈ d.all) (hu : u ∈ d.all) {f k : FieldDefinition}
    (hf : f ∈ t.fields) (hk : k ∈ u.fields) {name : String} (hfname : f.customTypeName = some name)
    (hkname : k.customTypeName = some name) : t = u ∧ f.name = k.name := by
  obtain ⟨v, hv, hvname, hvparent⟩ := exists_child h hfields ht hf hfname
  obtain ⟨w, hw, hwname, hwparent⟩ := exists_child h hfields hu hk hkname
  have hvw : v = w := eq_of_name_eq h (List.mem_cons_of_mem _ hv) (List.mem_cons_of_mem _ hw)
    (hvname.trans hwname.symm)
  subst hvw
  have htu : t = u := eq_of_name_eq h ht hu (Option.some.inj (hvparent.symm.trans hwparent))
  subst htu
  refine ⟨rfl, ?_⟩
  obtain ⟨path, hat⟩ := exists_emittedAt h ht
  obtain ⟨a, ha, hapath, haname, -⟩ := hat.exists_reference h hfields hf hfname
  obtain ⟨b, hb, hbpath, hbname, -⟩ := hat.exists_reference h hfields hk hkname
  have hab := promotions_eq_of_name ha hb (haname.trans hbname.symm)
  rw [← hab, hapath] at hbpath
  simpa using hbpath

theorem fields_names_nodup {t : TypeDefinition} (ht : t ∈ d.all) : (t.fields.map (·.name)).Nodup := by
  obtain ⟨path, hat⟩ := exists_emittedAt h ht
  obtain ⟨scope, hdefs⟩ := hat.fieldDefinitions h hfields
  rw [(fieldDefinitions_eq_ok (hfields.descend path) hdefs).1]
  exact (hfields.descend path).names_nodup

theorem references_all_nodup : (d.all.flatMap fun t => t.fields.filterMap (·.customTypeName)).Nodup := by
  rw [List.Nodup, List.pairwise_flatMap]
  constructor
  · intro t ht
    rw [List.pairwise_filterMap]
    have hnames := fields_names_nodup h hfields ht
    rw [List.Nodup, List.pairwise_map] at hnames
    refine hnames.imp_of_mem fun {f k} hf hk hne name hfname other hkname heq => ?_
    subst heq
    exact hne (reference_unique h hfields ht ht hf hk hfname hkname).2
  · have hnames := names_all_nodup h
    rw [List.Nodup, List.pairwise_map] at hnames
    refine hnames.imp_of_mem fun {t u} ht hu hne name hname other hother heq => ?_
    subst heq
    obtain ⟨f, hf, hfname⟩ := List.mem_filterMap.mp hname
    obtain ⟨k, hk, hkname⟩ := List.mem_filterMap.mp hother
    exact hne (congrArg _ (reference_unique h hfields ht hu hf hk hfname hkname).1)

theorem below_split {before after : List TypeDefinition} {p : TypeDefinition}
    (hsplit : d.nested = before ++ p :: after) : ∃ others own, before = others ++ own ∧
      (∀ t ∈ own, d.Below t p) ∧ ∀ t ∈ others ++ p :: after, ¬ d.Below t p := by
  obtain ⟨-, -, define, hnested, -⟩ := build_eq_ok h
  have hzip : ∀ plan ∈ promotions r s fields rootName,
      (plan, define plan) ∈ (promotions r s fields rootName).zip d.nested := by
    intro plan hplan
    rw [hnested, ← List.map_prod_left_eq_zip]
    exact List.mem_map.mpr ⟨plan, hplan, rfl⟩
  have hnodup := (promotions_derives r s fields rootName).paths_nodup hfields
  have horder := (promotions_derives r s fields rootName).postOrdered hfields
  rw [hnested, List.map_eq_append_iff] at hsplit
  obtain ⟨earlier, rest, hplans, rfl, hrest⟩ := hsplit
  obtain ⟨plan, later, rfl, rfl, rfl⟩ := List.map_eq_cons_iff.mp hrest
  rw [hplans] at horder hnodup hzip
  obtain ⟨otherPaths, ownPaths, hpaths, hown, hothers⟩ :=
    horder (earlier.map (·.path)) plan.path (later.map (·.path)) (by simp)
  obtain ⟨others, own, rfl, rfl, rfl⟩ := List.map_eq_append_iff.mp hpaths
  have hplan := hzip plan (by simp)
  refine ⟨others.map define, own.map define, by simp, ?_, ?_⟩
  · intro t ht
    obtain ⟨a, ha, rfl⟩ := List.mem_map.mp ht
    have hne : a.path ≠ plan.path := by
      rw [List.map_append, List.nodup_append] at hnodup
      exact hnodup.2.2 _ (List.mem_map_of_mem (List.mem_append_right _ ha)) _ (by simp)
    rw [← hplans] at hzip hplan
    refine below_of_prefix h hfields (hzip a ?_) hplan (hown _ (List.mem_map_of_mem ha)) hne
    rw [hplans]
    simp [ha]
  · intro t ht hbelow
    have hmem : t ∈ (others ++ plan :: later).map define := by simpa using ht
    obtain ⟨a, ha, rfl⟩ := List.mem_map.mp hmem
    rw [← hplans] at hzip hplan
    have hzipa := hzip a (by rw [hplans]; simp at ha ⊢; tauto)
    obtain ⟨hextends, hne⟩ := prefix_of_below h hfields hbelow hzipa hplan
    rw [List.mem_append, List.mem_cons] at ha
    obtain ha | rfl | ha := ha
    · exact hothers _ (List.mem_append_left _ (List.mem_map_of_mem ha)) hextends
    · exact hne rfl
    · exact hothers _ (List.mem_append_right _ (List.mem_map_of_mem ha)) hextends

theorem mem_before_parent {before after : List TypeDefinition} {p t : TypeDefinition}
    (hsplit : d.nested = before ++ p :: after) (ht : t ∈ d.nested) (hparent : t.parentType = some p.name) :
    t ∈ before := by
  obtain ⟨others, own, rfl, -, hothers⟩ := below_split h hfields hsplit
  have hp : p ∈ d.nested := by simp [hsplit]
  have hbelow : d.Below t p := .single ⟨ht, hp, hparent⟩
  rw [hsplit, List.append_assoc, List.mem_append, List.mem_append] at ht
  obtain ht | ht | ht := ht
  · exact absurd hbelow (hothers t (List.mem_append_left _ ht))
  · exact List.mem_append_right _ ht
  · exact absurd hbelow (hothers t (List.mem_append_right _ ht))

end Emitted

end Settings

/-- Whatever the names that the strategy gives, the types emitted for a set of documents form a tree. -/
theorem Settings.build_isTree (r : Rounding) (s : Settings) (g : Graph) (documents : List Item)
    (rootName : String) (count : Int) (d : TypeDefinitions)
    (h : s.build r (Analysis.ofDocuments g documents).fields rootName count = .ok d) :
    d.IsTree rootName s.maxDepth := by
  have hfields := Analysis.fields_distinct g documents
  obtain ⟨-, hroot, -⟩ := build_eq_ok h
  refine
    { root_name := by rw [hroot]
      root_top := by rw [hroot]; exact ⟨rfl, rfl, rfl⟩
      names_nodup := names_all_nodup h
      parent := ?_
      depth_le := ?_
      before_parent := fun _ _ _ hsplit _ ht hparent => mem_before_parent h hfields hsplit ht hparent
      below_directly_before := fun _ _ _ hsplit => below_split h hfields hsplit
      reference := fun t ht f hf name hname => exists_child h hfields ht hf hname
      references_nodup := references_all_nodup h hfields }
  · intro t ht
    obtain ⟨plan, hzip⟩ := exists_plan h ht
    obtain ⟨p, hp, -, hparent, hdepth⟩ := exists_owner h hfields hzip
    refine ⟨p, hp, hparent, hdepth, fun q hq hqname => ?_⟩
    exact eq_of_name_eq h hq hp (Option.some.inj (hqname.symm.trans hparent))
  · intro t ht
    obtain rfl | ht := List.mem_cons.mp ht
    · rw [hroot]
      exact Nat.zero_le _
    · obtain ⟨plan, hplan⟩ := exists_plan h ht
      obtain ⟨hmem, -, heq⟩ := mem_zip_nested h hplan
      obtain ⟨above, key, stats, hplaced⟩ := promotions_placed hfields hmem
      rw [heq]
      exact hplaced.depth_le

def Graph.sharedAddress : Graph where
  nodes := #[
    .mapping [(.text "zip", .scalar (.text "1010"))],
    .mapping [(.text "address", .node 0)],
    .mapping [(.text "billing", .node 1), (.text "shipping", .node 1)]]

/-- With a template that names types after their fields alone, one of the addresses gets a number. -/
theorem Settings.build_isTree_sharedAddress :
    let s := { Settings.standard with maxDepth := 2, template := some ⟨fun _ field _ => field, "field"⟩ }
    ∃ d, s.build .exact (Analysis.ofDocuments .sharedAddress [.node 2]).fields "Order" 1 = .ok d ∧
      d.all.map (·.name) = ["Order", "address", "billing", "address_2", "shipping"] ∧
      d.IsTree "Order" 2 := by
  intro s
  have hview : ((s.build .exact (Analysis.ofDocuments .sharedAddress [.node 2]).fields "Order" 1).toOption.map
      fun d => d.all.map (·.name)) = some ["Order", "address", "billing", "address_2", "shipping"] := by
    decide +kernel
  obtain ⟨d, h, hnames⟩ := exists_ok_of_toOption hview
  exact ⟨d, h, hnames, build_isTree .exact s .sharedAddress [.node 2] "Order" 1 d h⟩

end SchemaInference
