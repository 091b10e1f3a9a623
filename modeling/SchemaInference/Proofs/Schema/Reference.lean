import SchemaInference.Proofs.Schema.TypeTree

set_option autoImplicit false

namespace SchemaInference

def TypeDefinitions.OnlyReference (d : TypeDefinitions) (t owner : TypeDefinition)
    (f : FieldDefinition) : Prop :=
  f.customTypeName = some t.name ∧
    ∀ u ∈ d.all, ∀ k ∈ u.fields, k.customTypeName = some t.name → u = owner ∧ k = f

/-- A field that is neither an identifier nor in conflict, and holds objects: nothing but objects if it
holds arrays. -/
structure FieldStats.HoldsObjects (s : Settings) (key : String) (stats : FieldStats) : Prop where
  not_id : s.isId key = false
  agreed : stats.nonNullTags.length ≤ 1
  elements : stats.isArray = true → stats.nonNullElementTags = [.object]
  plain : stats.isArray = false → .object ∈ stats.tags

theorem Promotes.holdsObjects {r : Rounding} {s : Settings} {key : String} {stats : FieldStats}
    {nested : FieldMap} {depth : Nat} {p : Promotion} (h : Promotes r s key stats nested depth p) :
    stats.HoldsObjects s key ∧ p.isArray = stats.isArray := by
  cases h with
  | elements _ hid htags harray helements =>
    have hstats : stats.HoldsObjects s key :=
      { not_id := by simpa using hid
        agreed := htags
        elements := fun _ => helements
        plain := fun hno => absurd harray (by simp [hno]) }
    exact ⟨hstats, harray.symm⟩
  | objects _ hid htags hobject harray _ =>
    have hstats : stats.HoldsObjects s key :=
      { not_id := by simpa using hid
        agreed := htags
        elements := fun hyes => absurd hyes harray
        plain := fun _ => hobject }
    exact ⟨hstats, by simpa using Eq.symm (Bool.eq_false_of_not_eq_true harray)⟩

namespace Settings

variable {r : Rounding} {s : Settings} {fields : FieldMap} {rootName : String} {documents : Int}
  {d : TypeDefinitions}

/-- The type of a promoted field: a reference, or the fallback where the nested type has no name. -/
def promotedType (s : Settings) (plan : NestedPlan) : FieldType :=
  if plan.name = "" then
    if plan.isArray then .scalarList s.fallback.scalar else .scalar s.fallback.scalar
  else if plan.isArray then .nestedList plan.name else .nested plan.name

theorem Resolved.of_object {stats : FieldStats} {type : ScalarType}
    (h : Resolved s stats.nonNullElementTags stats.elementNumbers type)
    (helements : stats.nonNullElementTags = [.object]) : type = s.fallback.scalar := by
  have htags : stats.nonNullElementTags.nonNull = [.object] := by
    rw [helements]
    rfl
  cases h with
  | untagged hnone =>
    rw [htags] at hnone
    cases hnone
  | single hsingle =>
    rw [htags] at hsingle
    cases hsingle
    rfl
  | conflict hseveral =>
    rw [htags] at hseveral
    simp at hseveral

theorem Typed.eq_promotedType {plan : NestedPlan} {stats : FieldStats} {key : String} {base : FieldType}
    (hpromotes : Promotes r s key stats plan.fields plan.depth ⟨plan.isArray, plan.frequency⟩)
    (h : Typed s stats ((some plan.name).filter fun name => !name.isEmpty) base) :
    base = s.promotedType plan := by
  obtain ⟨hstats, harray⟩ := hpromotes.holdsObjects
  dsimp only at harray
  have hsome : ∀ name, (some plan.name).filter (fun name => !name.isEmpty) = some name →
      name = plan.name ∧ plan.name ≠ "" := by
    intro name hname
    rw [Option.filter_eq_some_iff] at hname
    obtain ⟨heq, hne⟩ := hname
    cases heq
    exact ⟨rfl, by simpa using hne⟩
  have hnone : (some plan.name).filter (fun name => !name.isEmpty) = none → plan.name = "" := by
    simp
  have hagreed := hstats.agreed
  cases h with
  | conflict htags => omega
  | objects _ hlist hname _ =>
    obtain ⟨rfl, hne⟩ := hsome _ hname
    simp [promotedType, hne, harray, hlist]
  | elements _ hlist hname htype =>
    have helements := hstats.elements hlist
    have hempty := hnone (hname.resolve_right fun hne => hne helements)
    rw [htype.of_object helements]
    simp [promotedType, hempty, harray, hlist]
  | object _ hplain _ hname =>
    obtain ⟨rfl, hne⟩ := hsome _ hname
    simp [promotedType, hne, harray, hplain]
  | fallback _ hplain _ hname =>
    simp [promotedType, hnone hname, harray, hplain]
  | primitive _ hplain hno =>
    have hobject := hstats.plain (Bool.eq_false_of_not_eq_true hplain)
    exact absurd (TagSet.mem_nonNull.mpr ⟨hobject, by simp⟩) hno

theorem exists_promotion_of_prefix (hfields : fields.Distinct) {plan : NestedPlan}
    (hplan : plan ∈ promotions r s fields rootName) {path : List String} (hne : path ≠ [])
    (hpath : path <+: plan.path) : ∃ up ∈ promotions r s fields rootName, up.path = path := by
  induction hn : plan.path.length generalizing plan with
  | zero =>
    rw [List.length_eq_zero_iff.mp hn, List.prefix_nil] at hpath
    exact absurd hpath hne
  | succ n ih =>
    by_cases heq : path = plan.path
    · exact ⟨plan, hplan, heq.symm⟩
    · have hup := prefix_dropLast hpath heq
      obtain ⟨htop, -⟩ | ⟨up, hmem, hpathup, -⟩ := promotions_parent hfields hplan
      · rw [htop, List.prefix_nil] at hup
        exact absurd hup hne
      · refine ih hmem (hpathup ▸ hup) ?_
        rw [hpathup, List.length_dropLast, hn]
        rfl

/-- The nested type was promoted from the field of the owner: it stands one step below its parent, at
the name of the field, and the field has the type that the promotion asks for. -/
structure PromotedFrom (r : Rounding) (s : Settings) (fields : FieldMap) (rootName : String)
    (d : TypeDefinitions) (t owner : TypeDefinition) (f : FieldDefinition) (above : List String)
    (stats : FieldStats) : Prop where
  stands : EmittedAt r s fields rootName d (above ++ [f.name]) t
  owner_stands : EmittedAt r s fields rootName d above owner
  parent : t.parentType = some owner.name
  owned : f ∈ owner.fields
  observed : (fields.descend above).stats? f.name = some stats
  holds : stats.HoldsObjects s f.name
  named : t.name ≠ "" → f.base = if stats.isArray then .nestedList t.name else .nested t.name
  unnamed : t.name = "" →
    f.base = if stats.isArray then .scalarList s.fallback.scalar else .scalar s.fallback.scalar

section Emitted

variable (h : s.build r fields rootName documents = .ok d) (hfields : fields.Distinct)

include h hfields

theorem exists_promotedFrom {plan : NestedPlan} {t : TypeDefinition}
    (hzip : (plan, t) ∈ (promotions r s fields rootName).zip d.nested) :
    ∃ owner ∈ d.all, ∃ f above stats,
      PromotedFrom r s fields rootName d t owner f above stats ∧ plan.path = above ++ [f.name] := by
  obtain ⟨hplan, -, ht⟩ := mem_zip_nested h hzip
  have hname : t.name = plan.name := by rw [ht]
  obtain ⟨above, key, stats, hplaced⟩ := promotions_placed hfields hplan
  have hpath : plan.path = above ++ [key] := hplaced.path_eq
  have hpromotes := promotes_of_promotion? hplaced.promotion
  obtain ⟨hholds, harray⟩ := hpromotes.holdsObjects
  dsimp only at harray
  obtain ⟨owner, hmem, howner, hparent, -⟩ := exists_owner h hfields hzip
  rw [hpath, List.dropLast_concat] at howner
  obtain ⟨scope, hdefs⟩ := howner.fieldDefinitions h hfields
  obtain ⟨hnames, hdefined⟩ := fieldDefinitions_eq_ok (hfields.descend above) hdefs
  have hkey : key ∈ owner.fields.map (·.name) := by
    rw [hnames]
    exact FieldMap.mem_names_of_stats? _ _ hplaced.stats_eq
  obtain ⟨f, hf, rfl⟩ := List.mem_map.mp hkey
  obtain ⟨found, hfound, hdef⟩ := (hdefined f).mp hf
  -- The field was typed by the same statistics that it was promoted by.
  cases hplaced.stats_eq.symm.trans hfound
  have hbase := (fieldDefinition_eq_ok.mp hdef).1
  rw [if_neg (by simp [hholds.not_id])] at hbase
  have hlookup : (promotedNames (promotions r s fields rootName)).lookup (above ++ [f.name]) = some plan.name :=
    (lookup_promotedNames hfields).mpr ⟨plan, hplan, hpath, rfl⟩
  have htyped := baseType_typed hbase
  rw [promotedName?, hlookup] at htyped
  have htype := htyped.eq_promotedType hpromotes
  refine ⟨owner, hmem, f, above, stats, ?_, hpath⟩
  exact
    { stands := hpath ▸ .nested hzip
      owner_stands := howner
      parent := hparent
      owned := hf
      observed := hfound
      holds := hholds
      named := fun hne => by rw [htype, promotedType, if_neg (hname ▸ hne), harray, hname]
      unnamed := fun hempty => by rw [htype, promotedType, if_pos (hname ▸ hempty), harray] }

theorem PromotedFrom.onlyReference {t owner : TypeDefinition} {f : FieldDefinition} {above : List String}
    {stats : FieldStats} (hfrom : PromotedFrom r s fields rootName d t owner f above stats)
    (howner : owner ∈ d.all) (hne : t.name ≠ "") : d.OnlyReference t owner f := by
  have hf : f.customTypeName = some t.name := by
    rw [FieldDefinition.customTypeName, hfrom.named hne]
    split <;> rfl
  refine ⟨hf, fun u hu k hk hname => ?_⟩
  obtain ⟨rfl, hkf⟩ := reference_unique h hfields hu howner hk hfrom.owned hname hf
  exact ⟨rfl, List.inj_on_of_nodup_map (fields_names_nodup h hfields hu) hk hfrom.owned hkf⟩

theorem customTypeName_ne_empty {u : TypeDefinition} (hu : u ∈ d.all) {k : FieldDefinition}
    (hk : k ∈ u.fields) : k.customTypeName ≠ some "" := by
  intro hname
  obtain ⟨path, hat⟩ := exists_emittedAt h hu
  obtain ⟨-, -, -, -, hne⟩ := hat.exists_reference h hfields hk hname
  exact hne rfl

end Emitted

end Settings

/-- Every nested type was promoted from one field of its parent type, and everything above it was
promoted as well.  That field is the only one that refers to the type, except that nothing refers to a
type without a name. -/
theorem Settings.build_references (r : Rounding) (s : Settings) (g : Graph) (documents : List Item)
    (rootName : String) (count : Int) (d : TypeDefinitions)
    (h : s.build r (Analysis.ofDocuments g documents).fields rootName count = .ok d) :
    let fields := (Analysis.ofDocuments g documents).fields
    ∀ t ∈ d.nested, ∃ owner ∈ d.all, ∃ f above stats,
      PromotedFrom r s fields rootName d t owner f above stats ∧
      (if t.name = "" then ∀ u ∈ d.all, ∀ k ∈ u.fields, k.customTypeName ≠ some t.name
        else d.OnlyReference t owner f) ∧
      ∀ up key below, above ++ [f.name] = up ++ key :: below →
        (∃ u ∈ d.nested, EmittedAt r s fields rootName d (up ++ [key]) u) ∧
          ∃ found, (fields.descend up).stats? key = some found ∧ found.HoldsObjects s key := by
  intro fields t ht
  have hfields := Analysis.fields_distinct g documents
  obtain ⟨plan, hzip⟩ := exists_plan h ht
  obtain ⟨owner, howner, f, above, stats, hfrom, hpath⟩ := exists_promotedFrom h hfields hzip
  refine ⟨owner, howner, f, above, stats, hfrom, ?_, ?_⟩
  · split
    · rename_i hempty
      rw [hempty]
      exact fun u hu k hk => customTypeName_ne_empty h hfields hu hk
    · rename_i hne
      exact hfrom.onlyReference h hfields howner hne
  · intro up key below hsplit
    obtain ⟨hplan, -⟩ := mem_zip_nested h hzip
    have hextends : up ++ [key] <+: plan.path :=
      ⟨below, by rw [hpath, hsplit, List.append_assoc, List.singleton_append]⟩
    obtain ⟨upper, hupper, hpathup⟩ := exists_promotion_of_prefix hfields hplan (by simp) hextends
    obtain ⟨u, hu, hzipup⟩ := exists_mem_zip h hupper
    obtain ⟨_, -, k, abovek, found, hfromup, hpathk⟩ := exists_promotedFrom h hfields hzipup
    obtain ⟨rfl, hkey⟩ := List.append_inj' (hpathup.symm.trans hpathk) rfl
    cases List.singleton_inj.mp hkey
    exact ⟨⟨u, hu, hpathup ▸ .nested hzipup⟩, found, hfromup.observed, hfromup.holds⟩

def Graph.emptyKey : Graph where
  nodes := #[.mapping [(.text "a", .scalar (.number (.whole 1)))], .mapping [(.text "", .node 0)]]

theorem Settings.build_references_sharedAddress :
    let s := { Settings.standard with maxDepth := 2 }
    let fields := (Analysis.ofDocuments .sharedAddress [.node 2]).fields
    ∃ d, s.build .exact fields "Order" 1 = .ok d ∧
      d.nested.map (·.name) =
        ["OrderBillingAddress", "OrderBilling", "OrderShippingAddress", "OrderShipping"] ∧
      ∀ t ∈ d.nested, ∃ owner ∈ d.all, ∃ f above stats,
        PromotedFrom .exact s fields "Order" d t owner f above stats := by
  intro s fields
  have hview : ((s.build .exact fields "Order" 1).toOption.map fun d => d.nested.map (·.name)) =
      some ["OrderBillingAddress", "OrderBilling", "OrderShippingAddress", "OrderShipping"] := by
    decide +kernel
  obtain ⟨d, h, hnames⟩ := exists_ok_of_toOption hview
  refine ⟨d, h, hnames, fun t ht => ?_⟩
  obtain ⟨owner, howner, f, above, stats, hfrom, -⟩ :=
    build_references .exact s .sharedAddress [.node 2] "Order" 1 d h t ht
  exact ⟨owner, howner, f, above, stats, hfrom⟩

/-- Below the empty key a type with the empty name is emitted, and its field falls back to `JSON`. -/
theorem Settings.not_forall_referenced :
    ¬ ∀ (r : Rounding) (s : Settings) (g : Graph) (documents : List Item) (rootName : String) (count : Int)
        (d : TypeDefinitions), s.build r (Analysis.ofDocuments g documents).fields rootName count = .ok d →
      ∀ t ∈ d.nested, ∃ owner ∈ d.all, ∃ f ∈ owner.fields, d.OnlyReference t owner f := by
  intro hall
  have hview : ((Settings.build .binary64 { Settings.standard with naming := .flat }
      (Analysis.ofDocuments .emptyKey [.node 1]).fields "Root" 1).toOption.map
        fun d => (d.nested.map (·.name), d.all.flatMap (·.fields))) =
      some ([""], [⟨"", .scalar .json, true⟩, ⟨"a", .scalar .int, true⟩]) := by
    decide +kernel
  obtain ⟨d, h, hshown⟩ := exists_ok_of_toOption hview
  obtain ⟨hnames, hfields⟩ := Prod.mk.inj hshown
  obtain ⟨t, ht, hname⟩ := List.mem_map.mp (hnames ▸ List.mem_singleton_self "")
  obtain ⟨owner, howner, f, hf, hreference, -⟩ := hall _ _ _ _ _ _ d h t ht
  have hmem : f ∈ d.all.flatMap (·.fields) := List.mem_flatMap.mpr ⟨owner, howner, hf⟩
  rw [hfields] at hmem
  simp only [List.mem_cons, List.not_mem_nil, or_false] at hmem
  obtain rfl | rfl := hmem <;> cases hreference

end SchemaInference
