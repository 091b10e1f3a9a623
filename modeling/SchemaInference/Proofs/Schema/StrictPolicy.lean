import SchemaInference.Proofs.Field.Sightings
import SchemaInference.Proofs.Schema.TypeTree
import SchemaInference.Proofs.Text.Joining

/-!
# The strict policy

Under the strict policy a field whose values clash is refused, where any other policy makes it a text.
Nothing else depends on the policy: the same objects are promoted under the same names, and a field that
is not refused gets the same type.  So a build fails exactly for the fields that are emitted and clash,
with the first of them in the order in which fields get their types, and is the same build if there is
none.
-/

set_option autoImplicit false

namespace SchemaInference

/-- The tags for which the strict policy refuses a field: those of its values, if there are several, or
those of the elements where it holds arrays only.  Null never counts. -/
inductive FieldStats.Clashes (stats : FieldStats) : TagSet → Prop
  | values (htags : 1 < stats.nonNullTags.length) : Clashes stats stats.nonNullTags
  | elements (honly : stats.nonNullTags = [.array]) (htags : 1 < stats.nonNullElementTags.length) :
    Clashes stats stats.nonNullElementTags

namespace Settings

variable {r : Rounding} {s : Settings} {stats : FieldStats} {tags : TagSet} {path : List String}
  {promoted : PromotedNames} {name : String} {scope : Int} {samples : List Number} {fieldName : Option String}

def strictly (s : Settings) : Settings :=
  { s with conflicts := .error }

theorem resolve_strictly_of_several (htags : 1 < tags.nonNull.length) :
    s.strictly.resolve tags fieldName samples =
      .error (.typeConflict (tags.nonNull.map Tag.name) fieldName) := by
  unfold resolve
  split
  · rename_i hnone
    rw [hnone] at htags
    simp at htags
  · rename_i hsingle
    rw [hsingle] at htags
    simp at htags
  · rfl

theorem resolve_strictly_of_single (htags : tags.nonNull.length ≤ 1) :
    s.strictly.resolve tags fieldName samples = s.resolve tags fieldName samples := by
  unfold resolve
  match htagged : tags.nonNull with
  | [] => rfl
  | [tag] => rfl
  | first :: second :: more =>
    rw [htagged] at htags
    simp at htags

section Tagged

variable (htagged : stats.isArray = true ↔ .array ∈ stats.tags)

include htagged

theorem baseType_strictly_of_clashes (hclash : stats.Clashes tags) :
    s.strictly.baseType stats path promoted =
      .error (.typeConflict (tags.map Tag.name) (some (".".intercalate path))) := by
  unfold baseType
  cases hclash with
  | values htags =>
    dsimp only
    rw [if_pos htags, FieldStats.nonNullTags, resolve_strictly_of_several]
    · rw [TagSet.nonNull_nonNull]
      rfl
    · rwa [TagSet.nonNull_nonNull]
  | elements honly htags =>
    have hmem : Tag.array ∈ stats.nonNullTags := by simp [honly]
    have harray : stats.isArray = true := htagged.mpr (TagSet.mem_nonNull.mp hmem).1
    have hobjects : stats.nonNullElementTags ≠ [.object] := by
      intro hone
      rw [hone] at htags
      simp at htags
    have hresolve : s.strictly.resolve stats.nonNullElementTags (some (".".intercalate path))
        stats.elementNumbers =
          .error (.typeConflict (stats.nonNullElementTags.map Tag.name) (some (".".intercalate path))) := by
      have hsame : TagSet.nonNull stats.nonNullElementTags = stats.nonNullElementTags :=
        TagSet.nonNull_nonNull _
      rw [resolve_strictly_of_several (by rwa [hsame]), hsame]
    dsimp only
    rw [if_neg (by simp [honly]), if_pos harray, hresolve, decide_eq_false hobjects]
    cases promotedName? promoted path <;> rfl

theorem baseType_strictly_of_agreed (hagreed : ∀ tags, ¬ stats.Clashes tags) :
    s.strictly.baseType stats path promoted = s.baseType stats path promoted := by
  have htags : ¬ 1 < stats.nonNullTags.length := fun htags => hagreed _ (.values htags)
  unfold baseType
  dsimp only
  rw [if_neg htags, if_neg htags]
  by_cases harray : stats.isArray = true
  · have hmem : Tag.array ∈ stats.nonNullTags := TagSet.mem_nonNull.mpr ⟨htagged.mp harray, by simp⟩
    have honly : stats.nonNullTags = [.array] := TagSet.eq_singleton_of_mem (Nat.not_lt.mp htags) hmem
    have helements : (TagSet.nonNull stats.nonNullElementTags).length ≤ 1 := by
      rw [FieldStats.nonNullElementTags, TagSet.nonNull_nonNull]
      exact Nat.not_lt.mp fun htags => hagreed _ (.elements honly htags)
    rw [if_pos harray, if_pos harray, resolve_strictly_of_single helements]
  · rw [if_neg harray, if_neg harray]
    rfl

theorem fieldDefinition_strictly_of_clashes (hid : ¬ s.isId name) (hclash : stats.Clashes tags) :
    s.strictly.fieldDefinition r name stats path scope promoted =
      .error (.typeConflict (tags.map Tag.name) (some (".".intercalate path))) := by
  have hstrict : ¬ s.strictly.isId name := hid
  unfold fieldDefinition
  rw [if_neg hstrict, baseType_strictly_of_clashes htagged hclash]
  rfl

theorem fieldDefinition_strictly_of_agreed (hagreed : ¬ s.isId name → ∀ tags, ¬ stats.Clashes tags) :
    s.strictly.fieldDefinition r name stats path scope promoted =
      s.fieldDefinition r name stats path scope promoted := by
  have hrequired : s.strictly.isRequired r stats scope = s.isRequired r stats scope := rfl
  have hsame : s.strictly.isId name = s.isId name := rfl
  unfold fieldDefinition
  rw [hrequired, hsame]
  by_cases hid : s.isId name
  · rw [if_pos hid, if_pos hid]
  · rw [if_neg hid, if_neg hid, baseType_strictly_of_agreed htagged (hagreed hid)]

end Tagged

/-- The strict policy refuses a field in the type at a path: it is no identifier, and its values clash. -/
def Refuses (s : Settings) (fields : FieldMap) (path : List String) (name : String) (tags : TagSet) : Prop :=
  ¬ s.isId name ∧ ∃ stats, (fields.descend path).stats? name = some stats ∧ stats.Clashes tags

def Agreed (s : Settings) (fields : FieldMap) (path : List String) : Prop :=
  ∀ name tags, ¬ s.Refuses fields path name tags

def FirstRefusal (s : Settings) (fields : FieldMap) (path : List String) (e : Failure) : Prop :=
  ∃ earlier name later tags, (fields.descend path).names = earlier ++ name :: later ∧
    (∀ other ∈ earlier, ∀ tags, ¬ s.Refuses fields path other tags) ∧ s.Refuses fields path name tags ∧
    e = .typeConflict (tags.map Tag.name) (some (".".intercalate (path ++ [name])))

section Fields

variable {fields : FieldMap} (hfields : fields.Distinct)
  (htagged : ∀ {path : List String} {name : String} {stats : FieldStats},
    (fields.descend path).stats? name = some stats → (stats.isArray = true ↔ .array ∈ stats.tags))

include hfields htagged

theorem fieldDefinition_strictly_of_refuses {entry : String × FieldStats × FieldMap}
    (hentry : entry ∈ (fields.descend path).toList) (hrefuses : s.Refuses fields path entry.1 tags) :
    s.strictly.fieldDefinition r entry.1 entry.2.1 (path ++ [entry.1]) scope promoted =
      .error (.typeConflict (tags.map Tag.name) (some (".".intercalate (path ++ [entry.1])))) := by
  have hstats := ((hfields.descend path).mem_toList.mp hentry).1
  obtain ⟨hid, stats, hsame, hclash⟩ := hrefuses
  obtain rfl := Option.some.inj (hstats.symm.trans hsame)
  exact fieldDefinition_strictly_of_clashes (htagged hstats) hid hclash

theorem fieldDefinition_strictly_of_not_refuses {entry : String × FieldStats × FieldMap}
    (hentry : entry ∈ (fields.descend path).toList) (hagreed : ∀ tags, ¬ s.Refuses fields path entry.1 tags) :
    s.strictly.fieldDefinition r entry.1 entry.2.1 (path ++ [entry.1]) scope promoted =
      s.fieldDefinition r entry.1 entry.2.1 (path ++ [entry.1]) scope promoted := by
  have hstats := ((hfields.descend path).mem_toList.mp hentry).1
  exact fieldDefinition_strictly_of_agreed (htagged hstats) fun hid tags hclash =>
    hagreed tags ⟨hid, _, hstats, hclash⟩

theorem not_refuses_of_fieldDefinition_strictly {entry : String × FieldStats × FieldMap}
    (hentry : entry ∈ (fields.descend path).toList) {f : FieldDefinition}
    (h : s.strictly.fieldDefinition r entry.1 entry.2.1 (path ++ [entry.1]) scope promoted = .ok f)
    (tags : TagSet) : ¬ s.Refuses fields path entry.1 tags := by
  intro hrefuses
  rw [fieldDefinition_strictly_of_refuses hfields htagged hentry hrefuses] at h
  cases h

theorem fieldDefinitions_strictly_of_agreed (hagreed : s.Agreed fields path) :
    s.strictly.fieldDefinitions r (fields.descend path) path scope promoted =
      s.fieldDefinitions r (fields.descend path) path scope promoted :=
  mapM_congr fun _ hentry => fieldDefinition_strictly_of_not_refuses hfields htagged hentry (hagreed _)

theorem agreed_of_fieldDefinitions_strictly {definitions : List FieldDefinition}
    (h : s.strictly.fieldDefinitions r (fields.descend path) path scope promoted = .ok definitions) :
    s.Agreed fields path := by
  obtain ⟨_, -, hall⟩ := mapM_eq_ok h
  intro name tags hrefuses
  obtain ⟨-, stats, hstats, -⟩ := id hrefuses
  have hentry : (name, stats, (fields.descend path).nested name) ∈ (fields.descend path).toList :=
    (hfields.descend path).mem_toList.mpr ⟨hstats, rfl⟩
  exact not_refuses_of_fieldDefinition_strictly hfields htagged hentry (hall _ hentry) tags hrefuses

theorem firstRefusal_of_fieldDefinitions_strictly (hpolicy : s.conflicts ≠ .error) {e : Failure}
    (h : s.strictly.fieldDefinitions r (fields.descend path) path scope promoted = .error e) :
    s.FirstRefusal fields path e := by
  obtain ⟨before, entry, after, hsplit, hbefore, hfails⟩ := mapM_eq_error h
  have hmem : ∀ other ∈ before, other ∈ (fields.descend path).toList := fun other hother => by
    rw [hsplit]
    exact List.mem_append_left _ hother
  have hentry : entry ∈ (fields.descend path).toList := by simp [hsplit]
  have hrefused : ∃ tags, s.Refuses fields path entry.1 tags := by
    by_contra hnone
    rw [not_exists] at hnone
    dsimp only at hfails
    rw [fieldDefinition_strictly_of_not_refuses hfields htagged hentry hnone] at hfails
    obtain ⟨f, hf⟩ := exists_fieldDefinition hpolicy r entry.1 entry.2.1 (path ++ [entry.1]) scope promoted
    cases hfails.symm.trans hf
  obtain ⟨tags, hrefuses⟩ := hrefused
  refine ⟨before.map (·.1), entry.1, after.map (·.1), tags, ?_, ?_, hrefuses, ?_⟩
  · rw [FieldMap.names, hsplit, List.map_append, List.map_cons]
  · intro other hother tags
    obtain ⟨entry, hin, rfl⟩ := List.mem_map.mp hother
    obtain ⟨f, hf⟩ := hbefore entry hin
    exact not_refuses_of_fieldDefinition_strictly hfields htagged (hmem entry hin) hf tags
  · dsimp only at hfails
    rw [fieldDefinition_strictly_of_refuses hfields htagged hentry hrefuses] at hfails
    exact (Except.error.inj hfails).symm

omit hfields htagged in
theorem plans_strictly (strategy : NamingStrategy) (parent : String) (depth : Nat) (path : List String)
    (fields : FieldMap) (names : NameRegistry) :
    s.strictly.plans r strategy parent depth path fields names =
      s.plans r strategy parent depth path fields names := by
  induction fields generalizing parent depth path names with
  | empty => rfl
  | field name stats nested rest ihnested ihrest =>
    have hpromotion : s.strictly.promotion? r name stats nested (depth + 1) =
        s.promotion? r name stats nested (depth + 1) := rfl
    have hdepth : s.strictly.maxDepth = s.maxDepth := rfl
    unfold plans
    simp only [hpromotion, hdepth, ihnested, ihrest]

omit hfields htagged in
theorem promotions_strictly (fields : FieldMap) (rootName : String) :
    promotions r s.strictly fields rootName = promotions r s fields rootName :=
  congrArg Prod.fst (plans_strictly _ _ _ _ _ _)

/-- The paths of the types of a build in the order in which their fields get their types. -/
def typedPaths (r : Rounding) (s : Settings) (fields : FieldMap) (rootName : String) : List (List String) :=
  (promotions r s fields rootName).map (·.path) ++ [[]]

variable {rootName : String} {documents : Int}

theorem build_strictly_of_agreed (hagreed : ∀ path ∈ typedPaths r s fields rootName, s.Agreed fields path) :
    s.strictly.build r fields rootName documents = s.build r fields rootName documents := by
  rw [typedPaths, List.forall_mem_append] at hagreed
  obtain ⟨hnested, hroot⟩ := hagreed
  have hplans : ∀ promoted, (promotions r s fields rootName).mapM (s.strictly.definePlan r promoted) =
      (promotions r s fields rootName).mapM (s.definePlan r promoted) := by
    refine fun promoted => mapM_congr fun plan hplan => ?_
    unfold definePlan
    rw [promotions_fields_eq hfields hplan,
      fieldDefinitions_strictly_of_agreed hfields htagged (hnested _ (List.mem_map_of_mem hplan))]
  have htop : ∀ promoted, s.strictly.fieldDefinitions r fields [] documents promoted =
      s.fieldDefinitions r fields [] documents promoted := by
    intro promoted
    change s.strictly.fieldDefinitions r (fields.descend []) [] documents promoted =
      s.fieldDefinitions r (fields.descend []) [] documents promoted
    exact fieldDefinitions_strictly_of_agreed hfields htagged (hroot [] List.mem_cons_self)
  rw [build_eq, build_eq, promotions_strictly, hplans, htop]

theorem agreed_of_definePlan_strictly {plan : NestedPlan} (hplan : plan ∈ promotions r s fields rootName)
    {t : TypeDefinition} (h : s.strictly.definePlan r promoted plan = .ok t) : s.Agreed fields plan.path := by
  obtain ⟨definitions, hdefs, -⟩ := map_eq_ok.mp h
  rw [promotions_fields_eq hfields hplan] at hdefs
  exact agreed_of_fieldDefinitions_strictly hfields htagged hdefs

theorem agreed_of_build_strictly {d : TypeDefinitions}
    (h : s.strictly.build r fields rootName documents = .ok d) :
    ∀ path ∈ typedPaths r s fields rootName, s.Agreed fields path := by
  rw [build_eq, promotions_strictly] at h
  cases hnested : (promotions r s fields rootName).mapM
      (s.strictly.definePlan r (promotedNames (promotions r s fields rootName))) with
  | error e =>
    rw [hnested] at h
    cases h
  | ok nested =>
    rw [hnested] at h
    obtain ⟨definitions, hroot, -⟩ := map_eq_ok.mp h
    obtain ⟨_, -, hall⟩ := mapM_eq_ok hnested
    rw [typedPaths, List.forall_mem_append]
    refine ⟨fun path hpath => ?_, fun path hpath => ?_⟩
    · obtain ⟨plan, hplan, rfl⟩ := List.mem_map.mp hpath
      exact agreed_of_definePlan_strictly hfields htagged hplan (hall plan hplan)
    · rw [List.mem_singleton.mp hpath]
      change s.strictly.fieldDefinitions r (fields.descend []) [] documents _ = _ at hroot
      exact agreed_of_fieldDefinitions_strictly hfields htagged hroot

theorem firstRefusal_of_build_strictly (hpolicy : s.conflicts ≠ .error) {e : Failure}
    (h : s.strictly.build r fields rootName documents = .error e) :
    ∃ before path after, typedPaths r s fields rootName = before ++ path :: after ∧
      (∀ p ∈ before, s.Agreed fields p) ∧ s.FirstRefusal fields path e := by
  rw [build_eq, promotions_strictly] at h
  cases hnested : (promotions r s fields rootName).mapM
      (s.strictly.definePlan r (promotedNames (promotions r s fields rootName))) with
  | error e' =>
    rw [hnested] at h
    cases h
    obtain ⟨before, plan, after, hsplit, hbefore, hfails⟩ := mapM_eq_error hnested
    have hmem : ∀ p ∈ before ++ [plan], p ∈ promotions r s fields rootName := fun p hp => by
      rw [hsplit]
      simp only [List.mem_append, List.mem_cons, List.not_mem_nil, or_false] at hp ⊢
      tauto
    refine ⟨before.map (·.path), plan.path, after.map (·.path) ++ [[]], by simp [typedPaths, hsplit], ?_, ?_⟩
    · intro path hpath
      obtain ⟨p, hp, rfl⟩ := List.mem_map.mp hpath
      obtain ⟨t, ht⟩ := hbefore p hp
      exact agreed_of_definePlan_strictly hfields htagged (hmem p (List.mem_append_left _ hp)) ht
    · have hplan := hmem plan (by simp)
      unfold definePlan at hfails
      rw [promotions_fields_eq hfields hplan] at hfails
      cases hdefs : s.strictly.fieldDefinitions r (fields.descend plan.path) plan.path plan.frequency
          (promotedNames (promotions r s fields rootName)) with
      | error e =>
        rw [hdefs] at hfails
        cases hfails
        exact firstRefusal_of_fieldDefinitions_strictly hfields htagged hpolicy hdefs
      | ok definitions =>
        rw [hdefs] at hfails
        cases hfails
  | ok nested =>
    rw [hnested] at h
    obtain ⟨_, -, hall⟩ := mapM_eq_ok hnested
    refine ⟨(promotions r s fields rootName).map (·.path), [], [], rfl, ?_, ?_⟩
    · intro path hpath
      obtain ⟨plan, hplan, rfl⟩ := List.mem_map.mp hpath
      exact agreed_of_definePlan_strictly hfields htagged hplan (hall plan hplan)
    · cases hroot : s.strictly.fieldDefinitions r fields [] documents
          (promotedNames (promotions r s fields rootName)) with
      | error e' =>
        rw [Except.bind, hroot] at h
        cases h
        change s.strictly.fieldDefinitions r (fields.descend []) [] documents _ = _ at hroot
        exact firstRefusal_of_fieldDefinitions_strictly hfields htagged hpolicy hroot
      | ok definitions =>
        rw [Except.bind, hroot] at h
        cases h

end Fields

variable {fields : FieldMap} {rootName : String} {documents : Int} {d : TypeDefinitions}

structure RefusedIn (r : Rounding) (s : Settings) (fields : FieldMap) (rootName : String)
    (d : TypeDefinitions) (t : TypeDefinition) (f : FieldDefinition) (path : List String) (tags : TagSet) :
    Prop where
  emitted : EmittedAt r s fields rootName d path t
  mem_fields : f ∈ t.fields
  refuses : s.Refuses fields path f.name tags

theorem EmittedAt.mem_typedPaths {path : List String} {t : TypeDefinition}
    (ht : EmittedAt r s fields rootName d path t) : path ∈ typedPaths r s fields rootName := by
  cases ht with
  | root => exact List.mem_append_right _ List.mem_cons_self
  | nested hplan => exact List.mem_append_left _ (List.mem_map_of_mem (List.of_mem_zip hplan).1)

section Emitted

variable (h : s.build r fields rootName documents = .ok d)

include h

theorem EmittedAt.path_unique {path other : List String} {t : TypeDefinition}
    (ht : EmittedAt r s fields rootName d path t) (hother : EmittedAt r s fields rootName d other t) :
    path = other := by
  obtain ⟨-, hroot, -⟩ := build_eq_ok h
  have hapart : ∀ {plan : NestedPlan}, (plan, d.root) ∉ (promotions r s fields rootName).zip d.nested := by
    intro plan hplan
    obtain ⟨-, -, heq⟩ := mem_zip_nested h hplan
    exact absurd (congrArg TypeDefinition.isNested (hroot.symm.trans heq)) Bool.false_ne_true
  cases ht with
  | root =>
    cases hother with
    | root => rfl
    | nested hplan => exact absurd hplan hapart
  | nested hplan =>
    cases hother with
    | root => exact absurd hplan hapart
    | nested hsecond =>
      obtain ⟨hmem, -, heq⟩ := mem_zip_nested h hplan
      obtain ⟨hmem', -, heq'⟩ := mem_zip_nested h hsecond
      have hname := congrArg TypeDefinition.name (heq.symm.trans heq')
      rw [promotions_eq_of_name hmem hmem' hname]

theorem exists_places : ∃ places : List (List String × TypeDefinition),
    places.map (·.1) = typedPaths r s fields rootName ∧ places.map (·.2) = d.nested ++ [d.root] ∧
      ∀ place ∈ places, EmittedAt r s fields rootName d place.1 place.2 := by
  obtain ⟨-, -, define, hnested, -⟩ := build_eq_ok h
  refine ⟨(promotions r s fields rootName).map (fun plan => (plan.path, define plan)) ++ [([], d.root)],
    ?_, ?_, ?_⟩
  · simp [typedPaths, Function.comp_def]
  · simp [hnested, Function.comp_def]
  · intro place hplace
    rw [List.mem_append, List.mem_map, List.mem_singleton] at hplace
    obtain ⟨plan, hplan, rfl⟩ | rfl := hplace
    · refine .nested ?_
      rw [hnested, ← List.map_prod_left_eq_zip]
      exact List.mem_map.mpr ⟨plan, hplan, rfl⟩
    · exact .root

theorem exists_firstRefusedIn (hfields : fields.Distinct) {before after : List (List String)}
    {path : List String} (hsplit : typedPaths r s fields rootName = before ++ path :: after)
    (hbefore : ∀ p ∈ before, s.Agreed fields p) {e : Failure} (hfirst : s.FirstRefusal fields path e) :
    ∃ earlier t later fieldsBefore f fieldsAfter tags,
      d.nested ++ [d.root] = earlier ++ t :: later ∧ t.fields = fieldsBefore ++ f :: fieldsAfter ∧
      RefusedIn r s fields rootName d t f path tags ∧
      (∀ u ∈ earlier, ∀ g p tags, ¬ RefusedIn r s fields rootName d u g p tags) ∧
      (∀ g ∈ fieldsBefore, ∀ p tags, ¬ RefusedIn r s fields rootName d t g p tags) ∧
      e = .typeConflict (tags.map Tag.name) (some (".".intercalate (path ++ [f.name]))) := by
  obtain ⟨places, hpaths, htypes, hemitted⟩ := exists_places h
  rw [hsplit, List.map_eq_append_iff] at hpaths
  obtain ⟨first, rest, rfl, rfl, hrest⟩ := hpaths
  obtain ⟨place, last, rfl, rfl, -⟩ := List.map_eq_cons_iff.mp hrest
  have ht := hemitted place (by simp)
  obtain ⟨scope, hdefs⟩ := ht.fieldDefinitions h hfields
  have hnames := (fieldDefinitions_eq_ok (hfields.descend _) hdefs).1
  obtain ⟨namesBefore, name, namesAfter, tags, hnamed, hagreed, hrefuses, he⟩ := hfirst
  rw [hnamed, List.map_eq_append_iff] at hnames
  obtain ⟨fieldsBefore, others, hfieldsSplit, rfl, hothers⟩ := hnames
  obtain ⟨f, fieldsAfter, rfl, rfl, -⟩ := List.map_eq_cons_iff.mp hothers
  refine ⟨first.map (·.2), place.2, last.map (·.2), fieldsBefore, f, fieldsAfter, tags, ?_, hfieldsSplit,
    ⟨ht, by simp [hfieldsSplit], hrefuses⟩, ?_, ?_, he⟩
  · rw [← htypes, List.map_append, List.map_cons]
  · intro u hu g p tags hrefused
    obtain ⟨other, hother, rfl⟩ := List.mem_map.mp hu
    have hat := hemitted other (List.mem_append_left _ hother)
    obtain rfl := hrefused.emitted.path_unique h hat
    exact hbefore _ (List.mem_map_of_mem hother) _ _ hrefused.refuses
  · intro g hg p tags hrefused
    obtain rfl := hrefused.emitted.path_unique h ht
    exact hagreed _ (List.mem_map_of_mem hg) _ hrefused.refuses

end Emitted

end Settings

structure Failure.NamesConflict (e : Failure) (tags : TagSet) (field : String) : Prop where
  kind : e.kind = .typeConflict
  exists_names : ∃ names : List String, names.Perm (tags.map Tag.name) ∧ names.Pairwise String.le ∧
    e.message = "Type conflict detected: " ++ " | ".intercalate names ∧
    e.details = [("conflicting_types", .list (names.map .text)), ("field_name", .text field),
      ("type_count", .whole tags.length)]

theorem Failure.typeConflict_names (tags : TagSet) (field : String) :
    (typeConflict (tags.map Tag.name) (some field)).NamesConflict tags field := by
  refine ⟨rfl, sortTexts (tags.map Tag.name), sortTexts_perm _, sortTexts_pairwise _, ?_, ?_⟩
  · simp [typeConflict, make, sortTexts]
  · simp [typeConflict, make, sortTexts, Value.ofText?]

/-- What the strict policy makes of a build: it fails with the first field that it refuses, the nested
types coming in their order and then the root, and is the same build if it refuses none. -/
structure Settings.BuildsStrictly (r : Rounding) (s : Settings) (fields : FieldMap) (rootName : String)
    (documents : Int) (d : TypeDefinitions) : Prop where
  fails_iff : (∃ e, s.strictly.build r fields rootName documents = .error e) ↔
    ∃ t f path tags, s.RefusedIn r fields rootName d t f path tags
  failure : ∀ e, s.strictly.build r fields rootName documents = .error e →
    ∃ earlier t later fieldsBefore f fieldsAfter path tags,
      d.nested ++ [d.root] = earlier ++ t :: later ∧ t.fields = fieldsBefore ++ f :: fieldsAfter ∧
      s.RefusedIn r fields rootName d t f path tags ∧
      (∀ u ∈ earlier, ∀ g p tags, ¬ s.RefusedIn r fields rootName d u g p tags) ∧
      (∀ g ∈ fieldsBefore, ∀ p tags, ¬ s.RefusedIn r fields rootName d t g p tags) ∧
      e.NamesConflict tags (".".intercalate (path ++ [f.name]))
  same : ∀ strict, s.strictly.build r fields rootName documents = .ok strict → strict = d

/-- The strict policy agrees with any other, whatever the documents: it fails exactly for what the other
build emits. -/
theorem Settings.build_strictly (r : Rounding) (s : Settings) (hpolicy : s.conflicts ≠ .error) (g : Graph)
    (documents : List Item) (rootName : String) (count : Int) :
    ∃ d, s.build r (Analysis.ofDocuments g documents).fields rootName count = .ok d ∧
      s.BuildsStrictly r (Analysis.ofDocuments g documents).fields rootName count d := by
  have hfields := Analysis.fields_distinct g documents
  have htagged : ∀ {path : List String} {name : String} {stats : FieldStats},
      ((Analysis.ofDocuments g documents).fields.descend path).stats? name = some stats →
        (stats.isArray = true ↔ .array ∈ stats.tags) := Analysis.isArray_iff
  obtain ⟨d, hd⟩ := exists_build hpolicy r (Analysis.ofDocuments g documents).fields rootName count
  refine ⟨d, hd, ⟨⟨?_, ?_⟩, ?_, ?_⟩⟩
  · rintro ⟨e, he⟩
    obtain ⟨before, path, after, hsplit, hbefore, hrefusal⟩ :=
      firstRefusal_of_build_strictly hfields htagged hpolicy he
    obtain ⟨-, t, -, -, f, -, tags, -, -, hrefused, -⟩ :=
      exists_firstRefusedIn hd hfields hsplit hbefore hrefusal
    exact ⟨t, f, path, tags, hrefused⟩
  · rintro ⟨t, f, path, tags, hrefused⟩
    cases hstrict : s.strictly.build r (Analysis.ofDocuments g documents).fields rootName count with
    | error e => exact ⟨e, rfl⟩
    | ok strict =>
      have hagreed := agreed_of_build_strictly hfields htagged hstrict
      exact absurd hrefused.refuses (hagreed path hrefused.emitted.mem_typedPaths _ _)
  · intro e he
    obtain ⟨before, path, after, hpaths, hagreed, hrefusal⟩ :=
      firstRefusal_of_build_strictly hfields htagged hpolicy he
    obtain ⟨earlier, t, later, fieldsBefore, f, fieldsAfter, tags, htypes, hsplit, hrefused, hearlier,
      hbefore, rfl⟩ := exists_firstRefusedIn hd hfields hpaths hagreed hrefusal
    exact ⟨earlier, t, later, fieldsBefore, f, fieldsAfter, path, tags, htypes, hsplit, hrefused, hearlier,
      hbefore, Failure.typeConflict_names _ _⟩
  · intro strict hstrict
    have hagreed := agreed_of_build_strictly hfields htagged hstrict
    rw [build_strictly_of_agreed hfields htagged hagreed] at hstrict
    exact Except.ok.inj (hstrict.symm.trans hd)

theorem Settings.build_strictly_mixedLines :
    let fields := (Analysis.ofDocuments .mixedLines [.node 3, .node 5]).fields
    Settings.standard.conflicts ≠ .error ∧
      (∃ d, Settings.standard.build .exact fields "Order" 2 = .ok d ∧
        Settings.standard.BuildsStrictly .exact fields "Order" 2 d) ∧
      ∃ e, Settings.standard.strictly.build .exact fields "Order" 2 = .error e ∧
        (e.details.lookup "field_name").map Value.display = some "lines" := by
  intro fields
  have hpolicy : Settings.standard.conflicts ≠ .error := by decide
  refine ⟨hpolicy, build_strictly .exact .standard hpolicy .mixedLines [.node 3, .node 5] "Order" 2, ?_⟩
  have hrefused : (match Settings.standard.strictly.build .exact fields "Order" 2 with
      | .error e => (e.details.lookup "field_name").map Value.display
      | .ok _ => none) = some "lines" := by
    decide +kernel
  split at hrefused
  · rename_i e he
    exact ⟨e, he, hrefused⟩
  · cases hrefused

end SchemaInference
