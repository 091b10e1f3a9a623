import SchemaInference.Proofs.Schema.Conformance

set_option autoImplicit false

namespace SchemaInference

def Settings.Offers (s : Settings) : ScalarType → Prop
  | .int => s.numbers = .strict
  | .json => s.fallback = .json
  | .string | .float | .boolean | .id => True

/-- The scalar type is the least on offer that admits the values other than null, if there are any. -/
def ScalarType.Least (s : Settings) (g : Graph) (values : List Item) (type : ScalarType) : Prop :=
  (∃ v ∈ values, v ≠ .scalar .null) → ∀ other, s.Offers other →
    (∀ v ∈ values, v ≠ .scalar .null → other.Admits g v) → ∀ item, type.Admits g item → other.Admits g item

/-- The definition of a field that is no identifier says no less than the values under its key allow. -/
structure FieldDefinition.Tight (s : Settings) (g : Graph) (values : List Item)
    (f : FieldDefinition) : Prop where
  held : values ≠ []
  scalar : s.isId f.name = false → ∀ type, f.base = .scalar type → type.Least s g values
  scalarList : s.isId f.name = false → ∀ type, f.base = .scalarList type →
    type.Least s g (values.flatMap g.elements)
  list : s.isId f.name = false → (∃ v ∈ values, v ≠ .scalar .null) →
    (∀ v ∈ values, v ≠ .scalar .null → g.tag v = .array) → f.isArray = true
  witnessed : s.isId f.name = false → f.base ≠ .scalar .string → ∃ v ∈ values, v ≠ .scalar .null

namespace Settings

variable {r : Rounding} {s : Settings} {g : Graph} {documents : List Item} {rootName : String} {count : Int}
  {d : TypeDefinitions}

theorem exists_tag_of_admits (other : ScalarType) :
    (∀ item, other.Admits g item) ∨ ∃ tag, tag ≠ .null ∧ ∀ v, other.Admits g v → g.tag v = tag := by
  cases other with
  | string => exact .inl fun _ => trivial
  | id => exact .inl fun _ => trivial
  | int => exact .inr ⟨.number, by simp, fun v ⟨n, _, hn, _⟩ => Graph.tag_eq_number_iff.mpr ⟨n, hn⟩⟩
  | float => exact .inr ⟨.number, by simp, fun v hv => Graph.tag_eq_number_iff.mpr hv⟩
  | boolean => exact .inr ⟨.boolean, by simp, fun v hv => Graph.tag_eq_boolean_iff.mpr hv⟩
  | json => exact .inr ⟨.object, by simp, fun v hv => Graph.tag_eq_object_iff.mpr hv⟩

theorem scalarOf_least {values : List Item} {tag : Tag}
    (htag : ∀ v ∈ values, v ≠ .scalar .null → g.tag v = tag) :
    (s.scalarOf tag (values.filterMap Item.number?)).Least s g values := by
  rintro ⟨v, hv, hvnull⟩ other hoffers hadmits item hitem
  have hvtag := htag v hv hvnull
  have hother := hadmits v hv hvnull
  -- What admits one of the values tells their common tag, and so what the chosen type is.
  cases other with
  | string => trivial
  | id => trivial
  | boolean =>
    have hboolean := Graph.tag_eq_boolean_iff (g := g) |>.mpr hother
    rw [hvtag] at hboolean
    rw [hboolean] at hitem
    exact hitem
  | float =>
    have hnumber := Graph.tag_eq_number_iff (g := g) |>.mpr hother
    rw [hvtag] at hnumber
    rw [hnumber] at hitem
    simp only [scalarOf, numberType] at hitem
    split at hitem
    · exact hitem
    · split at hitem
      · obtain ⟨n, _, hn, _⟩ := hitem
        exact ⟨n, hn⟩
      · exact hitem
  | int =>
    obtain ⟨n, i, hn, hi, -⟩ := hother
    have hnumber := Graph.tag_eq_number_iff (g := g) |>.mpr ⟨n, hn⟩
    rw [hvtag] at hnumber
    have hall : ∀ m ∈ values.filterMap Item.number?, m.isInt = true := by
      intro m hm
      obtain ⟨hw, -⟩ := Item.mem_filterMap_number?.mp hm
      obtain ⟨k, j, hk, hj⟩ := hadmits _ hw (by simp)
      obtain rfl : m = k := by simpa using hk
      exact Number.isInt_iff.mpr ⟨j, hj⟩
    have hsome : n ∈ values.filterMap Item.number? := by
      refine Item.mem_filterMap_number?.mpr ⟨hn ▸ hv, ?_⟩
      rintro rfl
      cases hi
    have hint : s.scalarOf tag (values.filterMap Item.number?) = .int := by
      have hstrict : s.numbers = .strict := hoffers
      rw [hnumber]
      simp only [scalarOf, numberType, hstrict, reduceCtorEq, false_or, List.isEmpty_iff,
        List.ne_nil_of_mem hsome, ↓reduceIte, List.all_eq_true.mpr hall]
    rwa [hint] at hitem
  | json =>
    have hobject := Graph.tag_eq_object_iff (g := g) |>.mpr hother
    have hjson : s.fallback = .json := hoffers
    rw [hvtag] at hobject
    rw [hobject] at hitem
    simpa only [scalarOf, hjson, ObjectFallback.scalar] using hitem

theorem Resolved.least {values : List Item} {tags : TagSet} {type : ScalarType}
    (htags : ∀ tag, tag ∈ tags.nonNull ↔ (∃ v ∈ values, g.tag v = tag) ∧ tag ≠ .null)
    (hnodup : tags.nonNull.Nodup) (h : Resolved s tags (values.filterMap Item.number?) type) : type.Least s g values := by
  have hmem : ∀ v ∈ values, v ≠ .scalar .null → g.tag v ∈ tags.nonNull := fun v hv hnull =>
    (htags _).mpr ⟨⟨v, hv, rfl⟩, fun h => hnull (Graph.tag_eq_null_iff.mp h)⟩
  cases h with
  | untagged hnone =>
    rintro ⟨v, hv, hnull⟩
    have hv' := hmem v hv hnull
    simp [hnone] at hv'
  | @single tag hsingle =>
    refine scalarOf_least fun v hv hnull => ?_
    have hv' := hmem v hv hnull
    rwa [hsingle, List.mem_singleton] at hv'
  | conflict hseveral =>
    rintro - other - hadmits item -
    obtain hall | ⟨only, honly, htag⟩ := exists_tag_of_admits (g := g) other
    · exact hall item
    · have hsame : ∀ tag ∈ tags.nonNull, tag = only := by
        intro tag hin
        obtain ⟨⟨v, hv, rfl⟩, hnull⟩ := (htags tag).mp hin
        exact htag v (hadmits v hv fun h => hnull (Graph.tag_eq_null_iff.mpr h))
      have hle := TagSet.length_le_one hnodup hsame
      omega

theorem Typed.resolved {stats : FieldStats} {promotedName : Option String} {type : ScalarType}
    (h : Typed s stats promotedName (.scalar type)) : Resolved s stats.tags stats.numbers type := by
  cases h with
  | conflict htags hpolicy => exact .conflict htags hpolicy
  | fallback hagreed _ hobject => exact .single (TagSet.eq_singleton_of_mem hagreed hobject)
  | primitive hagreed =>
    cases htags : stats.nonNullTags with
    | nil => exact .untagged htags
    | cons tag more => exact .single (TagSet.eq_singleton_of_mem hagreed (by simp [htags]))

theorem Describes.tight {promoted : Option String} {container : Option FieldStats} {scope : Int}
    {values : List Item} {f : FieldDefinition} (h : Describes r s promoted container scope g values f) :
    f.Tight s g values := by
  have hvalues : ∀ tag, tag ∈ (FieldStats.summary g values).tags.nonNull ↔
      (∃ v ∈ values, g.tag v = tag) ∧ tag ≠ .null := fun _ => FieldStats.mem_nonNullTags_summary
  have helements : ∀ tag, tag ∈ (FieldStats.summary g values).nonNullElementTags.nonNull ↔
      (∃ e ∈ values.flatMap g.elements, g.tag e = tag) ∧ tag ≠ .null := by
    intro tag
    rw [FieldStats.nonNullElementTags, TagSet.nonNull_nonNull]
    exact FieldStats.mem_nonNullElementTags_summary
  refine ⟨h.observed, ?_, ?_, ?_, ?_⟩
  · intro hid type hbase
    have htyped := h.typed hid
    rw [hbase] at htyped
    exact htyped.resolved.least hvalues (FieldStats.nodup_nonNullTags_summary values)
  · intro hid type hbase
    have htyped := h.typed hid
    rw [hbase] at htyped
    cases htyped with
    | elements _ _ _ htype =>
      exact htype.least helements ((FieldStats.nodup_nonNullElementTags_summary values).filter _)
  · rintro hid ⟨v, hv, hnull⟩ hall
    have harray : (FieldStats.summary g values).isArray = true :=
      FieldStats.isArray_summary.mpr ⟨v, hv, hall v hv hnull⟩
    have htyped := h.typed hid
    generalize hbase : f.base = base at htyped
    rw [FieldDefinition.isArray, hbase]
    cases htyped with
    | conflict hseveral =>
      have hsame : ∀ tag ∈ (FieldStats.summary g values).nonNullTags, tag = .array := by
        intro tag htag
        obtain ⟨⟨w, hw, rfl⟩, hwnull⟩ := (hvalues tag).mp htag
        exact hall w hw fun h => hwnull (Graph.tag_eq_null_iff.mpr h)
      have hle := TagSet.length_le_one (FieldStats.nodup_nonNullTags_summary values) hsame
      omega
    | objects | elements => simp [FieldType.text]
    | object _ hplain | fallback _ hplain | primitive _ hplain => exact absurd harray hplain
  · intro hid hbase
    by_contra hno
    have hempty : (FieldStats.summary g values).nonNullTags = [] := by
      rw [List.eq_nil_iff_forall_not_mem]
      intro tag htag
      obtain ⟨⟨v, hv, rfl⟩, hnull⟩ := (hvalues tag).mp htag
      exact hno ⟨v, hv, fun h => hnull (Graph.tag_eq_null_iff.mpr h)⟩
    have htyped := h.typed hid
    generalize f.base = base at htyped hbase
    cases htyped with
    | conflict => exact hbase rfl
    | objects _ harray | elements _ harray =>
      have hmem := FieldStats.array_mem_nonNullTags harray
      simp [hempty] at hmem
    | object _ _ hobject | fallback _ _ hobject => simp [hempty] at hobject
    | primitive =>
      rw [hempty] at hbase
      exact hbase rfl

end Settings

theorem Settings.EmittedAt.objectsAt_ne_nil {r : Rounding} {s : Settings} {g : Graph} {documents : List Item}
    {rootName : String} {count : Int} {d : TypeDefinitions}
    (hdocs : ∀ doc ∈ documents, g.isMapping doc → g.Acyclic doc)
    (h : s.build r (Analysis.ofDocuments g documents).fields rootName count = .ok d) {path : List String}
    {t : TypeDefinition} (ht : EmittedAt r s (Analysis.ofDocuments g documents).fields rootName d path t)
    (hnested : t ∈ d.nested) : g.objectsAt (documents.filter g.isMapping) path ≠ [] := by
  have hfields := Analysis.fields_distinct g documents
  cases ht with
  | root =>
    have hnodup := names_all_nodup h
    rw [TypeDefinitions.all, List.map_cons, List.nodup_cons] at hnodup
    exact absurd (List.mem_map_of_mem hnested) hnodup.1
  | @nested plan t hzip =>
    obtain ⟨hplan, -⟩ := mem_zip_nested h hzip
    obtain ⟨above, key, stats, hplaced⟩ := promotions_placed hfields hplan
    have hsome := (promotes_of_promotion? hplaced.promotion).nested_ne_empty
    rw [promotions_fields_eq hfields hplan] at hsome
    obtain ⟨name, found, hfound⟩ := FieldMap.exists_stats?_of_ne_empty hsome
    rw [Analysis.stats?_descend hdocs] at hfound
    intro hempty
    rw [Graph.valuesAt, hempty, List.flatMap_nil, if_pos rfl] at hfound
    cases hfound

/-- Unless conflicts are failures, a schema is inferred from every sample, every mapping of the sample
conforms to it, and so does every object inside to the type at its path, which is tight for what is
there. -/
theorem InferredSchema.infer_conforms (r : Rounding) (s : Settings) (g : Graph) (documents : List Item)
    (typeName : String) (hne : documents ≠ [])
    (hdocs : ∀ doc ∈ documents, g.isMapping doc → g.Acyclic doc ∧ g.StringKeyed doc ∧ g.NanFree doc)
    (hpolicy : s.conflicts ≠ .error) :
    ∃ schema, infer r s g documents typeName = .ok schema ∧
      (∀ doc ∈ documents, g.isMapping doc → schema.rootType.Conforms g schema.types doc) ∧
      ∀ t ∈ schema.types, ∃ path,
        Settings.EmittedAt r s (Analysis.ofDocuments g documents).fields typeName
          ⟨schema.rootType, schema.nestedTypes⟩ path t ∧
        (t ∈ schema.nestedTypes → g.objectsAt (documents.filter g.isMapping) path ≠ []) ∧
        (∀ o ∈ g.objectsAt (documents.filter g.isMapping) path, t.Conforms g schema.types o) ∧
        ∀ f ∈ t.fields, f.Tight s g (g.valuesAt (documents.filter g.isMapping) path f.name) := by
  obtain ⟨schema, hinfer⟩ := exists_infer (r := r) (g := g) hne hpolicy
  obtain ⟨-, hbuild⟩ := infer_eq_ok hinfer
  have hacyclic : ∀ doc ∈ documents, g.isMapping doc → g.Acyclic doc :=
    fun doc hdoc hm => (hdocs doc hdoc hm).1
  have hkeys : ∀ doc ∈ documents, g.isMapping doc → g.StringKeyed doc :=
    fun doc hdoc hm => (hdocs doc hdoc hm).2.1
  have hnan : ∀ doc ∈ documents, g.isMapping doc → g.NanFree doc :=
    fun doc hdoc hm => (hdocs doc hdoc hm).2.2
  refine ⟨schema, hinfer, fun doc hdoc hmapping => ?_, fun t ht => ?_⟩
  · have hroot : doc ∈ g.objectsAt (documents.filter g.isMapping) [] := List.mem_filter.mpr ⟨hdoc, hmapping⟩
    exact Settings.EmittedAt.conforms hacyclic hbuild hkeys hnan .root hroot
  · obtain ⟨path, hat⟩ := Settings.exists_emittedAt hbuild ht
    refine ⟨path, hat, fun hnested => hat.objectsAt_ne_nil hacyclic hbuild hnested,
      fun o ho => hat.conforms hacyclic hbuild hkeys hnan ho, fun f hf => ?_⟩
    obtain ⟨scope, hdescribes⟩ := hat.exists_describes hacyclic hbuild hf
    exact hdescribes.tight

theorem InferredSchema.infer_conforms_sharedAddress :
    ∃ schema, infer .binary64 .standard .sharedAddress [.node 2] "Order" = .ok schema ∧
      schema.rootType.Conforms .sharedAddress schema.types (.node 2) := by
  have hlayered : Graph.sharedAddress.Layered := by decide
  obtain ⟨schema, hinfer, hconforms, -⟩ :=
    infer_conforms .binary64 .standard .sharedAddress [.node 2] "Order" (by simp)
      (fun doc _ hmapping => ⟨hlayered.acyclic doc, hlayered.stringKeyed doc, hlayered.nanFree hmapping⟩)
      (by decide)
  exact ⟨schema, hinfer, hconforms (.node 2) (by simp) (by decide)⟩

end SchemaInference
