import SchemaInference.Proofs.Document.Trees
import SchemaInference.Proofs.Schema.Tightness

set_option autoImplicit false

namespace SchemaInference

structure OnlyNumbers (items : List Item) : Prop where
  nonempty : ∃ v ∈ items, v ≠ .scalar .null
  numbers : ∀ v ∈ items, v ≠ .scalar .null → ∃ n, v = .scalar (.number n)

/-- Of the numbers some are not NaN, and those are all whole and of thirty-two bits. -/
structure WholeButNan (g : Graph) (items : List Item) : Prop where
  nonempty : ∃ v ∈ items, v ≠ .scalar .null ∧ v ≠ .scalar (.number (.real .nan))
  whole : ∀ v ∈ items, v ≠ .scalar .null → v ≠ .scalar (.number (.real .nan)) → ScalarType.int.Admits g v

/-- Where the values under the key of a field, or the elements of the arrays there, are numbers only, the type
of the field tells which. -/
structure FieldDefinition.TellsNumbers (s : Settings) (g : Graph) (values : List Item)
    (f : FieldDefinition) : Prop where
  scalar : s.isId f.name = false → OnlyNumbers values →
    (f.base = .scalar .int ↔ WholeButNan g values) ∧ (f.base = .scalar .float ↔ ¬ WholeButNan g values)
  list : s.isId f.name = false → (∀ v ∈ values, v ≠ .scalar .null → g.tag v = .array) →
    OnlyNumbers (values.flatMap g.elements) →
      (f.base = .scalarList .int ↔ WholeButNan g (values.flatMap g.elements)) ∧
      (f.base = .scalarList .float ↔ ¬ WholeButNan g (values.flatMap g.elements))

theorem OnlyNumbers.tags_eq {g : Graph} {items : List Item} (h : OnlyNumbers items) {tags : TagSet}
    (hnodup : tags.Nodup) (htags : ∀ tag, tag ∈ tags ↔ (∃ v ∈ items, g.tag v = tag) ∧ tag ≠ .null) :
    tags = [.number] := by
  have hall : ∀ tag ∈ tags, tag = .number := by
    intro tag htag
    obtain ⟨⟨v, hv, rfl⟩, hnull⟩ := (htags tag).mp htag
    exact Graph.tag_eq_number_iff.mpr (h.numbers v hv fun hv => hnull (Graph.tag_eq_null_iff.mpr hv))
  obtain ⟨v, hv, hnull⟩ := h.nonempty
  have hnumber : Tag.number ∈ tags :=
    (htags _).mpr ⟨⟨v, hv, Graph.tag_eq_number_iff.mpr (h.numbers v hv hnull)⟩, by simp⟩
  exact TagSet.eq_singleton_of_mem (TagSet.length_le_one hnodup hall) hnumber

namespace Settings

variable {r : Rounding} {s : Settings} {g : Graph}

theorem numberType_eq_int_iff (hstrict : s.numbers = .strict) (samples : List Number) :
    s.numberType samples = .int ↔ samples ≠ [] ∧ ∀ n ∈ samples, n.isInt = true := by
  unfold numberType
  rw [hstrict]
  split
  · rename_i hnone
    simp_all
  · split <;> simp_all

theorem numberType_eq_float_iff (samples : List Number) :
    s.numberType samples = .float ↔ ¬ s.numberType samples = .int := by
  unfold numberType
  split
  · simp
  · split <;> simp

theorem numberType_samples (hstrict : s.numbers = .strict) {items : List Item} (h : OnlyNumbers items) :
    s.numberType (items.filterMap Item.number?) = .int ↔ WholeButNan g items := by
  rw [numberType_eq_int_iff hstrict]
  refine ⟨fun ⟨hsome, hall⟩ => ⟨?_, fun v hv hnull hnan => ?_⟩, fun hwhole => ⟨?_, fun n hn => ?_⟩⟩
  · obtain ⟨n, hn⟩ := List.exists_mem_of_ne_nil _ hsome
    obtain ⟨hv, hnan⟩ := Item.mem_filterMap_number?.mp hn
    exact ⟨_, hv, by simp, by simpa using hnan⟩
  · obtain ⟨n, rfl⟩ := h.numbers v hv hnull
    have hsample := Item.mem_filterMap_number?.mpr ⟨hv, by simpa using hnan⟩
    obtain ⟨i, hi, hbounds⟩ := Number.isInt_iff.mp (hall n hsample)
    exact ⟨n, i, rfl, hi, hbounds⟩
  · obtain ⟨v, hv, hnull, hnan⟩ := hwhole.nonempty
    obtain ⟨n, rfl⟩ := h.numbers v hv hnull
    exact List.ne_nil_of_mem (Item.mem_filterMap_number?.mpr ⟨hv, by simpa using hnan⟩)
  · obtain ⟨hv, hnan⟩ := Item.mem_filterMap_number?.mp hn
    obtain ⟨m, i, hm, hi⟩ := hwhole.whole _ hv (by simp) (by simpa using hnan)
    obtain rfl : n = m := by simpa using hm
    exact Number.isInt_iff.mpr ⟨i, hi⟩

theorem tells_numberType (hstrict : s.numbers = .strict) {items : List Item} (h : OnlyNumbers items)
    {wrap : ScalarType → FieldType} (hwrap : ∀ type other, wrap type = wrap other → type = other) {base : FieldType}
    (hbase : base = wrap (s.numberType (items.filterMap Item.number?))) :
    (base = wrap .int ↔ WholeButNan g items) ∧ (base = wrap .float ↔ ¬ WholeButNan g items) := by
  rw [← numberType_samples hstrict h, ← numberType_eq_float_iff, hbase]
  exact ⟨⟨hwrap _ _, congrArg wrap⟩, ⟨hwrap _ _, congrArg wrap⟩⟩

variable {values : List Item} {promotedName : Option String} {base : FieldType}

theorem Typed.eq_numberType (h : Typed s (.summary g values) promotedName base) (hnumbers : OnlyNumbers values) :
    base = .scalar (s.numberType (values.filterMap Item.number?)) := by
  have htags : (FieldStats.summary g values).nonNullTags = [.number] :=
    hnumbers.tags_eq (FieldStats.nodup_nonNullTags_summary values) fun _ => FieldStats.mem_nonNullTags_summary
  cases h with
  | conflict hseveral => simp [htags] at hseveral
  | objects _ harray | elements _ harray =>
    have hmem := FieldStats.array_mem_nonNullTags harray
    simp [htags] at hmem
  | object _ _ hobject | fallback _ _ hobject => simp [htags] at hobject
  | primitive =>
    rw [htags]
    rfl

theorem Typed.eq_elementType (h : Typed s (.summary g values) promotedName base)
    (harrays : ∀ v ∈ values, v ≠ .scalar .null → g.tag v = .array)
    (hnumbers : OnlyNumbers (values.flatMap g.elements)) :
    base = .scalarList (s.numberType ((values.flatMap g.elements).filterMap Item.number?)) := by
  have helements : (FieldStats.summary g values).nonNullElementTags = [.number] :=
    hnumbers.tags_eq (FieldStats.nodup_nonNullElementTags_summary values) fun _ =>
      FieldStats.mem_nonNullElementTags_summary
  have hagreed : ∀ tag ∈ (FieldStats.summary g values).nonNullTags, tag = .array := by
    intro tag htag
    obtain ⟨⟨v, hv, rfl⟩, hnull⟩ := FieldStats.mem_nonNullTags_summary.mp htag
    exact harrays v hv fun hv => hnull (Graph.tag_eq_null_iff.mpr hv)
  have harray : (FieldStats.summary g values).isArray = true := by
    obtain ⟨e, he, -⟩ := hnumbers.nonempty
    obtain ⟨v, hv, hve⟩ := List.mem_flatMap.mp he
    refine FieldStats.isArray_summary.mpr ⟨v, hv, ?_⟩
    by_contra hother
    rw [FieldStats.elements_eq_nil_of_tag hother] at hve
    cases hve
  cases h with
  | conflict hseveral =>
    have hle := TagSet.length_le_one (FieldStats.nodup_nonNullTags_summary values) hagreed
    omega
  | objects _ _ _ hobjects => simp [helements] at hobjects
  | elements _ _ _ htype =>
    cases htype with
    | untagged hnone => simp [helements, TagSet.nonNull] at hnone
    | single hsingle =>
      rw [FieldStats.nonNullElementTags, TagSet.nonNull_nonNull, ← FieldStats.nonNullElementTags, helements] at hsingle
      obtain rfl := List.singleton_inj.mp hsingle
      rfl
    | conflict hseveral => simp [helements, TagSet.nonNull] at hseveral
  | object _ hplain | fallback _ hplain | primitive _ hplain => exact absurd harray hplain

theorem Describes.tellsNumbers {promoted : Option String} {container : Option FieldStats} {scope : Int}
    {f : FieldDefinition} (h : Describes r s promoted container scope g values f) (hstrict : s.numbers = .strict) :
    f.TellsNumbers s g values where
  scalar hid hnumbers :=
    tells_numberType hstrict hnumbers (fun _ _ => FieldType.scalar.inj) ((h.typed hid).eq_numberType hnumbers)
  list hid harrays hnumbers :=
    tells_numberType hstrict hnumbers (fun _ _ => FieldType.scalarList.inj)
      ((h.typed hid).eq_elementType harrays hnumbers)

end Settings

/-- A field that is no identifier and holds numbers only, or arrays of numbers only, tells whether they are whole,
wherever it is emitted. -/
theorem InferredSchema.infer_tellsNumbers (r : Rounding) (s : Settings) (g : Graph) (documents : List Item)
    (typeName : String) (schema : InferredSchema)
    (hdocs : ∀ doc ∈ documents, g.isMapping doc → g.Acyclic doc ∧ g.StringKeyed doc)
    (hstrict : s.numbers = .strict) (hinfer : infer r s g documents typeName = .ok schema) :
    ∀ t ∈ schema.types, ∃ path,
      Settings.EmittedAt r s (Analysis.ofDocuments g documents).fields typeName
        ⟨schema.rootType, schema.nestedTypes⟩ path t ∧
      ∀ f ∈ t.fields, f.TellsNumbers s g (g.valuesAt (documents.filter g.isMapping) path f.name) := by
  obtain ⟨-, hbuild⟩ := infer_eq_ok hinfer
  have hacyclic : ∀ doc ∈ documents, g.isMapping doc → g.Acyclic doc :=
    fun doc hdoc hm => (hdocs doc hdoc hm).1
  intro t ht
  obtain ⟨path, hat⟩ := Settings.exists_emittedAt hbuild ht
  refine ⟨path, hat, fun f hf => ?_⟩
  obtain ⟨scope, hdescribes⟩ := hat.exists_describes hacyclic hbuild hf
  exact hdescribes.tellsNumbers hstrict

def measured : List Value :=
  [.record [("count", .whole 3), ("share", .real (.finite (1 / 2))), ("marks", .list [.whole 1, .real .nan])],
    .record [("count", .real .nan), ("share", .whole 1), ("marks", .null)]]

theorem InferredSchema.infer_tellsNumbers_measured :
    let (g, documents) := Graph.ofValues measured
    ∃ schema, infer .exact .standard g documents "Sample" = .ok schema ∧
      schema.types.map (fun t => t.fields) =
        [[⟨"count", .scalar .int, true⟩, ⟨"share", .scalar .float, true⟩, ⟨"marks", .scalarList .int, false⟩]] ∧
      ∀ t ∈ schema.types, ∃ path, ∀ f ∈ t.fields,
        f.TellsNumbers .standard g (g.valuesAt (documents.filter g.isMapping) path f.name) := by
  have hkeys : (Graph.ofValues measured).1.TextKeyed := by decide +kernel
  have hview : ((infer .exact .standard (Graph.ofValues measured).1 (Graph.ofValues measured).2
      "Sample").toOption.map fun schema => schema.types.map fun t => t.fields) =
        some [[⟨"count", .scalar .int, true⟩, ⟨"share", .scalar .float, true⟩,
          ⟨"marks", .scalarList .int, false⟩]] := by
    decide +kernel
  obtain ⟨schema, hinfer, hshown⟩ := exists_ok_of_toOption hview
  have hall := infer_tellsNumbers .exact .standard (Graph.ofValues measured).1 (Graph.ofValues measured).2 "Sample"
    schema (fun doc hdoc _ => ⟨Graph.ofValues_acyclic measured hdoc, hkeys.stringKeyed doc⟩) rfl hinfer
  refine ⟨schema, hinfer, hshown, fun t ht => ?_⟩
  obtain ⟨path, -, hfields⟩ := hall t ht
  exact ⟨path, hfields⟩

def halfCounted : List Value :=
  [.record [("count", .whole 3)], .record [("count", .real .nan)]]

/-- The numbers under the key are not all whole, and yet the field is an `Int`. -/
theorem InferredSchema.infer_int_halfCounted :
    let (g, documents) := Graph.ofValues halfCounted
    (∀ doc ∈ documents, g.Acyclic doc ∧ g.StringKeyed doc) ∧ Settings.standard.numbers = .strict ∧
      Settings.standard.isId "count" = false ∧
      (∃ schema, infer .exact .standard g documents "Sample" = .ok schema ∧
        schema.rootType.fields = [⟨"count", .scalar .int, true⟩]) ∧
      g.valuesAt documents [] "count" = [.scalar (.number (.whole 3)), .scalar (.number (.real .nan))] ∧
      ¬ ScalarType.int.Admits g (.scalar (.number (.real .nan))) := by
  have hkeys : (Graph.ofValues halfCounted).1.TextKeyed := by decide +kernel
  have hview : ((infer .exact .standard (Graph.ofValues halfCounted).1 (Graph.ofValues halfCounted).2
      "Sample").toOption.map fun schema => schema.rootType.fields) = some [⟨"count", .scalar .int, true⟩] := by
    decide +kernel
  refine ⟨fun doc hdoc => ⟨Graph.ofValues_acyclic halfCounted hdoc, hkeys.stringKeyed doc⟩, rfl, by decide +kernel,
    exists_ok_of_toOption hview, by decide +kernel, ?_⟩
  rintro ⟨n, i, hn, hi, -⟩
  obtain rfl : Number.real .nan = n := by simpa using hn
  cases hi

end SchemaInference
