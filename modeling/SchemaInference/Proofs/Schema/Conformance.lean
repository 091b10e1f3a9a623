import SchemaInference.Proofs.Schema.Observed
import Mathlib.Data.Rat.Defs

set_option autoImplicit false

namespace SchemaInference

def ScalarType.Admits (g : Graph) (type : ScalarType) (item : Item) : Prop :=
  match type with
  | .int => ∃ (n : Number) (i : Int), item = .scalar (.number n) ∧ n.widened.toRat? = some (i : Rat) ∧
      -2147483648 ≤ i ∧ i ≤ 2147483647
  | .float => ∃ n, item = .scalar (.number n)
  | .boolean => ∃ b, item = .scalar (.bool b)
  | .json => g.isMapping item
  | .string | .id => True

mutual

/-- A mapping with text keys conforms to a type when each key has exactly one field in it, and the value
under the key conforms to that field unless it is null. -/
inductive TypeDefinition.Conforms (g : Graph) (types : List TypeDefinition) : TypeDefinition → Item → Prop
  | mapping {t : TypeDefinition} {item : Item} {entries : List (String × Item)}
    (hentries : g.entries? item = some (entries.map fun e => (.text e.1, e.2)))
    (hfield : ∀ e ∈ entries, ∃ f, t.fields.filter (·.name == e.1) = [f])
    (hvalue : ∀ e ∈ entries, ∀ f, t.fields.filter (·.name == e.1) = [f] → e.2 ≠ .scalar .null →
      FieldDefinition.Conforms g types f e.2) : TypeDefinition.Conforms g types t item

/-- A value conforms to the base type of a field: to a scalar type, to the only type of the name that
the field refers to, or to a list of either. -/
inductive FieldDefinition.Conforms (g : Graph) (types : List TypeDefinition) : FieldDefinition → Item → Prop
  | scalar {f : FieldDefinition} {item : Item} {type : ScalarType} (hcustom : f.customTypeName = none)
    (htext : f.base.text = type.name) (hadmits : type.Admits g item) : FieldDefinition.Conforms g types f item
  | scalarList {f : FieldDefinition} {item : Item} {type : ScalarType} (hcustom : f.customTypeName = none)
    (htext : f.base.text = "[" ++ type.name ++ "]") (harray : g.tag item = .array)
    (hadmits : ∀ e ∈ g.elements item, e ≠ .scalar .null → type.Admits g e) :
    FieldDefinition.Conforms g types f item
  | object {f : FieldDefinition} {item : Item} {t : TypeDefinition} (hcustom : f.customTypeName = some t.name)
    (htext : f.base.text = t.name) (honly : types.filter (·.name == t.name) = [t])
    (hobject : TypeDefinition.Conforms g types t item) : FieldDefinition.Conforms g types f item
  | objectList {f : FieldDefinition} {item : Item} {t : TypeDefinition}
    (hcustom : f.customTypeName = some t.name) (htext : f.base.text = "[" ++ t.name ++ "]")
    (honly : types.filter (·.name == t.name) = [t]) (harray : g.tag item = .array)
    (hobjects : ∀ e ∈ g.elements item, e ≠ .scalar .null → TypeDefinition.Conforms g types t e) :
    FieldDefinition.Conforms g types f item

end

theorem Number.isInt_iff {n : Number} :
    n.isInt = true ↔ ∃ i : Int, n.widened.toRat? = some (i : Rat) ∧ -2147483648 ≤ i ∧ i ≤ 2147483647 := by
  cases n with
  | whole i =>
    simp only [isInt, fitsInt, decide_eq_true_eq, widened, Double.toRat?_finite, Option.some.injEq,
      Rat.intCast_inj]
    constructor
    · exact fun h => ⟨i, rfl, by omega, by omega⟩
    · rintro ⟨j, rfl, hlow, hhigh⟩
      omega
  | real x =>
    cases x with
    | nan => simp [isInt, Double.whole?, widened, Double.toRat?]
    | infinite negative => simp [isInt, Double.whole?, widened, Double.toRat?]
    | negativeZero =>
      simp only [isInt, Double.whole?, widened, Double.toRat?_negativeZero, Option.any_some, fitsInt,
        decide_eq_true_eq, Option.some.injEq]
      exact ⟨fun _ => ⟨0, rfl, by omega, by omega⟩, fun _ => by omega⟩
    | finite q =>
      simp only [isInt, Double.whole?, widened, Double.toRat?_finite, Option.some.injEq]
      by_cases hden : q.den = 1
      · rw [if_pos hden]
        simp only [Option.any_some, fitsInt, decide_eq_true_eq]
        constructor
        · exact fun h => ⟨q.num, ((Rat.den_eq_one_iff q).mp hden).symm, by omega, by omega⟩
        · rintro ⟨i, rfl, hlow, hhigh⟩
          rw [Rat.num_intCast]
          omega
      · rw [if_neg hden]
        simp only [Option.any_none, Bool.false_eq_true, false_iff]
        rintro ⟨i, rfl, -⟩
        exact hden (Rat.den_intCast i)

namespace Settings

variable {r : Rounding} {s : Settings} {g : Graph} {documents : List Item} {rootName : String} {count : Int}
  {d : TypeDefinitions}

theorem scalarOf_admits {values : List Item} {v : Item} (hv : v ∈ values)
    (hnan : v ≠ .scalar (.number (.real .nan))) {tag : Tag} (htag : g.tag v = tag) :
    (s.scalarOf tag (values.filterMap Item.number?)).Admits g v := by
  cases tag with
  | number =>
    obtain ⟨n, rfl⟩ := Graph.tag_eq_number_iff.mp htag
    have hsample : n ∈ values.filterMap Item.number? :=
      Item.mem_filterMap_number?.mpr ⟨hv, fun hn => hnan (by rw [hn])⟩
    simp only [scalarOf, numberType]
    split
    · exact ⟨n, rfl⟩
    · split
      · rename_i hall
        obtain ⟨i, hi, hlow, hhigh⟩ := Number.isInt_iff.mp (List.all_eq_true.mp hall n hsample)
        exact ⟨n, i, rfl, hi, hlow, hhigh⟩
      · exact ⟨n, rfl⟩
  | boolean => exact Graph.tag_eq_boolean_iff.mp htag
  | object =>
    cases hfallback : s.fallback with
    | json =>
      simp only [scalarOf, hfallback, ObjectFallback.scalar]
      exact Graph.tag_eq_object_iff.mp htag
    | string =>
      simp only [scalarOf, hfallback, ObjectFallback.scalar]
      trivial
  | string | null | array | named _ => trivial

theorem Resolved.admits {values : List Item} {type : ScalarType}
    (h : Resolved s (FieldStats.summary g values).nonNullElementTags
      (FieldStats.summary g values).elementNumbers type) {e : Item} (he : e ∈ values.flatMap g.elements) (hnull : e ≠ .scalar .null)
    (hnan : e ≠ .scalar (.number (.real .nan))) : type.Admits g e := by
  have htag : g.tag e ≠ .null := fun h => hnull (Graph.tag_eq_null_iff.mp h)
  have hmem : g.tag e ∈ (FieldStats.summary g values).nonNullElementTags :=
    FieldStats.mem_nonNullElementTags_summary.mpr ⟨⟨e, he, rfl⟩, htag⟩
  have hsame : (FieldStats.summary g values).nonNullElementTags.nonNull =
      (FieldStats.summary g values).nonNullElementTags := TagSet.nonNull_nonNull _
  cases h with
  | untagged => trivial
  | single hsingle =>
    rw [hsame] at hsingle
    rw [hsingle, List.mem_singleton] at hmem
    exact scalarOf_admits he hnan hmem
  | conflict => trivial

section Sample

variable (hdocs : ∀ doc ∈ documents, g.isMapping doc → g.Acyclic doc)
  (h : s.build r (Analysis.ofDocuments g documents).fields rootName count = .ok d)

include hdocs h

/-- The values under a key conform to its field if the objects among them conform to the type that was
promoted there. -/
theorem EmittedAt.value_conforms {path : List String} {t : TypeDefinition}
    (ht : EmittedAt r s (Analysis.ofDocuments g documents).fields rootName d path t) {f : FieldDefinition}
    (hf : f ∈ t.fields) {v : Item} (hv : v ∈ g.valuesAt (documents.filter g.isMapping) path f.name)
    (hnull : v ≠ .scalar .null) (hnan : ∀ inner, g.Reaches v inner → inner ≠ .scalar (.number (.real .nan)))
    (hobjects : ∀ o ∈ g.objectsOf v, ∀ u,
      EmittedAt r s (Analysis.ofDocuments g documents).fields rootName d (path ++ [f.name]) u →
        u.Conforms g d.all o) : f.Conforms g d.all v := by
  obtain ⟨scope, hdescribes⟩ := ht.exists_describes hdocs h hf
  have htag : g.tag v ≠ .null := fun hv => hnull (Graph.tag_eq_null_iff.mp hv)
  cases hid : s.isId f.name with
  | true =>
    have hbase := hdescribes.id hid
    have hcustom : f.customTypeName = none := by
      rw [FieldDefinition.customTypeName, hbase]
      rfl
    have hadmits : ScalarType.id.Admits g v := trivial
    exact .scalar hcustom (by rw [hbase]; rfl) hadmits
  | false =>
    have htyped := hdescribes.typed hid
    generalize hbase : f.base = base at htyped
    have hcustom : f.customTypeName = base.nestedName? := congrArg _ hbase
    have htext : f.base.text = base.text := congrArg _ hbase
    cases htyped with
    | conflict =>
      have hadmits : ScalarType.string.Admits g v := trivial
      exact .scalar hcustom (htext.trans rfl) hadmits
    | objects hagreed harray hname helements =>
      have hv' := FieldStats.tag_eq_of_agreed hagreed hv htag (FieldStats.array_mem_nonNullTags harray)
      obtain ⟨u, hu, rfl, honly⟩ := exists_emittedAt_of_promotedName h hname
      refine .objectList hcustom htext honly hv' fun e he henull => ?_
      have hetag : g.tag e ≠ .null := fun h => henull (Graph.tag_eq_null_iff.mp h)
      have hobject : g.tag e ∈ (FieldStats.summary g
          (g.valuesAt (documents.filter g.isMapping) path f.name)).nonNullElementTags :=
        FieldStats.mem_nonNullElementTags_summary.mpr ⟨⟨e, List.mem_flatMap.mpr ⟨v, hv, he⟩, rfl⟩, hetag⟩
      rw [helements, List.mem_singleton] at hobject
      exact hobjects e (Graph.mem_objectsOf.mpr ⟨Graph.tag_eq_object_iff.mp hobject, .inr he⟩) u hu
    | elements hagreed harray _ htype =>
      have hv' := FieldStats.tag_eq_of_agreed hagreed hv htag (FieldStats.array_mem_nonNullTags harray)
      refine .scalarList hcustom htext hv' fun e he henull => ?_
      exact htype.admits (List.mem_flatMap.mpr ⟨v, hv, he⟩) henull
        (hnan e (.single (Graph.holds_of_mem_elements he)))
    | object hagreed _ hobject hname =>
      have hv' := Graph.tag_eq_object_iff.mp (FieldStats.tag_eq_of_agreed hagreed hv htag hobject)
      obtain ⟨u, hu, rfl, honly⟩ := exists_emittedAt_of_promotedName h hname
      exact .object hcustom htext honly (hobjects v (Graph.mem_objectsOf.mpr ⟨hv', .inl rfl⟩) u hu)
    | fallback hagreed _ hobject =>
      have hv' := FieldStats.tag_eq_of_agreed hagreed hv htag hobject
      exact .scalar hcustom htext (scalarOf_admits (s := s) hv (hnan v .refl) hv')
    | primitive hagreed =>
      have hmem : g.tag v ∈ (FieldStats.summary g
          (g.valuesAt (documents.filter g.isMapping) path f.name)).nonNullTags :=
        FieldStats.mem_nonNullTags_summary.mpr ⟨⟨v, hv, rfl⟩, htag⟩
      have hhead := FieldStats.tag_eq_of_agreed hagreed hv htag (List.head_mem (List.ne_nil_of_mem hmem))
      refine .scalar hcustom htext (scalarOf_admits hv (hnan v .refl) ?_)
      rw [hhead, List.headD_eq_head?_getD, List.head?_eq_some_head (List.ne_nil_of_mem hmem)]
      rfl

theorem EmittedAt.conforms (hkeys : ∀ doc ∈ documents, g.isMapping doc → g.StringKeyed doc)
    (hnan : ∀ doc ∈ documents, g.isMapping doc → g.NanFree doc) {path : List String} {t : TypeDefinition}
    (ht : EmittedAt r s (Analysis.ofDocuments g documents).fields rootName d path t) {o : Item}
    (ho : o ∈ g.objectsAt (documents.filter g.isMapping) path) : t.Conforms g d.all o := by
  have hinside : ∀ path o, o ∈ g.objectsAt (documents.filter g.isMapping) path →
      g.isMapping o ∧ g.Acyclic o ∧ g.StringKeyed o ∧ g.NanFree o := by
    intro path o ho
    obtain ⟨doc, hdoc, hreaches⟩ := Graph.exists_reaches_of_mem_objectsAt ho
    obtain ⟨hmem, hmapping⟩ := List.mem_filter.mp hdoc
    exact ⟨Graph.isMapping_of_mem_objectsAt (fun doc hdoc => (List.mem_filter.mp hdoc).2) ho,
      (hdocs doc hmem hmapping).of_reaches hreaches, (hkeys doc hmem hmapping).of_reaches hreaches,
      (hnan doc hmem hmapping).of_reaches hreaches⟩
  -- The objects under a value lie inside the object that holds it, so the induction is on the object.
  refine Graph.Acyclic.induction (motive := fun o => ∀ path t,
    EmittedAt r s (Analysis.ofDocuments g documents).fields rootName d path t →
      o ∈ g.objectsAt (documents.filter g.isMapping) path → t.Conforms g d.all o)
    (hinside path o ho).2.1 ?_ path t ht ho
  intro o _ ih path t ht ho
  obtain ⟨hmapping, -, hkeyed, hnumbers⟩ := hinside path o ho
  obtain ⟨raw, hraw⟩ := Option.isSome_iff_exists.mp hmapping
  obtain ⟨entries, rfl, -⟩ := hkeyed o raw .refl hraw
  have hvalues : ∀ e ∈ entries, e.2 ∈ g.valuesUnder e.1 o := fun e he =>
    Graph.mem_valuesUnder.mpr ⟨_, hraw, _, List.mem_map_of_mem he, rfl, rfl⟩
  have hat : ∀ e ∈ entries, e.2 ∈ g.valuesAt (documents.filter g.isMapping) path e.1 := fun e he =>
    Graph.mem_valuesAt.mpr ⟨o, ho, hvalues e he⟩
  refine .mapping hraw ?_ ?_
  · intro e he
    obtain ⟨f, -, -, hone⟩ := ht.exists_field hdocs h (List.ne_nil_of_mem (hat e he))
    exact ⟨f, hone⟩
  · intro e he f hone hnull
    obtain ⟨hf, hname⟩ := List.mem_filter.mp (hone ▸ List.mem_singleton_self f)
    have hkey : e.1 = f.name := (eq_of_beq hname).symm
    have hv := hat e he
    have hunder := hvalues e he
    rw [hkey] at hv hunder
    have hholds := Graph.holds_of_mem_valuesUnder hunder
    refine ht.value_conforms hdocs h hf hv hnull (fun inner hi => hnumbers inner (.head hholds hi)) ?_
    intro inner hinner u hu
    refine ih inner (.head' hholds (Graph.reaches_of_mem_objectsOf hinner)) _ u hu ?_
    rw [Graph.objectsAt_concat_eq_valuesAt]
    exact List.mem_flatMap.mpr ⟨e.2, hv, hinner⟩

end Sample

end Settings

end SchemaInference
