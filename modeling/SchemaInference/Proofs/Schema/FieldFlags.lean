import SchemaInference.Proofs.Document.Trees
import SchemaInference.Proofs.Field.Sightings
import SchemaInference.Proofs.Schema.PlanNames

set_option autoImplicit false

namespace SchemaInference

namespace FieldType

def isList : FieldType → Bool
  | scalarList _ => true
  | nestedList _ => true
  | _ => false

theorem head?_text (base : FieldType) : base.text.toList.head? = some '[' ↔
    base.isList = true ∨ ∃ name, base = nested name ∧ name.toList.head? = some '[' := by
  cases base with
  | scalar type => cases type <;> simp [text, ScalarType.name, isList]
  | scalarList type => simp [text, isList]
  | nested name => simp [text, isList]
  | nestedList name => simp [text, isList]

theorem getLast?_text (base : FieldType) : base.text.toList.getLast? = some '!' ↔
    ∃ name, base = nested name ∧ name.toList.getLast? = some '!' := by
  cases base with
  | scalar type => cases type <;> simp [text, ScalarType.name]
  | scalarList type => simp [text, List.getLast?_cons]
  | nested name => simp [text]
  | nestedList name => simp [text, List.getLast?_cons]

end FieldType

/-- What the marks say: that values are arrays and nothing else but null, and that the field is required, or else
that a nested type is named like that. -/
structure FieldDefinition.Flagged (s : Settings) (stats : FieldStats) (f : FieldDefinition) : Prop where
  isArray : f.isArray = true ↔ s.isId f.name = false ∧ stats.nonNullTags = [.array] ∨
    ∃ name, f.base = .nested name ∧ name.toList.head? = some '['
  required : f.type.toList.getLast? = some '!' ↔ f.required = true ∨
    ∃ name, f.base = .nested name ∧ name.toList.getLast? = some '!'

namespace Settings

variable {r : Rounding} {s : Settings}

theorem Typed.isList_iff {stats : FieldStats} {promotedName : Option String} {base : FieldType}
    (harray : stats.isArray = true ↔ .array ∈ stats.tags) (h : Typed s stats promotedName base) :
    base.isList = true ↔ stats.nonNullTags = [.array] := by
  have hmem : stats.isArray = true ↔ .array ∈ stats.nonNullTags := by
    rw [harray, FieldStats.nonNullTags, TagSet.mem_nonNull]
    simp
  cases h with
  | conflict htags =>
    refine iff_of_false Bool.false_ne_true fun heq => ?_
    rw [heq] at htags
    simp at htags
  | objects htags hsome | elements htags hsome =>
    exact iff_of_true rfl (TagSet.eq_singleton_of_mem htags (hmem.mp hsome))
  | object _ hplain | fallback _ hplain | primitive _ hplain =>
    refine iff_of_false Bool.false_ne_true fun heq => hplain (hmem.mpr ?_)
    simp [heq]

theorem flagged_of_fieldDefinition {name : String} {stats : FieldStats} {path : List String} {scope : Int}
    {promoted : PromotedNames} {f : FieldDefinition} (harray : stats.isArray = true ↔ .array ∈ stats.tags)
    (h : s.fieldDefinition r name stats path scope promoted = .ok f) : f.Flagged s stats := by
  obtain ⟨hbase, rfl, -⟩ := fieldDefinition_eq_ok.mp h
  have hlist : f.base.isList = true ↔ s.isId f.name = false ∧ stats.nonNullTags = [.array] := by
    split at hbase
    · rename_i hid
      rw [← Except.ok.inj hbase, hid]
      simp [FieldType.isList]
    · rename_i hid
      rw [(baseType_typed hbase).isList_iff harray, Bool.not_eq_true _ |>.mp hid]
      simp
  refine ⟨?_, ?_⟩
  · rw [FieldDefinition.isArray, beq_iff_eq, FieldType.head?_text, hlist]
  · rw [← FieldType.getLast?_text, FieldDefinition.type]
    split
    · rename_i hrequired
      simp [hrequired]
    · rename_i hrequired
      simp [hrequired]

/-- A character that is in neither the name of the root type nor any key. -/
def Unused (g : Graph) (documents : List Item) (rootName : String) (mark : Char) : Prop :=
  mark ∉ rootName.toList ∧ ∀ doc ∈ documents, g.isMapping doc → g.EveryKey (mark ∉ ·.toList) doc

theorem Unused.not_mem {g : Graph} {documents : List Item} {rootName : String} {mark : Char}
    (h : Unused g documents rootName mark) (htemplate : s.template = none) (hascii : mark.toNat < 128)
    (hupper : mark.isUpper = false) (hdigit : mark.isDigit = false) (hunderscore : mark ≠ '_') {plan : NestedPlan}
    (hplan : plan ∈ promotions r s (Analysis.ofDocuments g documents).fields rootName) : mark ∉ plan.name.toList :=
  not_mem_promotion_name (Analysis.fields_distinct g documents) htemplate hascii hupper hdigit hunderscore h.1
    (fun _ _ _ hstats => Analysis.key_of_everyKey h.2 hstats) hplan

/-- In every type that a build emits the marks of a field say what is known of it, unless it has a nested type
that is named like that; with a built-in strategy this takes a root name or a key with that character. -/
theorem build_flags (r : Rounding) (s : Settings) (g : Graph) (documents : List Item) (rootName : String)
    (count : Int) (d : TypeDefinitions)
    (h : s.build r (Analysis.ofDocuments g documents).fields rootName count = .ok d) :
    ∀ t ∈ d.all, ∃ path, EmittedAt r s (Analysis.ofDocuments g documents).fields rootName d path t ∧
      ∀ f ∈ t.fields, ∃ stats,
        ((Analysis.ofDocuments g documents).fields.descend path).stats? f.name = some stats ∧
        f.Flagged s stats ∧
        (s.template = none → Unused g documents rootName '[' →
          (f.isArray = true ↔ s.isId f.name = false ∧ stats.nonNullTags = [.array])) ∧
        (s.template = none → Unused g documents rootName '!' →
          (f.type.toList.getLast? = some '!' ↔ f.required = true)) := by
  intro t ht
  have hfields := Analysis.fields_distinct g documents
  obtain ⟨path, hat⟩ := exists_emittedAt h ht
  refine ⟨path, hat, fun f hf => ?_⟩
  obtain ⟨scope, hdefs⟩ := hat.fieldDefinitions h hfields
  obtain ⟨stats, hstats, hdef⟩ := ((fieldDefinitions_eq_ok (hfields.descend path) hdefs).2 f).mp hf
  have hflagged := flagged_of_fieldDefinition (Analysis.isArray_iff hstats) hdef
  have hnested : ∀ name, f.base = .nested name → ∃ plan ∈ promotions r s (Analysis.ofDocuments g documents).fields
      rootName, plan.name = name := by
    intro name hname
    have hreference : f.customTypeName = some name := by
      rw [FieldDefinition.customTypeName, hname]
      rfl
    obtain ⟨plan, hplan, -, hplanName, -⟩ := hat.exists_reference h hfields hf hreference
    exact ⟨plan, hplan, hplanName⟩
  refine ⟨stats, hstats, hflagged, fun htemplate hunused => ?_, fun htemplate hunused => ?_⟩
  · rw [hflagged.isArray, or_iff_left]
    rintro ⟨name, hname, hhead⟩
    obtain ⟨plan, hplan, rfl⟩ := hnested name hname
    exact hunused.not_mem htemplate (by decide) (by decide) (by decide) (by decide) hplan (List.mem_of_head? hhead)
  · rw [hflagged.required, or_iff_left]
    rintro ⟨name, hname, hlast⟩
    obtain ⟨plan, hplan, rfl⟩ := hnested name hname
    exact hunused.not_mem htemplate (by decide) (by decide) (by decide) (by decide) hplan (List.mem_of_getLast? hlast)

def markedBoxes : List Value :=
  [.record [("marks", .list [.text "x"]), ("lid!", .record [("wood", .text "oak")])], .record []]

theorem build_flags_markedBoxes :
    let s := { Settings.standard with naming := .flat }
    let (g, documents) := Graph.ofValues markedBoxes
    ∃ d, s.build .binary64 (Analysis.ofDocuments g documents).fields "Box" 2 = .ok d ∧
      d.root.fields.map (fun f => (f.type, f.required)) = [("[String]", false), ("Lid!", false)] ∧
      ∀ t ∈ d.all, ∀ f ∈ t.fields, ∃ stats, f.Flagged s stats ∧
        (f.isArray = true ↔ s.isId f.name = false ∧ stats.nonNullTags = [.array]) := by
  intro s
  have hview : ((s.build .binary64 (Analysis.ofDocuments (Graph.ofValues markedBoxes).1
      (Graph.ofValues markedBoxes).2).fields "Box" 2).toOption.map
        fun d => d.root.fields.map fun f => (f.type, f.required)) = some [("[String]", false), ("Lid!", false)] := by
    decide +kernel
  have hunused : Unused (Graph.ofValues markedBoxes).1 (Graph.ofValues markedBoxes).2 "Box" '[' :=
    ⟨by decide, fun doc _ _ => Graph.everyKey_of_nodes (by decide +kernel) doc⟩
  obtain ⟨d, hbuild, hshown⟩ := exists_ok_of_toOption hview
  refine ⟨d, hbuild, hshown, fun t ht f hf => ?_⟩
  obtain ⟨path, -, hall⟩ := build_flags .binary64 s _ _ "Box" 2 d hbuild t ht
  obtain ⟨stats, -, hflagged, hbracket, -⟩ := hall f hf
  exact ⟨stats, hflagged, hbracket rfl hunused⟩

def bracketedBox : List Value :=
  [.record [("[box", .record [("wood", .text "oak")])]]

/-- The box is no array and is said to be one. -/
theorem build_isArray_bracketedBox :
    let s := { Settings.standard with naming := .flat }
    let (g, documents) := Graph.ofValues bracketedBox
    (∀ doc ∈ documents, g.StringKeyed doc) ∧ s.template = none ∧ s.isId "[box" = false ∧
      ((Analysis.ofDocuments g documents).fields.stats? "[box").map (·.nonNullTags) = some [.object] ∧
      ∃ d, s.build .binary64 (Analysis.ofDocuments g documents).fields "Root" 1 = .ok d ∧
        d.root.fields.map (fun f => (f.name, f.type, f.isArray)) = [("[box", "[box!", true)] := by
  intro s
  have hkeys : (Graph.ofValues bracketedBox).1.TextKeyed := by decide +kernel
  have hview : ((s.build .binary64 (Analysis.ofDocuments (Graph.ofValues bracketedBox).1
      (Graph.ofValues bracketedBox).2).fields "Root" 1).toOption.map
        fun d => d.root.fields.map fun f => (f.name, f.type, f.isArray)) = some [("[box", "[box!", true)] := by
    decide +kernel
  exact ⟨fun doc _ => hkeys.stringKeyed doc, rfl, by decide +kernel, by decide +kernel, exists_ok_of_toOption hview⟩

end Settings

end SchemaInference
