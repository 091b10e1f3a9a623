import SchemaInference.Proofs.Field.Reordering
import SchemaInference.Proofs.Schema.FieldTyping

set_option autoImplicit false

namespace SchemaInference

theorem eq_singleton_iff_of_perm {α : Type} {l l' : List α} (h : l.Perm l') (a : α) : l = [a] ↔ l' = [a] := by
  constructor
  · rintro rfl
    exact (List.singleton_perm.mp h).symm
  · rintro rfl
    exact List.perm_singleton.mp h

theorem eq_of_perm_of_length_le_one {α : Type} {l l' : List α} (h : l.Perm l') (hone : l.length ≤ 1) :
    l = l' := by
  match l, hone with
  | [], _ => exact (List.nil_perm.mp h).symm
  | [a], _ => exact ((eq_singleton_iff_of_perm h a).mp rfl).symm

theorem StabilityThresholds.accepts_perm (r : Rounding) (t : StabilityThresholds) {frequencies frequencies' : List Nat}
    (h : frequencies.Perm frequencies') (containing depth : Int) :
    t.accepts r frequencies containing depth = t.accepts r frequencies' containing depth := by
  unfold accepts
  simp only [h.isEmpty_eq, h.length_eq, (h.filter _).length_eq, h.foldl_eq 0]

namespace Settings

variable {r : Rounding} {s : Settings} {stats stats' : FieldStats}

theorem isObjectArray_alike {nested nested' : FieldMap} (hs : stats.Alike stats') (hn : nested.Alike nested') :
    isObjectArray stats nested = isObjectArray stats' nested' := by
  have helements : (stats.nonNullElementTags == [.object]) = (stats'.nonNullElementTags == [.object]) := by
    rw [Bool.eq_iff_iff, beq_iff_eq, beq_iff_eq, eq_singleton_iff_of_perm hs.nonNullElementTags_perm]
  rw [isObjectArray, isObjectArray, hs.isArray, hn.isEmpty_eq, helements]

theorem promotion?_alike {nested nested' : FieldMap} (hs : stats.Alike stats') (hn : nested.Alike nested')
    (name : String) (depth : Nat) :
    s.promotion? r name stats nested depth = s.promotion? r name stats' nested' depth := by
  unfold promotion?
  rw [hn.isEmpty_eq, hs.nonNullTags_perm.length_eq, isObjectArray_alike hs hn, hs.scopeSize_eq, hs.isArray,
    hs.frequency, StabilityThresholds.accepts_perm r _ hn.frequencies_perm]
  simp only [hs.tags.mem_iff]

theorem isRequired_alike (hs : stats.Alike stats') (scope : Int) :
    s.isRequired r stats scope = s.isRequired r stats' scope := by
  unfold isRequired
  simp only [hs.isNullable, hs.tags.mem_iff, hs.frequency]

theorem scalarOf_perm {samples samples' : List Number} (h : samples.Perm samples') (tag : Tag) :
    s.scalarOf tag samples = s.scalarOf tag samples' := by
  have hall : samples.all Number.isInt = samples'.all Number.isInt := by
    rw [Bool.eq_iff_iff, List.all_eq_true, List.all_eq_true]
    simp only [h.mem_iff]
  unfold scalarOf numberType
  rw [h.isEmpty_eq, hall]

theorem resolve_perm (hpolicy : s.conflicts ≠ .error) {tags tags' : TagSet} (htags : tags.Perm tags')
    {samples samples' : List Number} (hsamples : samples.Perm samples') (name : Option String) :
    s.resolve tags name samples = s.resolve tags' name samples' := by
  have hnonNull := TagSet.nonNull_perm htags
  unfold resolve
  generalize tags.nonNull = found at hnonNull ⊢
  generalize tags'.nonNull = found' at hnonNull ⊢
  match found, found', hnonNull.length_eq with
  | [], [], _ => rfl
  | [tag], [tag'], _ =>
    cases List.singleton_perm_singleton.mp hnonNull
    exact congrArg Except.ok (scalarOf_perm hsamples tag)
  | _ :: _ :: _, _ :: _ :: _, _ => exact (if_neg hpolicy).trans (if_neg hpolicy).symm

end Settings

/-- The same type of a field but for the name of the nested type it refers to. -/
inductive FieldType.Akin (related : String → String → Prop) : FieldType → FieldType → Prop
  | scalar (type : ScalarType) : Akin related (.scalar type) (.scalar type)
  | scalarList (type : ScalarType) : Akin related (.scalarList type) (.scalarList type)
  | nested {name name' : String} (h : related name name') : Akin related (.nested name) (.nested name')
  | nestedList {name name' : String} (h : related name name') :
    Akin related (.nestedList name) (.nestedList name')

namespace Settings

variable {r : Rounding} {s : Settings} {stats stats' : FieldStats} {path : List String}
  {promoted promoted' : PromotedNames} {related : String → String → Prop}

theorem baseType_alike (hpolicy : s.conflicts ≠ .error) (hs : stats.Alike stats')
    (hnames : Option.Rel related (promotedName? promoted path) (promotedName? promoted' path)) :
    ∃ base base', s.baseType stats path promoted = .ok base ∧ s.baseType stats' path promoted' = .ok base' ∧
      base.Akin related base' := by
  have htags := hs.nonNullTags_perm
  have helements := hs.nonNullElementTags_perm
  unfold baseType
  dsimp only
  rw [← htags.length_eq, ← hs.isArray]
  by_cases hmany : 1 < stats.nonNullTags.length
  · rw [if_pos hmany, if_pos hmany, ← resolve_perm hpolicy htags (.refl [])]
    obtain ⟨type, htype⟩ := exists_resolve hpolicy stats.nonNullTags (some (".".intercalate path)) []
    rw [htype]
    exact ⟨_, _, rfl, rfl, .scalar type⟩
  · have hsame := eq_of_perm_of_length_le_one htags (Nat.not_lt.mp hmany)
    rw [if_neg hmany, if_neg hmany, ← hsame, ← scalarOf_perm hs.numbers,
      ← resolve_perm hpolicy helements hs.elementNumbers]
    obtain ⟨type, htype⟩ :=
      exists_resolve hpolicy stats.nonNullElementTags (some (".".intercalate path)) stats.elementNumbers
    rw [htype]
    by_cases harray : stats.isArray
    · rw [if_pos harray, if_pos harray]
      simp only [← eq_singleton_iff_of_perm helements]
      generalize promotedName? promoted path = name at hnames ⊢
      generalize promotedName? promoted' path = name' at hnames ⊢
      cases hnames with
      | none => exact ⟨_, _, rfl, rfl, .scalarList type⟩
      | some hrelated =>
        by_cases hobjects : stats.nonNullElementTags = [.object]
        · simp only [hobjects, decide_true]
          exact ⟨_, _, rfl, rfl, .nestedList hrelated⟩
        · simp only [hobjects, decide_false]
          exact ⟨_, _, rfl, rfl, .scalarList type⟩
    · rw [if_neg harray, if_neg harray]
      by_cases hobject : .object ∈ stats.nonNullTags
      · rw [if_pos hobject, if_pos hobject]
        generalize promotedName? promoted path = name at hnames ⊢
        generalize promotedName? promoted' path = name' at hnames ⊢
        cases hnames with
        | none => exact ⟨_, _, rfl, rfl, .scalar _⟩
        | some hrelated => exact ⟨_, _, rfl, rfl, .nested hrelated⟩
      · rw [if_neg hobject, if_neg hobject]
        exact ⟨_, _, rfl, rfl, .scalar _⟩

end Settings

end SchemaInference
