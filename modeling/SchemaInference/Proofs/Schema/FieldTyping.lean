import SchemaInference.Proofs.Failure.Outcomes
import SchemaInference.Schema.Definition

set_option autoImplicit false

namespace SchemaInference

namespace TagSet

theorem nonNull_nonNull (tags : TagSet) : tags.nonNull.nonNull = tags.nonNull := by
  simp [nonNull]

end TagSet

namespace Settings

variable {r : Rounding} {s : Settings} {stats : FieldStats} {path : List String} {promoted : PromotedNames}
  {samples : List Number} {fieldName : Option String} {tags : TagSet}

/-- The scalar type of a set of tags: text where there is none or several, and else that of the tag. -/
inductive Resolved (s : Settings) (tags : TagSet) (samples : List Number) : ScalarType → Prop
  | untagged (htags : tags.nonNull = []) : Resolved s tags samples .string
  | single {tag : Tag} (htags : tags.nonNull = [tag]) : Resolved s tags samples (s.scalarOf tag samples)
  | conflict (htags : 1 < tags.nonNull.length) (hpolicy : s.conflicts ≠ .error) :
    Resolved s tags samples .string

theorem resolve_resolved {type : ScalarType} (h : s.resolve tags fieldName samples = .ok type) :
    Resolved s tags samples type := by
  unfold resolve at h
  split at h
  · rename_i htags
    cases h
    exact .untagged htags
  · rename_i tag htags
    cases h
    exact .single htags
  · rename_i hnone hsingle
    split at h
    · cases h
    · rename_i hpolicy
      cases h
      refine .conflict ?_ hpolicy
      match htags : tags.nonNull with
      | [] => exact absurd htags hnone
      | [tag] => exact absurd htags (hsingle tag)
      | first :: second :: more => simp

theorem exists_resolve (hpolicy : s.conflicts ≠ .error) (tags : TagSet) (fieldName : Option String)
    (samples : List Number) : ∃ type, s.resolve tags fieldName samples = .ok type := by
  unfold resolve
  split
  · exact ⟨_, rfl⟩
  · exact ⟨_, rfl⟩
  · rw [if_neg hpolicy]
    exact ⟨_, rfl⟩

/-- How the type of a field that is no identifier comes about. -/
inductive Typed (s : Settings) (stats : FieldStats) (promotedName : Option String) : FieldType → Prop
  | conflict (htags : 1 < stats.nonNullTags.length) (hpolicy : s.conflicts ≠ .error) :
    Typed s stats promotedName (.scalar .string)
  | objects {name : String} (htags : stats.nonNullTags.length ≤ 1) (harray : stats.isArray)
    (hname : promotedName = some name) (helements : stats.nonNullElementTags = [.object]) :
    Typed s stats promotedName (.nestedList name)
  | elements {type : ScalarType} (htags : stats.nonNullTags.length ≤ 1) (harray : stats.isArray)
    (hname : promotedName = none ∨ stats.nonNullElementTags ≠ [.object])
    (htype : Resolved s stats.nonNullElementTags stats.elementNumbers type) :
    Typed s stats promotedName (.scalarList type)
  | object {name : String} (htags : stats.nonNullTags.length ≤ 1) (harray : ¬ stats.isArray)
    (hobject : .object ∈ stats.nonNullTags) (hname : promotedName = some name) :
    Typed s stats promotedName (.nested name)
  | fallback (htags : stats.nonNullTags.length ≤ 1) (harray : ¬ stats.isArray)
    (hobject : .object ∈ stats.nonNullTags) (hname : promotedName = none) :
    Typed s stats promotedName (.scalar s.fallback.scalar)
  | primitive (htags : stats.nonNullTags.length ≤ 1) (harray : ¬ stats.isArray)
    (hobject : .object ∉ stats.nonNullTags) :
    Typed s stats promotedName (.scalar (s.scalarOf (stats.nonNullTags.headD .null) stats.numbers))

theorem baseType_typed {base : FieldType} (h : s.baseType stats path promoted = .ok base) :
    Typed s stats (promotedName? promoted path) base := by
  unfold baseType at h
  dsimp only at h
  split at h
  · rename_i htags
    obtain ⟨type, htype, rfl⟩ := map_eq_ok.mp h
    cases resolve_resolved htype with
    | conflict _ hpolicy => exact .conflict htags hpolicy
    | untagged hnone =>
      rw [FieldStats.nonNullTags, TagSet.nonNull_nonNull] at hnone
      rw [FieldStats.nonNullTags, hnone] at htags
      simp at htags
    | single hsingle =>
      rw [FieldStats.nonNullTags, TagSet.nonNull_nonNull] at hsingle
      rw [FieldStats.nonNullTags, hsingle] at htags
      simp at htags
  · rename_i htags
    rw [Nat.not_lt] at htags
    split at h
    · rename_i harray
      split at h
      · rename_i name hname helements
        cases h
        exact .objects htags harray hname (of_decide_eq_true helements)
      · rename_i hnot
        obtain ⟨type, htype, rfl⟩ := map_eq_ok.mp h
        refine .elements htags harray ?_ (resolve_resolved htype)
        cases hname : promotedName? promoted path with
        | none => exact .inl rfl
        | some name => exact .inr fun helements => hnot name hname (decide_eq_true helements)
    · rename_i harray
      split at h
      · rename_i hobject
        split at h
        · rename_i name hname
          cases h
          exact .object htags harray hobject hname
        · rename_i hname
          cases h
          exact .fallback htags harray hobject hname
      · rename_i hobject
        cases h
        exact .primitive htags harray hobject

theorem exists_baseType (hpolicy : s.conflicts ≠ .error) (stats : FieldStats) (path : List String)
    (promoted : PromotedNames) : ∃ base, s.baseType stats path promoted = .ok base := by
  unfold baseType
  dsimp only
  split
  · obtain ⟨type, htype⟩ := exists_resolve hpolicy stats.nonNullTags (some (".".intercalate path)) []
    exact ⟨_, by rw [htype]; rfl⟩
  · split
    · split
      · exact ⟨_, rfl⟩
      · obtain ⟨type, htype⟩ :=
          exists_resolve hpolicy stats.nonNullElementTags (some (".".intercalate path)) stats.elementNumbers
        exact ⟨_, by rw [htype]; rfl⟩
    · split
      · split <;> exact ⟨_, rfl⟩
      · exact ⟨_, rfl⟩

end Settings

end SchemaInference
