import SchemaInference.Proofs.Document.Reordering
import SchemaInference.Proofs.Field.Sightings
import Mathlib.Data.List.Perm.Basic

set_option autoImplicit false

namespace SchemaInference

theorem append_append_perm {α : Type} (samples a b : List α) :
    (samples ++ a ++ b).Perm (samples ++ b ++ a) := by
  rw [List.append_assoc, List.append_assoc]
  exact List.perm_append_comm.append_left samples

namespace TagSet

theorem add_perm {tags tags' : TagSet} (h : tags.Perm tags') (t : Tag) : (tags.add t).Perm (tags'.add t) := by
  unfold add
  simp only [h.mem_iff]
  split
  · exact h
  · exact h.append_right _

theorem add_add_perm (tags : TagSet) (t u : Tag) : ((tags.add t).add u).Perm ((tags.add u).add t) := by
  obtain rfl | htu := eq_or_ne t u
  · rfl
  · by_cases ht : t ∈ tags <;> by_cases hu : u ∈ tags <;> simp [add, ht, hu, htu, Ne.symm htu]
    exact (List.Perm.swap u t []).append_left tags

theorem nonNull_perm {tags tags' : TagSet} (h : tags.Perm tags') : tags.nonNull.Perm tags'.nonNull :=
  h.filter _

end TagSet

namespace FieldStats

/-- The same statistics but for the order of tags and samples. -/
structure Alike (s s' : FieldStats) : Prop where
  tags : s.tags.Perm s'.tags
  frequency : s.frequency = s'.frequency
  isArray : s.isArray = s'.isArray
  elementTags : (s.elementTags.getD []).Perm (s'.elementTags.getD [])
  hasMap : s.hasMap = s'.hasMap
  numbers : s.numbers.Perm s'.numbers
  elementNumbers : s.elementNumbers.Perm s'.elementNumbers
  isNullable : s.isNullable = s'.isNullable
  objectElements : s.objectElements = s'.objectElements
  arrayDerived : s.arrayDerived = s'.arrayDerived

namespace Alike

theorem refl (s : FieldStats) : s.Alike s :=
  ⟨.rfl, rfl, rfl, .rfl, rfl, .rfl, .rfl, rfl, rfl, rfl⟩

variable {s s' s'' : FieldStats}

theorem symm (h : s.Alike s') : s'.Alike s where
  tags := h.tags.symm
  frequency := h.frequency.symm
  isArray := h.isArray.symm
  elementTags := h.elementTags.symm
  hasMap := h.hasMap.symm
  numbers := h.numbers.symm
  elementNumbers := h.elementNumbers.symm
  isNullable := h.isNullable.symm
  objectElements := h.objectElements.symm
  arrayDerived := h.arrayDerived.symm

theorem trans (h : s.Alike s') (h' : s'.Alike s'') : s.Alike s'' where
  tags := h.tags.trans h'.tags
  frequency := h.frequency.trans h'.frequency
  isArray := h.isArray.trans h'.isArray
  elementTags := h.elementTags.trans h'.elementTags
  hasMap := h.hasMap.trans h'.hasMap
  numbers := h.numbers.trans h'.numbers
  elementNumbers := h.elementNumbers.trans h'.elementNumbers
  isNullable := h.isNullable.trans h'.isNullable
  objectElements := h.objectElements.trans h'.objectElements
  arrayDerived := h.arrayDerived.trans h'.arrayDerived

theorem count (h : s.Alike s') (e : Sighting) : (e.count s).Alike (e.count s') := by
  obtain ⟨place, isElement, tag, number⟩ := e
  cases isElement with
  | true =>
    refine ⟨h.tags, h.frequency, h.isArray, TagSet.add_perm h.elementTags tag, ?_, h.numbers,
      h.elementNumbers.append_right _, h.isNullable, ?_, ?_⟩
    · simp [Sighting.count, observeElement, h.hasMap]
    · simp [Sighting.count, observeElement, h.objectElements]
    · simp [Sighting.count, observeElement, h.arrayDerived]
  | false =>
    refine ⟨TagSet.add_perm h.tags tag, ?_, ?_, ?_, ?_, h.numbers.append_right _, h.elementNumbers,
      h.isNullable, h.objectElements, h.arrayDerived⟩
    · simp [Sighting.count, observe, h.frequency]
    · simp [Sighting.count, observe, h.isArray]
    · by_cases harray : tag = .array <;> simpa [Sighting.count, observe, harray] using h.elementTags
    · simp [Sighting.count, observe, h.hasMap]

theorem observe_observe (s : FieldStats) (t u : Tag) (m n : Option Number) :
    ((s.observe t m).observe u n).Alike ((s.observe u n).observe t m) where
  tags := TagSet.add_add_perm s.tags t u
  frequency := rfl
  isArray := by simp only [observe, Bool.or_assoc, Bool.or_comm (t == .array)]
  elementTags := by by_cases ht : t = .array <;> by_cases hu : u = .array <;> simp [observe, ht, hu]
  hasMap := by simp only [observe, Bool.or_assoc, Bool.or_comm (t == .object)]
  numbers := append_append_perm s.numbers m.toList n.toList
  elementNumbers := .rfl
  isNullable := rfl
  objectElements := rfl
  arrayDerived := rfl

theorem observe_observeElement (s : FieldStats) (t u : Tag) (m n : Option Number) :
    ((s.observe t m).observeElement u n).Alike ((s.observeElement u n).observe t m) where
  tags := .rfl
  frequency := rfl
  isArray := rfl
  elementTags := by by_cases ht : t = .array <;> simp [observe, observeElement, ht]
  hasMap := by simp only [observe, observeElement, Bool.or_assoc, Bool.or_comm (t == .object)]
  numbers := .rfl
  elementNumbers := .rfl
  isNullable := rfl
  objectElements := rfl
  arrayDerived := rfl

theorem observeElement_observeElement (s : FieldStats) (t u : Tag) (m n : Option Number) :
    ((s.observeElement t m).observeElement u n).Alike ((s.observeElement u n).observeElement t m) where
  tags := .rfl
  frequency := rfl
  isArray := rfl
  elementTags := TagSet.add_add_perm (s.elementTags.getD []) t u
  hasMap := by simp only [observeElement, Bool.or_assoc, Bool.or_comm (t == .object)]
  numbers := .rfl
  elementNumbers := append_append_perm s.elementNumbers m.toList n.toList
  isNullable := rfl
  objectElements := by by_cases ht : t = .object <;> by_cases hu : u = .object <;> simp [observeElement, ht, hu]
  arrayDerived := by simp only [observeElement, Bool.or_assoc, Bool.or_comm (t == .object)]

theorem count_count (s : FieldStats) (a b : Sighting) : (b.count (a.count s)).Alike (a.count (b.count s)) := by
  obtain ⟨placea, elementa, t, m⟩ := a
  obtain ⟨placeb, elementb, u, n⟩ := b
  cases elementa with
  | false =>
    cases elementb with
    | false => exact observe_observe s t u m n
    | true => exact observe_observeElement s t u m n
  | true =>
    cases elementb with
    | false => exact (observe_observeElement s u t n m).symm
    | true => exact observeElement_observeElement s t u m n

end Alike

end FieldStats

namespace Sighting

variable {place : List String × String} {known known' : Option FieldStats}

theorem know_alike (h : Option.Rel FieldStats.Alike known known') (e : Sighting) :
    Option.Rel FieldStats.Alike (know place known e) (know place known' e) := by
  unfold know
  split
  · cases h with
    | none => exact .some (.refl _)
    | some h => exact .some (h.count e)
  · exact h

theorem knowAll_alike (h : Option.Rel FieldStats.Alike known known') (es : List Sighting) :
    Option.Rel FieldStats.Alike (knowAll place known es) (knowAll place known' es) := by
  induction es generalizing known known' with
  | nil => exact h
  | cons e es ih => exact ih (know_alike h e)

theorem know_know (known : Option FieldStats) (a b : Sighting) :
    Option.Rel FieldStats.Alike (know place (know place known a) b) (know place (know place known b) a) := by
  by_cases ha : a.place = place <;> by_cases hb : b.place = place <;> simp only [know, ha, hb, ↓reduceIte]
  · exact .some (FieldStats.Alike.count_count _ a b)
  all_goals exact rel_refl FieldStats.Alike.refl _

/-- The same sightings in another order make the same of a field, but for the order of tags and samples. -/
theorem knowAll_perm {es es' : List Sighting} (hes : es.Perm es') (known : Option FieldStats) :
    Option.Rel FieldStats.Alike (knowAll place known es) (knowAll place known es') := by
  induction hes generalizing known with
  | nil => exact rel_refl FieldStats.Alike.refl known
  | cons e _ ih => exact ih (know place known e)
  | swap a b es => exact knowAll_alike (know_know known b a) es
  | trans _ _ ih ih' => exact rel_trans (ih known) (ih' known) fun _ _ _ h h' => h.trans h'

end Sighting

namespace FieldMap

structure Alike (m m' : FieldMap) : Prop where
  distinct : m.Distinct
  distinct' : m'.Distinct
  stats : ∀ place, Option.Rel FieldStats.Alike (m.statsOf? place) (m'.statsOf? place)

namespace Alike

variable {m m' : FieldMap}

theorem symm (h : m.Alike m') : m'.Alike m where
  distinct := h.distinct'
  distinct' := h.distinct
  stats place := rel_swap (h.stats place) fun _ _ hs => hs.symm

theorem descend (h : m.Alike m') (path : List String) : (m.descend path).Alike (m'.descend path) where
  distinct := h.distinct.descend path
  distinct' := h.distinct'.descend path
  stats place := by
    have hplace := h.stats (path ++ place.1, place.2)
    simpa only [statsOf?, descend_append] using hplace

theorem nested (h : m.Alike m') (key : String) : (m.nested key).Alike (m'.nested key) :=
  h.descend [key]

theorem stats? (h : m.Alike m') (key : String) : Option.Rel FieldStats.Alike (m.stats? key) (m'.stats? key) :=
  h.stats ([], key)

theorem exists_stats? (h : m.Alike m') {key : String} {s : FieldStats} (hs : m.stats? key = some s) :
    ∃ s', m'.stats? key = some s' ∧ s.Alike s' := by
  have hkey := h.stats? key
  rw [hs] at hkey
  exact exists_of_rel_some hkey

theorem names_perm (h : m.Alike m') : m.names.Perm m'.names := by
  rw [List.perm_ext_iff_of_nodup h.distinct.names_nodup h.distinct'.names_nodup]
  intro key
  rw [← stats?_isSome_iff, ← stats?_isSome_iff, isSome_eq_of_rel (h.stats? key)]

theorem isEmpty_eq (h : m.Alike m') : m.isEmpty = m'.isEmpty := by
  have hlength := h.names_perm.length_eq
  cases m <;> cases m' <;> simp_all [isEmpty]

theorem size_eq (h : m.Alike m') : m.size = m'.size := by
  simpa [names, size] using h.names_perm.length_eq

theorem frequencies_eq (hm : m.Distinct) :
    m.frequencies = m.names.map fun key => ((m.stats? key).map (·.frequency)).getD 0 := by
  rw [frequencies, names, List.map_map]
  refine List.map_congr_left fun entry hentry => ?_
  simp [(hm.mem_toList.mp hentry).1]

theorem frequencies_perm (h : m.Alike m') : m.frequencies.Perm m'.frequencies := by
  rw [frequencies_eq h.distinct, frequencies_eq h.distinct']
  have hsame : ∀ key, (m.stats? key).map (·.frequency) = (m'.stats? key).map (·.frequency) :=
    fun key => map_eq_of_rel (h.stats? key) fun _ _ hs => hs.frequency
  simp only [hsame]
  exact h.names_perm.map _

theorem places_perm (h : m.Alike m') : m.places.Perm m'.places := by
  rw [List.perm_ext_iff_of_nodup h.distinct.nodup_places h.distinct'.nodup_places]
  intro place
  rw [h.distinct.mem_places, h.distinct'.mem_places, isSome_eq_of_rel (h.stats place)]

end Alike

end FieldMap

end SchemaInference
