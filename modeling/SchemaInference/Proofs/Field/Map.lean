import SchemaInference.Field.Conflict

set_option autoImplicit false

namespace SchemaInference

namespace FieldMap

variable (m rest sub : FieldMap) (name key k : String) (stats : FieldStats)

@[simp] theorem names_empty : empty.names = [] := rfl

@[simp] theorem names_field : (field name stats sub rest).names = name :: rest.names := rfl

@[simp] theorem isEmpty_eq_true_iff : m.isEmpty = true ↔ m = empty := by
  cases m <;> simp [isEmpty]

theorem stats?_isSome_iff : (m.stats? key).isSome ↔ key ∈ m.names := by
  induction m with
  | empty => simp [stats?]
  | field name stats sub rest _ ih =>
    simp only [stats?, names_field, List.mem_cons]
    split
    · rename_i h
      simp [h]
    · rename_i h
      simp [ih, Ne.symm h]

theorem stats?_eq_none_iff : m.stats? key = none ↔ key ∉ m.names := by
  rw [← stats?_isSome_iff, Option.not_isSome_iff_eq_none]

theorem mem_names_of_stats? {st : FieldStats} (h : m.stats? key = some st) : key ∈ m.names := by
  rw [← stats?_isSome_iff, h]
  rfl

theorem exists_stats?_of_ne_empty {m : FieldMap} (h : m ≠ empty) :
    ∃ key stats, m.stats? key = some stats := by
  cases m with
  | empty => exact absurd rfl h
  | field name stats sub rest => exact ⟨name, stats, by simp [stats?]⟩

theorem nested_of_not_mem (h : key ∉ m.names) : m.nested key = empty := by
  induction m with
  | empty => rfl
  | field name stats sub rest _ ih =>
    simp only [names_field, List.mem_cons, not_or] at h
    simp only [nested, Ne.symm h.1, ↓reduceIte]
    exact ih h.2

theorem stats?_update (change : FieldStats → FieldStats) :
    (m.update key change).stats? k =
      if key = k then some (change ((m.stats? key).getD .initial)) else m.stats? k := by
  induction m with
  | empty => simp only [update, stats?, Option.getD_none]
  | field name stats sub rest _ ih =>
    simp only [update]
    by_cases hn : name = key
    · subst hn
      by_cases hk : name = k <;> simp [stats?, hk]
    · simp only [hn, ↓reduceIte, stats?, ih]
      by_cases hk : name = k
      · simp [hk, show key ≠ k from fun h => hn (hk.trans h.symm)]
      · simp [hk]

@[simp] theorem nested_update (change : FieldStats → FieldStats) :
    (m.update key change).nested k = m.nested k := by
  induction m with
  | empty =>
    simp only [update, nested]
    split <;> rfl
  | field name stats sub rest _ ih =>
    simp only [update]
    split <;> simp [nested, ih]

theorem names_update (change : FieldStats → FieldStats) :
    (m.update key change).names = if key ∈ m.names then m.names else m.names ++ [key] := by
  induction m with
  | empty => rfl
  | field name stats sub rest _ ih =>
    simp only [update]
    by_cases hn : name = key
    · simp [hn]
    · simp only [hn, ↓reduceIte, names_field, ih, List.mem_cons, Ne.symm hn, false_or]
      split <;> simp

theorem mem_names_update_self (change : FieldStats → FieldStats) : key ∈ (m.update key change).names := by
  rw [names_update]
  split <;> simp_all

@[simp] theorem stats?_setNested : (m.setNested key sub).stats? k = m.stats? k := by
  induction m with
  | empty => rfl
  | field name stats old rest _ ih =>
    simp only [setNested]
    split <;> simp [stats?, ih]

@[simp] theorem names_setNested : (m.setNested key sub).names = m.names := by
  induction m with
  | empty => rfl
  | field name stats old rest _ ih =>
    simp only [setNested]
    split <;> simp [ih]

theorem nested_setNested (h : key ∈ m.names) :
    (m.setNested key sub).nested k = if key = k then sub else m.nested k := by
  induction m with
  | empty => simp at h
  | field name stats old rest _ ih =>
    simp only [setNested]
    by_cases hn : name = key
    · subst hn
      by_cases hk : name = k <;> simp [nested, hk]
    · have hr : key ∈ rest.names := by simpa [Ne.symm hn] using h
      simp only [hn, ↓reduceIte, nested, ih hr]
      by_cases hk : name = k
      · simp [hk, show key ≠ k from fun h => hn (hk.trans h.symm)]
      · simp [hk]

@[simp] theorem setNested_nested : m.setNested key (m.nested key) = m := by
  induction m with
  | empty => rfl
  | field name stats old rest _ ih =>
    simp only [setNested, nested]
    split <;> simp [ih]

@[simp] theorem setNested_setNested (old : FieldMap) :
    (m.setNested key old).setNested key sub = m.setNested key sub := by
  induction m with
  | empty => rfl
  | field name stats first rest _ ih =>
    by_cases hn : name = key <;> simp [setNested, hn, ih]

theorem update_update (first second : FieldStats → FieldStats) :
    (m.update key first).update key second = m.update key (second ∘ first) := by
  induction m with
  | empty => simp [update]
  | field name stats old rest _ ih =>
    by_cases hn : name = key <;> simp [update, hn, ih]

theorem update_setNested (h : key ∈ m.names) (change : FieldStats → FieldStats) :
    (m.setNested key sub).update key change = (m.update key change).setNested key sub := by
  induction m with
  | empty => simp at h
  | field name stats old rest _ ih =>
    by_cases hn : name = key
    · simp [setNested, update, hn]
    · have hr : key ∈ rest.names := by simpa [Ne.symm hn] using h
      simp [setNested, update, hn, ih hr]

theorem update_id (h : key ∈ m.names) : m.update key id = m := by
  induction m with
  | empty => simp at h
  | field name stats old rest _ ih =>
    by_cases hn : name = key
    · simp [update, hn]
    · have hr : key ∈ rest.names := by simpa [Ne.symm hn] using h
      simp [update, hn, ih hr]

@[simp] theorem names_mapStats (change : FieldStats → FieldStats) : (m.mapStats change).names = m.names := by
  induction m with
  | empty => rfl
  | field name stats sub rest _ ih => simp [mapStats, ih]

@[simp] theorem stats?_mapStats (change : FieldStats → FieldStats) :
    (m.mapStats change).stats? k = (m.stats? k).map change := by
  induction m with
  | empty => rfl
  | field name stats sub rest _ ih =>
    simp only [mapStats, stats?]
    split <;> simp [ih]

@[simp] theorem nested_mapStats (change : FieldStats → FieldStats) :
    (m.mapStats change).nested k = m.nested k := by
  induction m with
  | empty => rfl
  | field name stats sub rest _ ih =>
    simp only [mapStats, nested]
    split <;> simp [ih]

@[simp] theorem names_markAbsent : m.markAbsent.names = m.names := by
  induction m with
  | empty => rfl
  | field name stats sub rest _ ih => simp [markAbsent, ih]

@[simp] theorem stats?_markAbsent : m.markAbsent.stats? k = m.stats? k := by
  induction m with
  | empty => rfl
  | field name stats sub rest _ ih => simp [markAbsent, stats?, ih]

@[simp] theorem descend_nil : m.descend [] = m := rfl

@[simp] theorem descend_empty (path : List String) : empty.descend path = empty := by
  induction path with
  | nil => rfl
  | cons name path ih => exact ih

theorem descend_append (p q : List String) : m.descend (p ++ q) = (m.descend p).descend q := by
  induction p generalizing m with
  | nil => rfl
  | cons name p ih => exact ih (m.nested name)

theorem descend_concat (p : List String) : m.descend (p ++ [key]) = (m.descend p).nested key :=
  descend_append m p [key]

/-- No name occurs twice at one place, here or anywhere below. -/
def Distinct : FieldMap → Prop
  | empty => True
  | field name _ nested rest => name ∉ rest.names ∧ nested.Distinct ∧ rest.Distinct

variable {m sub key}

theorem Distinct.names_nodup (h : m.Distinct) : m.names.Nodup := by
  induction m with
  | empty => exact List.nodup_nil
  | field name stats sub rest _ ih => exact List.nodup_cons.mpr ⟨h.1, ih h.2.2⟩

theorem Distinct.nested (h : m.Distinct) (key : String) : (m.nested key).Distinct := by
  induction m with
  | empty => trivial
  | field name stats sub rest _ ih =>
    simp only [FieldMap.nested]
    split
    · exact h.2.1
    · exact ih h.2.2

theorem Distinct.descend (h : m.Distinct) (path : List String) : (m.descend path).Distinct := by
  induction path generalizing m with
  | nil => exact h
  | cons name path ih => exact ih (h.nested name)

theorem Distinct.update (h : m.Distinct) (key : String) (change : FieldStats → FieldStats) :
    (m.update key change).Distinct := by
  induction m with
  | empty => exact ⟨List.not_mem_nil, trivial, trivial⟩
  | field name stats sub rest _ ih =>
    simp only [FieldMap.update]
    split
    · exact h
    · rename_i hn
      refine ⟨?_, h.2.1, ih h.2.2⟩
      rw [names_update]
      have hr := h.1
      split <;> simp_all

theorem Distinct.setNested (h : m.Distinct) (key : String) (hsub : sub.Distinct) :
    (m.setNested key sub).Distinct := by
  induction m with
  | empty => trivial
  | field name stats old rest _ ih =>
    simp only [FieldMap.setNested]
    split
    · exact ⟨h.1, hsub, h.2.2⟩
    · refine ⟨?_, h.2.1, ih h.2.2⟩
      rw [names_setNested]
      exact h.1

theorem Distinct.mapStats (h : m.Distinct) (change : FieldStats → FieldStats) :
    (m.mapStats change).Distinct := by
  induction m with
  | empty => trivial
  | field name stats sub rest _ ih =>
    refine ⟨?_, h.2.1, ih h.2.2⟩
    rw [names_mapStats]
    exact h.1

theorem Distinct.markAbsent (h : m.Distinct) : m.markAbsent.Distinct := by
  induction m with
  | empty => trivial
  | field name stats sub rest ihs ih =>
    refine ⟨?_, ?_, ih h.2.2⟩
    · rw [names_markAbsent]
      exact h.1
    · have hs := ihs h.2.1
      split
      · exact hs.mapStats _
      · exact hs

theorem Distinct.mem_toList (h : m.Distinct) {entry : String × FieldStats × FieldMap} :
    entry ∈ m.toList ↔ m.stats? entry.1 = some entry.2.1 ∧ m.nested entry.1 = entry.2.2 := by
  obtain ⟨key, st, inner⟩ := entry
  induction m with
  | empty => simp [toList, stats?]
  | field name stats sub rest _ ih =>
    simp only [toList, List.mem_cons, ih h.2.2, stats?, FieldMap.nested]
    by_cases hn : name = key
    · subst hn
      have hr : rest.stats? name = none := (stats?_eq_none_iff rest name).mpr h.1
      simp only [hr, ↓reduceIte, Prod.mk.injEq, true_and, reduceCtorEq, false_and, or_false,
        Option.some.injEq]
      exact ⟨fun ⟨a, b⟩ => ⟨a.symm, b.symm⟩, fun ⟨a, b⟩ => ⟨a.symm, b.symm⟩⟩
    · simp [hn, Ne.symm hn]

end FieldMap

end SchemaInference
