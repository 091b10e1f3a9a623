import SchemaInference.Proofs.Field.Statistics

set_option autoImplicit false

namespace SchemaInference

namespace FieldStats

def absentIn (container : Option FieldStats) (s : FieldStats) : Bool :=
  match container with
  | none => false
  | some c => c.arrayDerived && decide (s.frequency < c.scopeSize)

def markedIn (container : Option FieldStats) (s : FieldStats) : FieldStats :=
  { s with isNullable := s.isNullable || s.absentIn container }

@[simp] theorem markedIn_none (s : FieldStats) : s.markedIn none = s := by
  simp [markedIn, absentIn]

end FieldStats

namespace FieldMap

theorem mapStats_markedIn {container : FieldStats} (h : ¬ container.arrayDerived) (m : FieldMap) :
    m.mapStats (·.markedIn (some container)) = m := by
  induction m with
  | empty => rfl
  | field _ s _ _ _ ih =>
    rw [mapStats, ih]
    simp [FieldStats.markedIn, FieldStats.absentIn, h]

theorem nested_markAbsent (m : FieldMap) (key : String) :
    m.markAbsent.nested key = (m.nested key).markAbsent.mapStats (·.markedIn (m.stats? key)) := by
  induction m with
  | empty => rfl
  | field name stats sub rest _ ih =>
    simp only [markAbsent, nested, stats?]
    split
    · by_cases h : stats.arrayDerived
      · simp [h, FieldStats.markedIn, FieldStats.absentIn]
      · rw [mapStats_markedIn h, if_neg h]
    · exact ih

theorem statsAt?_concat (m : FieldMap) (path : List String) (key : String) :
    m.statsAt? (path ++ [key]) = (m.descend path).stats? key := by
  induction path generalizing m with
  | nil => rfl
  | cons name path ih =>
    cases hpath : path ++ [key] with
    | nil => simp at hpath
    | cons next later =>
      simp only [List.cons_append, hpath, statsAt?]
      rw [← hpath]
      exact ih (m.nested name)

theorem nested_descend_markAbsent (m : FieldMap) (path : List String) (key : String) :
    (m.markAbsent.descend path).nested key = (m.descend path).markAbsent.nested key := by
  induction path using List.reverseRecOn generalizing key with
  | nil => rfl
  | append_singleton path name ih =>
    rw [descend_concat, descend_concat, ih name, nested_markAbsent, nested_mapStats]

theorem stats?_descend_markAbsent (m : FieldMap) (path : List String) (key : String) :
    (m.markAbsent.descend path).stats? key =
      ((m.descend path).stats? key).map (·.markedIn (m.statsAt? path)) := by
  cases path using List.reverseRecOn with
  | nil => simp [statsAt?]
  | append_singleton path name =>
    rw [descend_concat, descend_concat, nested_descend_markAbsent, nested_markAbsent, statsAt?_concat]
    simp

theorem names_descend_markAbsent (m : FieldMap) (path : List String) :
    (m.markAbsent.descend path).names = (m.descend path).names := by
  cases path using List.reverseRecOn with
  | nil => simp
  | append_singleton path name =>
    rw [descend_concat, descend_concat, nested_descend_markAbsent, nested_markAbsent]
    simp

end FieldMap

/-- What an analysis finds at a path: the summary of the values there, marked for what they are absent
from. -/
theorem Analysis.stats?_descend {g : Graph} {documents : List Item}
    (h : ∀ d ∈ documents, g.isMapping d → g.Acyclic d) (path : List String) (key : String) :
    let objects := documents.filter g.isMapping
    ((ofDocuments g documents).fields.descend path).stats? key =
      if g.valuesAt objects path key = [] then none
      else some ((FieldStats.summary g (g.valuesAt objects path key)).markedIn
        ((FieldMap.ofObjects g objects).statsAt? path)) := by
  intro objects
  have hobjects : ∀ o ∈ objects, g.Acyclic o := by
    intro o ho
    rw [List.mem_filter] at ho
    exact h o ho.1 ho.2
  change ((FieldMap.ofObjects g objects).markAbsent.descend path).stats? key = _
  rw [FieldMap.stats?_descend_markAbsent, FieldMap.stats?_descend_ofObjects hobjects]
  split <;> rfl

theorem Analysis.fields_distinct (g : Graph) (documents : List Item) :
    (ofDocuments g documents).fields.Distinct :=
  (FieldMap.ofDocuments_distinct g documents).markAbsent

end SchemaInference
