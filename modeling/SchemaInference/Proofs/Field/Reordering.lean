import SchemaInference.Proofs.Document.Reordering
import SchemaInference.Proofs.Field.Alike

set_option autoImplicit false

namespace SchemaInference

variable {ρ : Equiv.Perm Nat} {g g' : Graph}

namespace Graph.Reorders

theorem elementSightings_perm (h : Reorders ρ g g') {seen seen' : Item → List Sighting} (key : String)
    {item : Item} (hseen : (seen' (item.renumber ρ)).Perm (seen item)) :
    (g'.elementSightings seen' key (item.renumber ρ)).Perm (g.elementSightings seen key item) := by
  unfold elementSightings
  rw [h.tag, Item.number?_renumber]
  refine .cons _ ?_
  split
  · exact hseen.map _
  · rfl

theorem entrySightings_perm (h : Reorders ρ g g') {seen seen' : List Nat → Item → List Sighting}
    (hseen : ∀ path item, (seen' (path.map ρ) (item.renumber ρ)).Perm (seen path item)) (path : List Nat)
    (key : String) (item : Item) : (g'.entrySightings seen' (path.map ρ) key (item.renumber ρ)).Perm
      (g.entrySightings seen path key item) := by
  have hinside : (if g'.tag (item.renumber ρ) = .object then
        (seen' (path.map ρ) (item.renumber ρ)).map (Sighting.under key) else []).Perm
      (if g.tag item = .object then (seen path item).map (Sighting.under key) else []) := by
    rw [h.tag]
    split
    · exact (hseen path item).map _
    · rfl
  have hitems := h.items? item
  unfold entrySightings
  rw [h.tag, Item.number?_renumber] at *
  refine .cons _ ?_
  cases item with
  | scalar s => exact hinside
  | node id =>
    simp only [Item.renumber] at hitems hinside ⊢
    rw [hitems]
    cases g.items? (.node id) with
    | none => exact hinside
    | some items =>
      simp only [Option.map_some, List.mem_map_of_injective ρ.injective]
      split
      · rfl
      · rw [List.flatMap_map]
        exact .flatMap_left items fun inner _ => h.elementSightings_perm key (hseen (id :: path) inner)

theorem sightings_perm (h : Reorders ρ g g') (depth : Nat) (path : List Nat) (item : Item) :
    (g'.sightings depth (path.map ρ) (item.renumber ρ)).Perm (g.sightings depth path item) := by
  induction depth generalizing path item with
  | zero => rfl
  | succ depth ih =>
    cases item with
    | scalar s => rfl
    | node id =>
      have hentries := h.entries? (.node id)
      unfold sightings
      simp only [Item.renumber] at hentries ⊢
      generalize g.entries? (.node id) = entries at hentries ⊢
      generalize g'.entries? (.node (ρ id)) = entries' at hentries ⊢
      cases hentries with
      | none => rfl
      | some hperm =>
        simp only [List.mem_map_of_injective ρ.injective]
        split
        · rfl
        · refine (hperm.flatMap_right _).trans ?_
          rw [List.flatMap_map]
          exact .flatMap_left _ fun e _ => h.entrySightings_perm ih (id :: path) e.1.display e.2

variable {documents documents' : List Item}

theorem filter_isMapping_perm (h : Reorders ρ g g') (hdocs : documents'.Perm (documents.map (·.renumber ρ))) :
    (documents'.filter g'.isMapping).Perm ((documents.filter g.isMapping).map (·.renumber ρ)) := by
  have hsame : g'.isMapping ∘ (·.renumber ρ) = g.isMapping := funext h.isMapping
  have hfilter := hdocs.filter g'.isMapping
  rwa [List.filter_map, hsame] at hfilter

theorem ofDocuments_alike (h : Reorders ρ g g') (hdocs : documents'.Perm (documents.map (·.renumber ρ))) :
    (FieldMap.ofDocuments g documents).Alike (FieldMap.ofDocuments g' documents') where
  distinct := FieldMap.ofDocuments_distinct g documents
  distinct' := FieldMap.ofDocuments_distinct g' documents'
  stats place := by
    have hseen : ((documents'.filter g'.isMapping).flatMap g'.documentSightings).Perm
        ((documents.filter g.isMapping).flatMap g.documentSightings) := by
      refine ((h.filter_isMapping_perm hdocs).flatMap_right _).trans ?_
      rw [List.flatMap_map]
      refine .flatMap_left _ fun document _ => ?_
      rw [documentSightings, documentSightings, h.size_eq]
      exact h.sightings_perm _ [] document
    rw [FieldMap.statsOf?_ofDocuments, FieldMap.statsOf?_ofDocuments]
    exact Sighting.knowAll_perm hseen.symm none

end Graph.Reorders

namespace FieldStats.Alike

variable {s s' : FieldStats}

theorem scopeSize_eq (h : s.Alike s') : s.scopeSize = s'.scopeSize := by
  simp only [scopeSize, h.arrayDerived, h.frequency, h.objectElements]

theorem markedIn (h : s.Alike s') {container container' : Option FieldStats}
    (hcontainer : Option.Rel Alike container container') : (s.markedIn container).Alike (s'.markedIn container') where
  tags := h.tags
  frequency := h.frequency
  isArray := h.isArray
  elementTags := h.elementTags
  hasMap := h.hasMap
  numbers := h.numbers
  elementNumbers := h.elementNumbers
  isNullable := by
    cases hcontainer with
    | none => simp [FieldStats.markedIn, absentIn, h.isNullable]
    | some hc =>
      simp [FieldStats.markedIn, absentIn, h.isNullable, h.frequency, hc.arrayDerived, hc.scopeSize_eq]
  objectElements := h.objectElements
  arrayDerived := h.arrayDerived

theorem nonNullTags_perm (h : s.Alike s') : s.nonNullTags.Perm s'.nonNullTags :=
  TagSet.nonNull_perm h.tags

theorem nonNullElementTags_perm (h : s.Alike s') : s.nonNullElementTags.Perm s'.nonNullElementTags :=
  TagSet.nonNull_perm h.elementTags

end FieldStats.Alike

namespace FieldMap.Alike

variable {m m' : FieldMap}

theorem statsAt? (h : m.Alike m') (path : List String) :
    Option.Rel FieldStats.Alike (m.statsAt? path) (m'.statsAt? path) := by
  cases path using List.reverseRecOn with
  | nil => exact .none
  | append_singleton above key =>
    rw [statsAt?_concat, statsAt?_concat]
    exact h.stats (above, key)

theorem markAbsent (h : m.Alike m') : m.markAbsent.Alike m'.markAbsent where
  distinct := h.distinct.markAbsent
  distinct' := h.distinct'.markAbsent
  stats place := by
    have hcontainer := h.statsAt? place.1
    have hplace := h.stats place
    rw [statsOf?, statsOf?] at hplace
    rw [statsOf?, statsOf?, stats?_descend_markAbsent, stats?_descend_markAbsent]
    exact rel_map hplace fun _ _ hs => hs.markedIn hcontainer

theorem conflicting_eq (h : m.Alike m') (place : List String × String) :
    m.conflicting place = m'.conflicting place := by
  have hplace := h.stats place
  unfold conflicting
  generalize m.statsOf? place = o at hplace ⊢
  generalize m'.statsOf? place = o' at hplace ⊢
  cases hplace with
  | none => rfl
  | some hs => simp [hs.nonNullTags_perm.length_eq]

theorem conflicts_perm (h : m.Alike m') (above : String) : (m.conflicts above).Perm (m'.conflicts above) := by
  rw [h.distinct.conflicts_eq, h.distinct'.conflicts_eq, funext h.conflicting_eq]
  exact (h.places_perm.filter _).map _

end FieldMap.Alike

/-- Analyses that find alike fields, as many documents and the same conflicts, in any order. -/
structure Analysis.Alike (a a' : Analysis) : Prop where
  fields : a.fields.Alike a'.fields
  fieldCount : a.fieldCount = a'.fieldCount
  conflicts : a.conflicts.Perm a'.conflicts
  documentCount : a.documentCount = a'.documentCount

theorem Graph.Reorders.analysis_alike (h : g.Reorders ρ g') {documents documents' : List Item}
    (hdocs : documents'.Perm (documents.map (·.renumber ρ))) :
    (Analysis.ofDocuments g documents).Alike (Analysis.ofDocuments g' documents') := by
  have hfields := (h.ofDocuments_alike hdocs).markAbsent
  have hcount := (h.filter_isMapping_perm hdocs).length_eq
  rw [List.length_map] at hcount
  exact ⟨hfields, hfields.size_eq, hfields.conflicts_perm "", hcount.symm⟩

end SchemaInference
