import SchemaInference.Proofs.Field.Sightings

set_option autoImplicit false

namespace SchemaInference

namespace TagSet

theorem foldl_add_add (tags later : TagSet) (t : Tag) :
    (later.add t).foldl add tags = (later.foldl add tags).add t := by
  by_cases ht : t ∈ later
  · have hknown : t ∈ later.foldl add tags := mem_foldl_add.mpr (.inr ht)
    rw [add, if_pos ht, add, if_pos hknown]
  · rw [add, if_neg ht, List.foldl_append]
    rfl

theorem foldl_add_of_subset {tags later : TagSet} (h : later ⊆ tags) : later.foldl add tags = tags := by
  induction later with
  | nil => rfl
  | cons t later ih =>
    rw [List.cons_subset] at h
    rw [List.foldl_cons, add, if_pos h.1, ih h.2]

end TagSet

namespace FieldStats

/-- What is known of a field first by `s` and afterwards by `later`. -/
def followedBy (s later : FieldStats) : FieldStats where
  tags := later.tags.foldl TagSet.add s.tags
  frequency := s.frequency + later.frequency
  isArray := s.isArray || later.isArray
  elementTags :=
    match later.elementTags with
    | none => s.elementTags
    | some tags => some (tags.foldl TagSet.add (s.elementTags.getD []))
  hasMap := s.hasMap || later.hasMap
  numbers := s.numbers ++ later.numbers
  elementNumbers := s.elementNumbers ++ later.elementNumbers
  isNullable := s.isNullable || later.isNullable
  objectElements := s.objectElements + later.objectElements
  arrayDerived := s.arrayDerived || later.arrayDerived

@[simp] theorem followedBy_initial (s : FieldStats) : s.followedBy .initial = s := by
  simp [followedBy, initial]

theorem count_followedBy (e : Sighting) (s later : FieldStats) :
    e.count (s.followedBy later) = s.followedBy (e.count later) := by
  have hnone (tags : Option TagSet) (t : Tag) :
      (match later.elementTags with
        | none => tags
        | some seen => some (seen.foldl TagSet.add (tags.getD []))).getD [] =
        (later.elementTags.getD []).foldl TagSet.add (tags.getD []) := by
    cases later.elementTags <;> rfl
  unfold Sighting.count
  split
  · simp only [followedBy, observeElement, TagSet.foldl_add_add, hnone s.elementTags e.tag, List.append_assoc,
      Bool.or_assoc]
    split <;> rfl
  · simp only [followedBy, observe, TagSet.foldl_add_add, List.append_assoc, Bool.or_assoc, Nat.add_assoc]
    by_cases harray : e.tag = .array
    · simp only [harray, if_true, hnone s.elementTags e.tag]
    · simp only [harray, if_false]

def times (k : Nat) (s : FieldStats) : FieldStats :=
  { s with
    frequency := k * s.frequency
    numbers := (List.replicate k s.numbers).flatten
    elementNumbers := (List.replicate k s.elementNumbers).flatten
    objectElements := k * s.objectElements }

theorem times_one (s : FieldStats) : s.times 1 = s := by
  simp [times]

theorem times_followedBy (k : Nat) (s : FieldStats) : (s.times k).followedBy s = s.times (k + 1) := by
  have hagain {α : Type} (samples : List α) :
      (List.replicate k samples).flatten ++ samples = (List.replicate (k + 1) samples).flatten := by
    rw [List.replicate_succ', List.flatten_append, List.flatten_singleton]
  have helements : (match s.elementTags with
      | none => s.elementTags
      | some tags => some (tags.foldl TagSet.add (s.elementTags.getD []))) = s.elementTags := by
    cases htags : s.elementTags with
    | none => rfl
    | some tags => exact congrArg some (TagSet.foldl_add_of_subset (List.Subset.refl tags))
  simp only [followedBy, times, TagSet.foldl_add_of_subset (List.Subset.refl s.tags), helements, hagain,
    Bool.or_self, Nat.succ_mul]

end FieldStats

namespace Sighting

variable (place : List String × String)

theorem knowAll_some (s : FieldStats) (es : List Sighting) :
    knowAll place (some s) es = some ((knowAll place none es).elim s s.followedBy) := by
  induction es using List.reverseRecOn with
  | nil => rfl
  | append_singleton es e ih =>
    rw [knowAll_append, knowAll_append, ih]
    simp only [knowAll, List.foldl_cons, List.foldl_nil, know]
    split
    · cases es.foldl (know place) none with
      | none => simp [← FieldStats.count_followedBy]
      | some later => simp [FieldStats.count_followedBy]
    · rfl

theorem knowAll_replicate (es : List Sighting) {k : Nat} (hk : 1 ≤ k) :
    knowAll place none (List.replicate k es).flatten = (knowAll place none es).map (·.times k) := by
  induction k, hk using Nat.le_induction with
  | base => simp [FieldStats.times_one]
  | succ k hk ih =>
    rw [List.replicate_succ', List.flatten_append, List.flatten_singleton, knowAll_append, ih]
    cases hes : knowAll place none es with
    | none => exact hes
    | some s =>
      rw [Option.map_some, knowAll_some, hes]
      exact congrArg some (FieldStats.times_followedBy k s)

end Sighting

namespace FieldMap

/-- At every place the names come first, in the same order, in `m'`. -/
def Extends (m m' : FieldMap) : Prop :=
  ∀ path, (m.descend path).names <+: (m'.descend path).names

theorem Extends.refl (m : FieldMap) : m.Extends m :=
  fun _ => List.prefix_refl _

theorem Extends.trans {m m' m'' : FieldMap} (h : m.Extends m') (h' : m'.Extends m'') : m.Extends m'' :=
  fun path => (h path).trans (h' path)

variable {m m' : FieldMap}

theorem extends_update (m : FieldMap) (key : String) (change : FieldStats → FieldStats) :
    m.Extends (m.update key change) := by
  intro path
  cases path with
  | nil =>
    rw [descend_nil, descend_nil, names_update]
    split
    · exact List.prefix_refl _
    · exact List.prefix_append _ _
  | cons name path =>
    simp only [descend, nested_update]
    exact List.prefix_refl _

theorem extends_setNested {key : String} {sub : FieldMap} (hkey : key ∈ m.names)
    (h : (m.nested key).Extends sub) : m.Extends (m.setNested key sub) := by
  intro path
  cases path with
  | nil =>
    rw [descend_nil, descend_nil, names_setNested]
  | cons name path =>
    simp only [descend, nested_setNested _ _ _ _ hkey]
    split
    · rename_i hname
      exact hname ▸ h path
    · exact List.prefix_refl _

theorem Extends.foldl {α : Type} {step : FieldMap → α → FieldMap} (items : List α)
    (h : ∀ (m : FieldMap), ∀ item ∈ items, m.Extends (step m item)) (m : FieldMap) : m.Extends (items.foldl step m) :=
  List.foldlRecOn (motive := m.Extends) items step (.refl m) fun m' hm' item hitem => hm'.trans (h m' item hitem)

end FieldMap

namespace Walk

variable {g : Graph} {walk : Item → Walk → Walk}

def Grows (step : Walk → Walk) : Prop :=
  ∀ w : Walk, w.fields.Extends (step w).fields

theorem Grows.foldl {α : Type} {step : Walk → α → Walk} {items : List α} (h : ∀ item ∈ items, Grows (step · item)) :
    Grows (items.foldl step) := by
  intro w
  refine List.foldlRecOn (motive := fun w' : Walk => w.fields.Extends w'.fields) items step (.refl _) ?_
  exact fun w' hw' item hitem => hw'.trans (h item hitem w')

theorem Grows.guarded {id : Nat} {step : Walk → Walk} (h : Grows step) : Grows (guarded id step) := by
  intro w
  unfold Walk.guarded
  split
  · exact .refl _
  · exact h ⟨id :: w.onPath, w.fields⟩

theorem extends_counted_inside (hwalk : ∀ item, Grows (walk item)) (key : String) (item : Item) (path : List Nat)
    (m : FieldMap) (change : FieldStats → FieldStats) :
    m.Extends (Walk.inside key (walk item) ⟨path, m.update key change⟩).fields :=
  (m.extends_update key change).trans
    (FieldMap.extends_setNested (m.mem_names_update_self key change) (hwalk item ⟨path, _⟩))

theorem element_grows (hwalk : ∀ item, Grows (walk item)) (key : String) (item : Item) :
    Grows (element g walk key item) := by
  intro w
  unfold element
  dsimp only
  split
  · exact extends_counted_inside hwalk key item w.onPath w.fields _
  · exact w.fields.extends_update key _

theorem entry_grows (hwalk : ∀ item, Grows (walk item)) (key : String) (item : Item) :
    Grows (entry g walk key item) := by
  intro w
  have hcounted := w.fields.extends_update key (.observe (g.tag item) item.number?)
  unfold entry
  dsimp only
  split
  · rename_i id items _
    have hinner : Grows (Walk.guarded id fun inner => items.foldl (fun w e => w.element g walk key e) inner) :=
      Grows.guarded (Grows.foldl fun e _ => element_grows hwalk key e)
    exact hcounted.trans (hinner ⟨w.onPath, _⟩)
  · split
    · exact extends_counted_inside hwalk key _ w.onPath w.fields _
    · exact hcounted

theorem mapping_grows (depth : Nat) (item : Item) : Grows (mapping g depth item) := by
  induction depth generalizing item with
  | zero => exact fun w => .refl _
  | succ depth ih =>
    intro w
    unfold mapping
    split
    · rename_i id entries _
      have hentries : Grows (Walk.guarded id fun inner =>
          entries.foldl (fun w e => w.entry g (mapping g depth) e.1.display e.2) inner) :=
        Grows.guarded (Grows.foldl fun e _ => entry_grows ih e.1.display e.2)
      exact hentries w
    · exact .refl _

end Walk

namespace FieldMap

theorem ofDocuments_extends (g : Graph) (documents more : List Item) :
    (ofDocuments g documents).Extends (ofDocuments g (documents ++ more)) := by
  rw [ofDocuments, ofDocuments, List.filter_append, List.foldl_append]
  exact Extends.foldl _ (fun m document _ => Walk.mapping_grows _ document ⟨[], m⟩) _

/-- Maps without repeated names are equal when they have the same names in the same order at every place and
the same is known of every field. -/
theorem Distinct.eq_of_statsOf? {m m' : FieldMap} (hm : m.Distinct) (hm' : m'.Distinct)
    (hnames : ∀ path, (m.descend path).names = (m'.descend path).names)
    (hstats : ∀ place, m.statsOf? place = m'.statsOf? place) : m = m' := by
  induction m generalizing m' with
  | empty =>
    cases m' with
    | empty => rfl
    | field => cases hnames []
  | field name stats sub rest ihsub ih =>
    cases m' with
    | empty => cases hnames []
    | field name' stats' sub' rest' =>
      obtain ⟨rfl, hrest⟩ : name = name' ∧ rest.names = rest'.names := List.cons.inj (hnames [])
      have hsame : stats = stats' := by simpa [statsOf?, stats?] using hstats ([], name)
      have hbelow : sub = sub' := by
        refine ihsub hm.2.1 hm'.2.1 (fun path => ?_) fun place => ?_
        · simpa [FieldMap.descend, FieldMap.nested] using hnames (name :: path)
        · simpa [statsOf?_field_cons] using hstats (name :: place.1, place.2)
      -- What comes after the field does not have its name.
      have hafter : rest = rest' := by
        refine ih hm.2.2 hm'.2.2 (fun path => ?_) fun place => ?_
        · cases path with
          | nil => exact hrest
          | cons first path =>
            by_cases hfirst : name = first
            · subst hfirst
              simp only [FieldMap.descend, nested_of_not_mem _ _ hm.1, nested_of_not_mem _ _ hm'.1]
            · simpa [FieldMap.descend, FieldMap.nested, hfirst] using hnames (first :: path)
        · by_cases hfirst : firstName place = name
          · have hnone {after : FieldMap} (hname : name ∉ after.names) : after.statsOf? place = none := by
              rw [← hfirst] at hname
              exact Option.not_isSome_iff_eq_none.mp fun h => hname (firstName_mem_names (mem_places_of_statsOf? h))
            rw [hnone hm.1, hnone hm'.1]
          · have hplace := hstats place
            rwa [statsOf?_field_of_ne hfirst, statsOf?_field_of_ne hfirst] at hplace
      rw [hsame, hbelow, hafter]

def times (k : Nat) : FieldMap → FieldMap
  | empty => empty
  | field name stats nested rest => field name (stats.times k) (nested.times k) (rest.times k)

variable (m : FieldMap) (k : Nat)

@[simp] theorem names_times : (m.times k).names = m.names := by
  induction m with
  | empty => rfl
  | field name stats sub rest _ ih => simp [times, ih]

theorem stats?_times (key : String) : (m.times k).stats? key = (m.stats? key).map (·.times k) := by
  induction m with
  | empty => rfl
  | field name stats sub rest _ ih =>
    simp only [times, stats?]
    split
    · rfl
    · exact ih

theorem descend_times (path : List String) : (m.times k).descend path = (m.descend path).times k := by
  have hnested (m : FieldMap) (key : String) : (m.times k).nested key = (m.nested key).times k := by
    induction m with
    | empty => rfl
    | field name stats sub rest _ ih =>
      simp only [times, nested]
      split
      · rfl
      · exact ih
  induction path generalizing m with
  | nil => rfl
  | cons name path ih => rw [descend, hnested, ih, descend]

theorem Distinct.times {m : FieldMap} (hm : m.Distinct) (k : Nat) : (m.times k).Distinct := by
  induction m with
  | empty => trivial
  | field name stats sub rest ihsub ih =>
    refine ⟨?_, ihsub hm.2.1, ih hm.2.2⟩
    rw [names_times]
    exact hm.1

variable {k}

/-- The fields of documents that are all repeated: nothing but counts and samples changes. -/
theorem ofDocuments_repeated (g : Graph) (documents : List Item) (hk : 1 ≤ k) :
    ofDocuments g (List.replicate k documents).flatten = (ofDocuments g documents).times k := by
  have hstats : ∀ place, (ofDocuments g (List.replicate k documents).flatten).statsOf? place =
      ((ofDocuments g documents).times k).statsOf? place := by
    intro place
    rw [statsOf?_ofDocuments, List.filter_flatten, List.map_replicate, List.flatMap_def, List.map_flatten,
      List.map_replicate, List.flatten_flatten, List.map_replicate, ← List.flatMap_def,
      Sighting.knowAll_replicate place _ hk, ← statsOf?_ofDocuments, statsOf?, statsOf?, descend_times, stats?_times]
  have hdistinct := ofDocuments_distinct g documents
  have hdistinct' := ofDocuments_distinct g (List.replicate k documents).flatten
  refine hdistinct'.eq_of_statsOf? (hdistinct.times k) (fun path => ?_) hstats
  rw [descend_times, names_times]
  obtain ⟨more, rfl⟩ : ∃ more, k = more + 1 := ⟨k - 1, by omega⟩
  have hgrown := ofDocuments_extends g documents (List.replicate more documents).flatten path
  rw [← List.flatten_cons, ← List.replicate_succ] at hgrown
  -- The names of one time come first, and there are no others.
  have hsubset : ((ofDocuments g (List.replicate (more + 1) documents).flatten).descend path).names ⊆
      ((ofDocuments g documents).descend path).names := by
    intro key hkey
    have hplace := hstats (path, key)
    rw [statsOf?, statsOf?, descend_times, stats?_times] at hplace
    rw [← stats?_isSome_iff, hplace, Option.isSome_map, stats?_isSome_iff] at hkey
    exact hkey
  have hlength := ((hdistinct'.descend path).names_nodup.subperm hsubset).length_le
  exact (hgrown.eq_of_length_le hlength).symm

end FieldMap

end SchemaInference
