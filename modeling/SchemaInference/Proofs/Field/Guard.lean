import SchemaInference.Proofs.Field.Statistics
import Mathlib.Data.Finset.Card

/-!
# Guarded walks

A walk of any documents ends, also where containers are shared or hold themselves.  What it does is said
without a bound on its depth, rule by rule: a container is passed over exactly when it is on the path, and
else its contents are gone through with it on the path.  Every way down adds a container to the path that
was not there, so the rules give one result for any place and path; the walk gives that result, and the
path is afterwards what it was.
-/

set_option autoImplicit false

namespace SchemaInference

inductive WalkTask
  | walk (item : Item)
  | entries (rest : List (Value × Item))
  | record (key : String) (value : Item)
  | elements (key : String) (rest : List Item)

namespace FieldMap

def countValue (g : Graph) (m : FieldMap) (key : String) (value : Item) : FieldMap :=
  m.update key (·.observe (g.tag value) value.number?)

def countElement (g : Graph) (m : FieldMap) (key : String) (element : Item) : FieldMap :=
  m.update key (·.observeElement (g.tag element) element.number?)

end FieldMap

/-- What a part of a walk makes of the fields at a place, under the containers of a path. -/
inductive Graph.Visits (g : Graph) : List Nat → WalkTask → FieldMap → FieldMap → Prop
  | noMapping {path : List Nat} {item : Item} {m : FieldMap} (hentries : g.entries? item = none) :
    Visits g path (.walk item) m m
  | mappingOnPath {path : List Nat} {id : Nat} {entries : List (Value × Item)} {m : FieldMap}
    (hentries : g.entries? (.node id) = some entries) (hid : id ∈ path) : Visits g path (.walk (.node id)) m m
  | mapping {path : List Nat} {id : Nat} {entries : List (Value × Item)} {m m' : FieldMap}
    (hentries : g.entries? (.node id) = some entries) (hid : id ∉ path)
    (hinside : Visits g (id :: path) (.entries entries) m m') : Visits g path (.walk (.node id)) m m'
  | noEntries {path : List Nat} {m : FieldMap} : Visits g path (.entries []) m m
  | nextEntry {path : List Nat} {e : Value × Item} {rest : List (Value × Item)} {m between m' : FieldMap}
    (hrecord : Visits g path (.record e.1.display e.2) m between)
    (hrest : Visits g path (.entries rest) between m') : Visits g path (.entries (e :: rest)) m m'
  | plain {path : List Nat} {key : String} {value : Item} {m : FieldMap} (hitems : g.items? value = none)
    (htag : g.tag value ≠ .object) : Visits g path (.record key value) m (m.countValue g key value)
  | object {path : List Nat} {key : String} {value : Item} {m sub : FieldMap} (htag : g.tag value = .object)
    (hinside : Visits g path (.walk value) ((m.countValue g key value).nested key) sub) :
    Visits g path (.record key value) m ((m.countValue g key value).setNested key sub)
  | arrayOnPath {path : List Nat} {key : String} {id : Nat} {items : List Item} {m : FieldMap}
    (hitems : g.items? (.node id) = some items) (hid : id ∈ path) :
    Visits g path (.record key (.node id)) m (m.countValue g key (.node id))
  | array {path : List Nat} {key : String} {id : Nat} {items : List Item} {m m' : FieldMap}
    (hitems : g.items? (.node id) = some items) (hid : id ∉ path)
    (hinside : Visits g (id :: path) (.elements key items) (m.countValue g key (.node id)) m') :
    Visits g path (.record key (.node id)) m m'
  | noElements {path : List Nat} {key : String} {m : FieldMap} : Visits g path (.elements key []) m m
  | plainElement {path : List Nat} {key : String} {element : Item} {rest : List Item} {m m' : FieldMap}
    (htag : g.tag element ≠ .object) (hrest : Visits g path (.elements key rest) (m.countElement g key element) m') :
    Visits g path (.elements key (element :: rest)) m m'
  | objectElement {path : List Nat} {key : String} {element : Item} {rest : List Item} {m sub m' : FieldMap}
    (htag : g.tag element = .object)
    (hinside : Visits g path (.walk element) ((m.countElement g key element).nested key) sub)
    (hrest : Visits g path (.elements key rest) ((m.countElement g key element).setNested key sub) m') :
    Visits g path (.elements key (element :: rest)) m m'

namespace Graph

variable {g : Graph} {path : List Nat} {task : WalkTask} {m m' : FieldMap}

theorem items?_eq_none_of_tag {item : Item} (htag : g.tag item = .object) : g.items? item = none :=
  items?_of_isMapping (tag_eq_object_iff.mp htag)

theorem Visits.unique (h : g.Visits path task m m') {other : FieldMap} (hother : g.Visits path task m other) :
    m' = other := by
  induction h generalizing other with
  | noMapping hentries =>
    cases hother with
    | noMapping => rfl
    | mappingOnPath hsome | mapping hsome => cases hentries.symm.trans hsome
  | mappingOnPath hentries hid =>
    cases hother with
    | noMapping | mappingOnPath => rfl
    | mapping _ hout => exact absurd hid hout
  | mapping hentries hid _ ih =>
    cases hother with
    | noMapping hnone => cases hentries.symm.trans hnone
    | mappingOnPath _ hin => exact absurd hin hid
    | mapping hsome _ hinside =>
      obtain rfl := Option.some.inj (hentries.symm.trans hsome)
      exact ih hinside
  | noEntries =>
    cases hother
    rfl
  | nextEntry _ _ ihrecord ihrest =>
    cases hother with
    | nextEntry hrecord hrest =>
      obtain rfl := ihrecord hrecord
      exact ihrest hrest
  | plain hitems htag =>
    cases hother with
    | plain | arrayOnPath => rfl
    | object hobject => exact absurd hobject htag
    | array hsome => cases hitems.symm.trans hsome
  | object htag _ ih =>
    cases hother with
    | plain _ hplain => exact absurd htag hplain
    | object _ hinside => rw [ih hinside]
    | arrayOnPath hsome | array hsome => cases (items?_eq_none_of_tag htag).symm.trans hsome
  | arrayOnPath hitems hid =>
    cases hother with
    | plain | arrayOnPath => rfl
    | object hobject => cases (items?_eq_none_of_tag hobject).symm.trans hitems
    | array _ hout => exact absurd hid hout
  | array hitems hid _ ih =>
    cases hother with
    | plain hnone => cases hitems.symm.trans hnone
    | object hobject => cases (items?_eq_none_of_tag hobject).symm.trans hitems
    | arrayOnPath _ hin => exact absurd hin hid
    | array hsome _ hinside =>
      obtain rfl := Option.some.inj (hitems.symm.trans hsome)
      exact ih hinside
  | noElements =>
    cases hother
    rfl
  | plainElement htag _ ih =>
    cases hother with
    | plainElement _ hrest => exact ih hrest
    | objectElement hobject => exact absurd hobject htag
  | objectElement htag _ _ ihinside ihrest =>
    cases hother with
    | plainElement hplain => exact absurd htag hplain
    | objectElement _ hinside hrest =>
      obtain rfl := ihinside hinside
      exact ihrest hrest

def free (g : Graph) (path : List Nat) : Nat :=
  ((Finset.range g.nodes.size).filter (· ∉ path)).card

theorem free_le (path : List Nat) : g.free path ≤ g.nodes.size := by
  simpa [free] using Finset.card_filter_le (Finset.range g.nodes.size) (· ∉ path)

theorem free_cons_le (id : Nat) (path : List Nat) : g.free (id :: path) ≤ g.free path := by
  apply Finset.card_le_card
  intro inner hinner
  rw [Finset.mem_filter, List.mem_cons, not_or] at hinner
  exact Finset.mem_filter.mpr ⟨hinner.1, hinner.2.2⟩

theorem free_cons_lt {id : Nat} (hid : id < g.nodes.size) (hfresh : id ∉ path) :
    g.free (id :: path) < g.free path := by
  refine Finset.card_lt_card ⟨fun inner hinner => ?_, fun hall => ?_⟩
  · rw [Finset.mem_filter, List.mem_cons, not_or] at hinner
    exact Finset.mem_filter.mpr ⟨hinner.1, hinner.2.2⟩
  · have hin := hall (Finset.mem_filter.mpr ⟨Finset.mem_range.mpr hid, hfresh⟩)
    rw [Finset.mem_filter] at hin
    exact hin.2 List.mem_cons_self

end Graph

namespace Walk

variable {g : Graph} {path : List Nat} {walk : Item → Walk → Walk}

/-- Under the containers of a path the function walks mappings as the rules say, and puts the path back. -/
def Completes (g : Graph) (walk : Item → Walk → Walk) (path : List Nat) : Prop :=
  ∀ item m, ∃ m', walk item ⟨path, m⟩ = ⟨path, m'⟩ ∧ g.Visits path (.walk item) m m'

theorem inside_run {key : String} {step : Walk → Walk} {m sub : FieldMap}
    (h : step ⟨path, m.nested key⟩ = ⟨path, sub⟩) : inside key step ⟨path, m⟩ = ⟨path, m.setNested key sub⟩ := by
  simp only [inside, h]

theorem element_visits (hwalk : Completes g walk path) (key : String) (item : Item) (m : FieldMap) :
    ∃ next, element g walk key item ⟨path, m⟩ = ⟨path, next⟩ ∧
      next.stats? key =
        some (((m.stats? key).getD .initial).observeElement (g.tag item) item.number?) ∧
      ∀ rest m', g.Visits path (.elements key rest) next m' → g.Visits path (.elements key (item :: rest)) m m' := by
  have hcounted : (m.countElement g key item).stats? key =
      some (((m.stats? key).getD .initial).observeElement (g.tag item) item.number?) := by
    rw [FieldMap.countElement, FieldMap.stats?_update, if_pos rfl]
  unfold element
  by_cases htag : g.tag item = .object
  · obtain ⟨sub, hrun, hinside⟩ := hwalk item ((m.countElement g key item).nested key)
    refine ⟨(m.countElement g key item).setNested key sub, ?_, ?_, ?_⟩
    · rw [if_pos htag]
      exact inside_run hrun
    · rw [FieldMap.stats?_setNested, hcounted]
    · exact fun rest m' hrest => .objectElement htag hinside hrest
  · refine ⟨m.countElement g key item, ?_, hcounted, ?_⟩
    · rw [if_neg htag]
      rfl
    · exact fun rest m' hrest => .plainElement htag hrest

theorem elements_visits (hwalk : Completes g walk path) (key : String) (items : List Item) (m : FieldMap) :
    ∃ m', items.foldl (fun (w : Walk) item => w.element g walk key item) ⟨path, m⟩ = ⟨path, m'⟩ ∧
      g.Visits path (.elements key items) m m' := by
  induction items generalizing m with
  | nil => exact ⟨m, rfl, .noElements⟩
  | cons item items ih =>
    obtain ⟨next, hstep, -, hvisits⟩ := element_visits hwalk key item m
    obtain ⟨m', hrest, hafter⟩ := ih next
    refine ⟨m', ?_, hvisits _ _ hafter⟩
    rw [List.foldl_cons, hstep, hrest]

theorem record_visits (hwalk : Completes g walk path)
    (hbelow : ∀ id < g.nodes.size, id ∉ path → Completes g walk (id :: path)) (key : String) (value : Item)
    (m : FieldMap) : ∃ m', entry g walk key value ⟨path, m⟩ = ⟨path, m'⟩ ∧
      g.Visits path (.record key value) m m' := by
  cases hitems : g.items? value with
  | none =>
    have hrun : entry g walk key value ⟨path, m⟩ =
        if g.tag value = .object then inside key (walk value) ⟨path, m.countValue g key value⟩
        else ⟨path, m.countValue g key value⟩ := by
      unfold entry
      rw [hitems]
      cases value <;> rfl
    rw [hrun]
    by_cases htag : g.tag value = .object
    · obtain ⟨sub, hinside, hvisits⟩ := hwalk value ((m.countValue g key value).nested key)
      rw [if_pos htag, inside_run hinside]
      exact ⟨_, rfl, .object htag hvisits⟩
    · rw [if_neg htag]
      exact ⟨_, rfl, .plain hitems htag⟩
  | some items =>
    obtain ⟨fixed, hcontainer⟩ := Graph.items?_eq_some.mp hitems
    cases value with
    | scalar s => cases hcontainer
    | node id =>
      have hrun : entry g walk key (.node id) ⟨path, m⟩ =
          guarded id (fun inner => items.foldl (fun w item => w.element g walk key item) inner)
            ⟨path, m.countValue g key (.node id)⟩ := by
        unfold entry
        rw [hitems]
        rfl
      rw [hrun]
      by_cases hid : id ∈ path
      · refine ⟨_, ?_, .arrayOnPath hitems hid⟩
        rw [guarded, if_pos hid]
      · have hknown : id < g.nodes.size := (Array.getElem?_eq_some_iff.mp hcontainer).1
        obtain ⟨m', helements, hvisits⟩ :=
          elements_visits (hbelow id hknown hid) key items (m.countValue g key (.node id))
        exact ⟨m', guarded_run hid _ _ _ helements, .array hitems hid hvisits⟩

theorem entries_visits (hwalk : Completes g walk path)
    (hbelow : ∀ id < g.nodes.size, id ∉ path → Completes g walk (id :: path))
    (entries : List (Value × Item)) (m : FieldMap) :
    ∃ m', entries.foldl (fun (w : Walk) e => w.entry g walk e.1.display e.2) ⟨path, m⟩ = ⟨path, m'⟩ ∧
      g.Visits path (.entries entries) m m' := by
  induction entries generalizing m with
  | nil => exact ⟨m, rfl, .noEntries⟩
  | cons e entries ih =>
    obtain ⟨between, hstep, hrecord⟩ := record_visits hwalk hbelow e.1.display e.2 m
    obtain ⟨m', hrest, hvisits⟩ := ih between
    refine ⟨m', ?_, .nextEntry hrecord hvisits⟩
    rw [List.foldl_cons, hstep, hrest]

/-- A depth greater than the number of containers that are not on the path never runs out. -/
theorem mapping_completes {depth : Nat} (hdepth : g.free path < depth) :
    Completes g (mapping g depth) path := by
  induction depth generalizing path with
  | zero => cases hdepth
  | succ depth ih =>
    intro item m
    cases hentries : g.entries? item with
    | none =>
      refine ⟨m, ?_, .noMapping hentries⟩
      unfold mapping
      rw [hentries]
      cases item <;> rfl
    | some entries =>
      have hcontainer := Graph.entries?_eq_some.mp hentries
      cases item with
      | scalar s => cases hcontainer
      | node id =>
        have hrun : mapping g (depth + 1) (.node id) ⟨path, m⟩ =
            guarded id (fun inner =>
              entries.foldl (fun w e => w.entry g (mapping g depth) e.1.display e.2) inner) ⟨path, m⟩ := by
          unfold mapping
          rw [hentries]
        rw [hrun]
        by_cases hid : id ∈ path
        · refine ⟨m, ?_, .mappingOnPath hentries hid⟩
          rw [guarded, if_pos hid]
        · have hknown : id < g.nodes.size := (Array.getElem?_eq_some_iff.mp hcontainer).1
          have hless := Graph.free_cons_lt hknown hid
          have hbelow : ∀ inner < g.nodes.size, inner ∉ id :: path →
              Completes g (mapping g depth) (inner :: id :: path) := fun inner _ _ => by
            have hle := g.free_cons_le inner (id :: path)
            exact ih (by omega)
          obtain ⟨m', hrest, hvisits⟩ := entries_visits (ih (by omega)) hbelow entries m
          exact ⟨m', guarded_run hid _ _ _ hrest, .mapping hentries hid hvisits⟩

theorem mapping_completes_size (path : List Nat) : Completes g (mapping g (g.nodes.size + 1)) path := by
  have hle := g.free_le path
  exact mapping_completes (by omega)

end Walk

namespace Graph

variable {g : Graph} {path : List Nat} {m m' : FieldMap} {key : String}

theorem Visits.stats?_elements {items : List Item} (h : g.Visits path (.elements key items) m m')
    {s : FieldStats} (hs : m.stats? key = some s) : m'.stats? key =
      some (items.foldl (fun s e => s.observeElement (g.tag e) e.number?) s) := by
  induction items generalizing m s with
  | nil =>
    cases h
    exact hs
  | cons element items ih =>
    have hcounted : (m.countElement g key element).stats? key =
        some (s.observeElement (g.tag element) element.number?) := by
      rw [FieldMap.countElement, FieldMap.stats?_update, if_pos rfl, hs, Option.getD_some]
    cases h with
    | plainElement _ hrest => exact ih hrest hcounted
    | objectElement _ _ hrest => exact ih hrest (by rw [FieldMap.stats?_setNested, hcounted])

theorem Visits.stats?_record {value : Item} (h : g.Visits path (.record key value) m m') :
    ∃ s, m'.stats? key = some s ∧ s.frequency = ((m.stats? key).getD .initial).frequency + 1 ∧
      s.tags = ((m.stats? key).getD .initial).tags.add (g.tag value) := by
  have hcounted : (m.countValue g key value).stats? key =
      some (((m.stats? key).getD .initial).observe (g.tag value) value.number?) := by
    rw [FieldMap.countValue, FieldMap.stats?_update, if_pos rfl]
  cases h with
  | plain | arrayOnPath => exact ⟨_, hcounted, rfl, rfl⟩
  | object => exact ⟨_, (FieldMap.stats?_setNested _ _ _ _).trans hcounted, rfl, rfl⟩
  | array _ _ hinside =>
    have hstats := hinside.stats?_elements hcounted
    rw [FieldStats.foldl_observeElement] at hstats
    exact ⟨_, hstats, rfl, rfl⟩

end Graph

end SchemaInference
