import SchemaInference.Proofs.Field.Findings

/-!
# What a walk sees

A walk counts one value or element after another.  Its sightings are these, in order, each with the place
of its field; what is known of a field after the walk is what the sightings of that field made of what was
known before.  Nothing is asked of the documents: a container inside itself is seen once more and not
entered.
-/

set_option autoImplicit false

namespace SchemaInference

/-- A value that a walk counts, or an element of an array, for the field at a place. -/
structure Sighting where
  place : List String × String
  isElement : Bool
  tag : Tag
  number : Option Number

namespace Sighting

def under (key : String) (e : Sighting) : Sighting :=
  { e with place := (key :: e.place.1, e.place.2) }

def count (e : Sighting) (s : FieldStats) : FieldStats :=
  if e.isElement then s.observeElement e.tag e.number else s.observe e.tag e.number

def know (place : List String × String) (known : Option FieldStats) (e : Sighting) : Option FieldStats :=
  if e.place = place then some (e.count (known.getD .initial)) else known

def knowAll (place : List String × String) (known : Option FieldStats) (es : List Sighting) :
    Option FieldStats :=
  es.foldl (know place) known

variable (es : List Sighting) (name key : String) (above : List String) (known : Option FieldStats)

theorem knowAll_append (place : List String × String) (es' : List Sighting) :
    knowAll place known (es ++ es') = knowAll place (knowAll place known es) es' :=
  List.foldl_append

theorem exists_of_knowAll {place : List String × String} {s : FieldStats}
    (h : knowAll place none es = some s) : ∃ e ∈ es, e.place = place := by
  by_contra hnone
  have hall : knowAll place none es = none := by
    refine List.foldlRecOn (motive := (· = none)) es _ rfl fun known hknown e he => ?_
    rw [know, if_neg fun hplace => hnone ⟨e, he, hplace⟩, hknown]
  rw [hall] at h
  cases h

theorem knowAll_under_here : knowAll ([], key) known (es.map (under name)) = known := by
  induction es with
  | nil => rfl
  | cons e es ih => simpa [knowAll, know, under] using ih

theorem knowAll_under_below : knowAll (name :: above, key) known (es.map (under name)) =
    knowAll (above, key) known es := by
  induction es generalizing known with
  | nil => rfl
  | cons e es ih =>
    have hplace : (e.under name).place = (name :: above, key) ↔ e.place = (above, key) := by
      simp [under, Prod.ext_iff]
    have hstep : know (name :: above, key) known (e.under name) = know (above, key) known e := by
      simp only [know, hplace]
      rfl
    rw [List.map_cons, knowAll, List.foldl_cons, hstep]
    exact ih _

theorem knowAll_under_apart {other : String} (h : other ≠ name) :
    knowAll (other :: above, key) known (es.map (under name)) = known := by
  induction es with
  | nil => rfl
  | cons e es ih => simpa [knowAll, know, under, Ne.symm h] using ih

end Sighting

namespace Graph

variable (g : Graph)

/-- The sightings at an element of an array: itself, and what is seen below the field if it is an object. -/
def elementSightings (seen : Item → List Sighting) (key : String) (item : Item) : List Sighting :=
  ⟨([], key), true, g.tag item, item.number?⟩ ::
    if g.tag item = .object then (seen item).map (.under key) else []

def entrySightings (seen : List Nat → Item → List Sighting) (path : List Nat) (key : String) (item : Item) :
    List Sighting :=
  ⟨([], key), false, g.tag item, item.number?⟩ ::
    match item, g.items? item with
    | .node id, some items =>
      if id ∈ path then [] else items.flatMap (g.elementSightings (seen (id :: path)) key)
    | _, _ => if g.tag item = .object then (seen path item).map (.under key) else []

def sightings : Nat → List Nat → Item → List Sighting
  | 0, _, _ => []
  | depth + 1, path, item =>
    match item, g.entries? item with
    | .node id, some entries =>
      if id ∈ path then []
      else entries.flatMap fun e => g.entrySightings (sightings depth) (id :: path) e.1.display e.2
    | _, _ => []

end Graph

namespace Walk

variable {g : Graph} {path : List Nat} {step : Walk → Walk} {es : List Sighting} {key : String}

/-- A step that counts these sightings and leaves the path as it was. -/
def Sees (path : List Nat) (step : Walk → Walk) (es : List Sighting) : Prop :=
  ∀ m, (step ⟨path, m⟩).onPath = path ∧ ∀ place,
    (step ⟨path, m⟩).fields.statsOf? place = Sighting.knowAll place (m.statsOf? place) es

theorem Sees.eq_mk (h : Sees path step es) (m : FieldMap) :
    step ⟨path, m⟩ = ⟨path, (step ⟨path, m⟩).fields⟩ := by
  exact congrArg (Walk.mk · _) (h m).1

theorem Sees.comp {next : Walk → Walk} {es' : List Sighting} (h : Sees path step es)
    (hnext : Sees path next es') : Sees path (fun w => next (step w)) (es ++ es') := by
  intro m
  obtain ⟨hpath, hstats⟩ := hnext (step ⟨path, m⟩).fields
  rw [← h.eq_mk m] at hpath hstats
  refine ⟨hpath, fun place => ?_⟩
  rw [hstats, (h m).2, Sighting.knowAll_append]

theorem Sees.foldl {α : Type} {step : Walk → α → Walk} {seen : α → List Sighting} (items : List α)
    (h : ∀ item ∈ items, Sees path (step · item) (seen item)) :
    Sees path (fun w => items.foldl step w) (items.flatMap seen) := by
  induction items with
  | nil => exact fun m => ⟨rfl, fun _ => rfl⟩
  | cons item items ih =>
    rw [List.forall_mem_cons] at h
    exact h.1.comp (ih h.2)

theorem Sees.guarded {id : Nat} (h : id ∉ path → Sees (id :: path) step es) :
    Sees path (guarded id step) (if id ∈ path then [] else es) := by
  intro m
  unfold Walk.guarded
  by_cases hid : id ∈ path
  · rw [if_pos hid, if_pos hid]
    exact ⟨rfl, fun _ => rfl⟩
  · rw [if_neg hid, if_neg hid]
    obtain ⟨hpath, hstats⟩ := h hid m
    dsimp only
    rw [hpath, List.erase_cons_head]
    exact ⟨rfl, hstats⟩

theorem sees_update (e : Sighting) (hplace : e.place = ([], key)) (change : FieldStats → FieldStats)
    (hchange : ∀ s, e.count s = change s) : Sees path (fun w => ⟨w.onPath, w.fields.update key change⟩) [e] := by
  intro m
  refine ⟨rfl, fun place => ?_⟩
  obtain ⟨above, k⟩ := place
  simp only [Sighting.knowAll, List.foldl_cons, List.foldl_nil, Sighting.know, hplace, hchange]
  cases above with
  | nil =>
    simp only [FieldMap.statsOf?, FieldMap.descend_nil, FieldMap.stats?_update, Prod.mk.injEq, true_and]
    by_cases hk : key = k <;> simp [hk]
  | cons name above => simp [FieldMap.statsOf?, FieldMap.descend]

theorem Sees.inside (h : Sees path step es) {m : FieldMap} (hkey : key ∈ m.names) :
    (Walk.inside key step ⟨path, m⟩).onPath = path ∧ ∀ place,
      (Walk.inside key step ⟨path, m⟩).fields.statsOf? place =
        Sighting.knowAll place (m.statsOf? place) (es.map (.under key)) := by
  obtain ⟨hpath, hstats⟩ := h (m.nested key)
  refine ⟨hpath, fun place => ?_⟩
  obtain ⟨above, k⟩ := place
  cases above with
  | nil =>
    rw [Sighting.knowAll_under_here]
    simp [FieldMap.statsOf?, Walk.inside]
  | cons name above =>
    by_cases hname : name = key
    · subst hname
      rw [Sighting.knowAll_under_below]
      have hbelow := hstats (above, k)
      simpa [FieldMap.statsOf?, FieldMap.descend, Walk.inside, FieldMap.nested_setNested _ _ _ _ hkey] using hbelow
    · rw [Sighting.knowAll_under_apart _ _ _ _ _ hname]
      simp [FieldMap.statsOf?, FieldMap.descend, Walk.inside, FieldMap.nested_setNested _ _ _ _ hkey,
        Ne.symm hname]

theorem Sees.counted_inside (h : Sees path step es) (e : Sighting) (hplace : e.place = ([], key))
    (change : FieldStats → FieldStats) (hchange : ∀ s, e.count s = change s) :
    Sees path (fun w => Walk.inside key step ⟨w.onPath, w.fields.update key change⟩)
      (e :: es.map (.under key)) := by
  intro m
  have hupdate : Sees path (fun w => ⟨w.onPath, w.fields.update key change⟩) [e] :=
    sees_update e hplace change hchange
  obtain ⟨-, hcounted⟩ := hupdate m
  obtain ⟨hpath, hstats⟩ := h.inside (FieldMap.mem_names_update_self m key change)
  refine ⟨hpath, fun place => ?_⟩
  rw [hstats, hcounted place, ← Sighting.knowAll_append]
  rfl

theorem sees_element {walk : Item → Walk → Walk} {seen : Item → List Sighting} {item : Item}
    (h : Sees path (walk item) (seen item)) :
    Sees path (element g walk key item) (g.elementSightings seen key item) := by
  unfold element Graph.elementSightings
  dsimp only
  split
  · exact h.counted_inside ⟨([], key), true, g.tag item, item.number?⟩ rfl _ fun _ => rfl
  · exact sees_update ⟨([], key), true, g.tag item, item.number?⟩ rfl _ fun _ => rfl

theorem sees_entry {walk : Item → Walk → Walk} {seen : List Nat → Item → List Sighting}
    (h : ∀ path item, Sees path (walk item) (seen path item)) (path : List Nat) (key : String) (item : Item) :
    Sees path (entry g walk key item) (g.entrySightings seen path key item) := by
  have hcounted : Sees path
      (fun w => ⟨w.onPath, w.fields.update key (.observe (g.tag item) item.number?)⟩)
      [⟨([], key), false, g.tag item, item.number?⟩] := sees_update _ rfl _ fun _ => rfl
  have hinside : Sees path (fun w => Walk.inside key (walk item)
      ⟨w.onPath, w.fields.update key (.observe (g.tag item) item.number?)⟩)
      (⟨([], key), false, g.tag item, item.number?⟩ :: (seen path item).map (.under key)) :=
    (h path item).counted_inside _ rfl _ fun _ => rfl
  have hplain : Sees path
      (fun w => if g.tag item = .object then Walk.inside key (walk item)
          ⟨w.onPath, w.fields.update key (.observe (g.tag item) item.number?)⟩
        else ⟨w.onPath, w.fields.update key (.observe (g.tag item) item.number?)⟩)
      (⟨([], key), false, g.tag item, item.number?⟩ ::
        if g.tag item = .object then (seen path item).map (.under key) else []) := by
    split
    · exact hinside
    · exact hcounted
  cases item with
  | scalar s => exact hplain
  | node id =>
    cases hitems : g.items? (.node id) with
    | none =>
      unfold entry Graph.entrySightings
      rw [hitems]
      exact hplain
    | some items =>
      unfold entry Graph.entrySightings
      rw [hitems]
      exact hcounted.comp (Sees.guarded fun _ => Sees.foldl items fun inner _ => sees_element (h _ inner))

/-- A walk of a mapping counts its sightings, wherever and with whatever depth it is made. -/
theorem sees_mapping (depth : Nat) (path : List Nat) (item : Item) :
    Sees path (mapping g depth item) (g.sightings depth path item) := by
  -- On the depth and not on the item: a container may hold itself, and only the path stops the walk there.
  induction depth generalizing path item with
  | zero => exact fun m => ⟨rfl, fun _ => rfl⟩
  | succ depth ih =>
    cases item with
    | scalar s => exact fun m => ⟨rfl, fun _ => rfl⟩
    | node id =>
      unfold Graph.sightings
      cases hentries : g.entries? (.node id) with
      | none =>
        intro m
        unfold mapping
        rw [hentries]
        exact ⟨rfl, fun _ => rfl⟩
      | some entries =>
        have hwalk : Sees path
            (guarded id fun inner => entries.foldl (fun w e => w.entry g (mapping g depth) e.1.display e.2) inner)
            (if id ∈ path then [] else
              entries.flatMap fun e => g.entrySightings (g.sightings depth) (id :: path) e.1.display e.2) :=
          Sees.guarded fun _ => Sees.foldl entries fun e _ => sees_entry ih (id :: path) e.1.display e.2
        intro m
        unfold mapping
        rw [hentries]
        exact hwalk m

end Walk

namespace Graph

variable (g : Graph)

def EveryKey (P : String → Prop) (item : Item) : Prop :=
  ∀ inner entries, g.Reaches item inner → g.entries? inner = some entries → ∀ e ∈ entries, P e.1.display

def NamedKeys (item : Item) : Prop :=
  ∀ inner entries, g.Reaches item inner → g.entries? inner = some entries → ∀ e ∈ entries, e.1.display ≠ ""

def documentSightings (document : Item) : List Sighting :=
  g.sightings (g.nodes.size + 1) [] document

variable {g} {P : String → Prop}

theorem everyKey_of_nodes (h : ∀ id < g.nodes.size, ∀ e ∈ (g.entries? (.node id)).getD [], P e.1.display)
    (item : Item) : g.EveryKey P item := by
  intro inner entries _ hentries e he
  cases inner with
  | scalar s => simp [entries?, container?] at hentries
  | node id =>
    have hid : id < g.nodes.size := by
      by_contra hid
      simp [entries?, container?, hid] at hentries
    exact h id hid e (by simpa [hentries] using he)

theorem namedKeys_of_nodes (h : ∀ id < g.nodes.size, ∀ e ∈ (g.entries? (.node id)).getD [], e.1.display ≠ "")
    (item : Item) : g.NamedKeys item :=
  everyKey_of_nodes (P := (· ≠ "")) h item

theorem key_of_mem_elements {seen : Item → List Sighting} {key : String} {item : Item} (hkey : P key)
    (hseen : ∀ e ∈ seen item, P e.place.2) : ∀ e ∈ g.elementSightings seen key item, P e.place.2 := by
  intro e he
  obtain rfl | he := List.mem_cons.mp he
  · exact hkey
  · split at he
    · obtain ⟨inner, hinner, rfl⟩ := List.mem_map.mp he
      exact hseen inner hinner
    · cases he

theorem key_of_mem_entry {seen : List Nat → Item → List Sighting} {path : List Nat} {key : String} {item : Item}
    (hkey : P key) (hseen : ∀ path inner, g.Reaches item inner → ∀ e ∈ seen path inner, P e.place.2) :
    ∀ e ∈ g.entrySightings seen path key item, P e.place.2 := by
  intro e he
  obtain rfl | he := List.mem_cons.mp he
  · exact hkey
  · split at he
    · rename_i id items _ hitems
      split at he
      · cases he
      · obtain ⟨inner, hinner, he⟩ := List.mem_flatMap.mp he
        have hholds : g.Holds (.node id) inner := holds_of_mem_elements (by rwa [elements, hitems])
        exact key_of_mem_elements hkey (hseen _ inner (.single hholds)) e he
    · split at he
      · obtain ⟨inner, hinner, rfl⟩ := List.mem_map.mp he
        exact hseen path _ .refl inner hinner
      · cases he

theorem EveryKey.of_mem_sightings {item : Item} (h : g.EveryKey P item) (depth : Nat) (path : List Nat) :
    ∀ e ∈ g.sightings depth path item, P e.place.2 := by
  induction depth generalizing path item with
  | zero => exact fun e he => absurd he List.not_mem_nil
  | succ depth ih =>
    intro e he
    unfold sightings at he
    split at he
    · rename_i id entries hentries
      split at he
      · cases he
      · obtain ⟨entry, hentry, he⟩ := List.mem_flatMap.mp he
        refine key_of_mem_entry (h _ _ .refl hentries _ hentry) (fun path inner hreaches => ?_) e he
        exact ih (fun _ entries hdown => h _ entries
          (.trans (.head (holds_of_mem_entries hentries hentry) hreaches) hdown)) path
    · cases he

end Graph

/-- The fields of documents are known by the sightings in the mappings among them. -/
theorem FieldMap.statsOf?_ofDocuments (g : Graph) (documents : List Item) (place : List String × String) :
    (ofDocuments g documents).statsOf? place =
      Sighting.knowAll place none ((documents.filter g.isMapping).flatMap g.documentSightings) := by
  have hall : ∀ (objects : List Item) (m : FieldMap),
      (objects.foldl (.observeDocument g) m).statsOf? place =
        Sighting.knowAll place (m.statsOf? place) (objects.flatMap g.documentSightings) := by
    intro objects
    induction objects with
    | nil => exact fun m => rfl
    | cons object objects ih =>
      intro m
      rw [List.foldl_cons, ih, List.flatMap_cons, Sighting.knowAll_append]
      congr 1
      exact (Walk.sees_mapping _ [] object m).2 place
  have hnone : empty.statsOf? place = none := by simp [statsOf?, stats?]
  rw [ofDocuments, hall, hnone]

namespace Sighting

theorem isArray_count (e : Sighting) {s : FieldStats} (h : s.isArray = true ↔ .array ∈ s.tags) :
    (e.count s).isArray = true ↔ .array ∈ (e.count s).tags := by
  unfold count
  split
  · exact h
  · simp only [FieldStats.observe, Bool.or_eq_true, beq_iff_eq, TagSet.mem_add, h]
    exact or_congr_right eq_comm

theorem isArray_knowAll {place : List String × String} (es : List Sighting) (known : Option FieldStats)
    (hknown : ∀ s ∈ known, s.isArray = true ↔ .array ∈ s.tags) :
    ∀ s ∈ knowAll place known es, s.isArray = true ↔ .array ∈ s.tags := by
  induction es generalizing known with
  | nil => exact hknown
  | cons e es ih =>
    refine ih _ fun s hs => ?_
    unfold know at hs
    split at hs
    · cases hs
      refine e.isArray_count ?_
      cases hold : known with
      | none => simp [FieldStats.initial]
      | some old => exact hknown old hold
    · exact hknown s hs

end Sighting

theorem Analysis.isArray_iff {g : Graph} {documents : List Item} {path : List String} {key : String}
    {s : FieldStats} (hs : ((ofDocuments g documents).fields.descend path).stats? key = some s) :
    s.isArray = true ↔ .array ∈ s.tags := by
  change ((FieldMap.ofDocuments g documents).markAbsent.descend path).stats? key = some s at hs
  rw [FieldMap.stats?_descend_markAbsent] at hs
  obtain ⟨found, hfound, rfl⟩ := Option.map_eq_some_iff.mp hs
  have hknown := FieldMap.statsOf?_ofDocuments g documents (path, key)
  rw [FieldMap.statsOf?, hfound] at hknown
  have hcounted : found.isArray = true ↔ .array ∈ found.tags :=
    Sighting.isArray_knowAll _ none (by simp) found hknown.symm
  exact hcounted

theorem Analysis.key_of_everyKey {g : Graph} {documents : List Item} {P : String → Prop}
    (h : ∀ d ∈ documents, g.isMapping d → g.EveryKey P d) {above : List String} {key : String} {s : FieldStats}
    (hs : ((ofDocuments g documents).fields.descend above).stats? key = some s) : P key := by
  change ((FieldMap.ofDocuments g documents).markAbsent.descend above).stats? key = some s at hs
  rw [FieldMap.stats?_descend_markAbsent] at hs
  obtain ⟨found, hfound, -⟩ := Option.map_eq_some_iff.mp hs
  have hknown := FieldMap.statsOf?_ofDocuments g documents (above, key)
  rw [FieldMap.statsOf?, hfound] at hknown
  obtain ⟨e, he, hplace⟩ := Sighting.exists_of_knowAll _ hknown.symm
  obtain ⟨document, hdocument, he⟩ := List.mem_flatMap.mp he
  obtain ⟨hmem, hmapping⟩ := List.mem_filter.mp hdocument
  have hkey := (h document hmem hmapping).of_mem_sightings _ _ e he
  rwa [hplace] at hkey

theorem Analysis.key_ne_empty {g : Graph} {documents : List Item} (h : ∀ d ∈ documents, g.NamedKeys d)
    {above : List String} {key : String} {s : FieldStats}
    (hs : ((ofDocuments g documents).fields.descend above).stats? key = some s) : key ≠ "" :=
  key_of_everyKey (P := (· ≠ "")) (fun d hd _ => h d hd) hs

end SchemaInference
