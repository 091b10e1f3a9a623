import SchemaInference.Proofs.Document.Descent
import Mathlib.Data.List.Forall2
import Mathlib.Data.List.Perm.Basic

/-!
# Documents as trees

An item shows a tree of values when going down from it, container by container, gives that tree; what is
shared is shown once for each place that holds it.  Items without cycles show a tree, and only these do.
Laying a tree out gives items that show it, in a graph in which no container is held twice.
-/

set_option autoImplicit false

namespace SchemaInference

/-- The tree that an item shows.  A container that is not there counts as an empty list, and an object of
some other program as a value of its type. -/
inductive Graph.Shows (g : Graph) : Item → Value → Prop
  | scalar (s : Scalar) : Shows g (.scalar s) (.scalar s)
  | foreign (name : String) (classes : List ErrorClass) (shown : Except ConversionError String)
    (amount : Except ConversionError (Option Double)) (attributes : List (String × Value)) :
    Shows g (.scalar (.foreign name)) (.object name classes shown amount attributes)
  | absent {id : Nat} (hnode : g.container? (.node id) = none) : Shows g (.node id) (.list [])
  | list {id : Nat} {items : List Item} {values : List Value}
    (hnode : g.container? (.node id) = some (.sequence false items)) (hlength : items.length = values.length)
    (hitems : ∀ p ∈ items.zip values, Shows g p.1 p.2) : Shows g (.node id) (.list values)
  | tuple {id : Nat} {items : List Item} {values : List Value}
    (hnode : g.container? (.node id) = some (.sequence true items)) (hlength : items.length = values.length)
    (hitems : ∀ p ∈ items.zip values, Shows g p.1 p.2) : Shows g (.node id) (.tuple values)
  | mapping {id : Nat} {entries : List (Value × Item)} {values : List (Value × Value)}
    (hnode : g.container? (.node id) = some (.mapping entries))
    (hkeys : entries.map (·.1) = values.map (·.1))
    (hentries : ∀ p ∈ (entries.map (·.2)).zip (values.map (·.2)), Shows g p.1 p.2) :
    Shows g (.node id) (.mapping values)

theorem exists_mem_zip_of_mem {α β : Type} {xs : List α} {ys : List β} (hlength : xs.length = ys.length) {x : α}
    (hx : x ∈ xs) : ∃ y, (x, y) ∈ xs.zip ys := by
  obtain ⟨i, hi, rfl⟩ := List.mem_iff_getElem.mp hx
  have hzip : i < (xs.zip ys).length := by
    rw [List.length_zip]
    omega
  refine ⟨ys[i], ?_⟩
  rw [← List.getElem_zip (h := hzip)]
  exact List.getElem_mem hzip

namespace Graph

variable {g : Graph} {item : Item} {value : Value}

theorem acyclic_of_parts (h : ∀ inner, g.Holds item inner → g.Acyclic inner) : g.Acyclic item := by
  intro inner hreaches hloop
  obtain rfl | ⟨next, hnext, hdown⟩ := Relation.ReflTransGen.cases_head hreaches
  · obtain ⟨next, hnext, hback⟩ := Relation.TransGen.head'_iff.mp hloop
    exact h next hnext _ hback hloop
  · exact h next hnext inner hdown hloop

theorem Shows.acyclic (h : g.Shows item value) : g.Acyclic item := by
  induction h with
  | scalar | foreign =>
    refine acyclic_of_parts fun inner hinner => ?_
    cases hinner
  | absent hnode =>
    refine acyclic_of_parts fun inner hinner => ?_
    simp [Holds, parts, hnode] at hinner
  | list hnode hlength _ ih | tuple hnode hlength _ ih =>
    refine acyclic_of_parts fun inner hinner => ?_
    simp only [Holds, parts, hnode] at hinner
    obtain ⟨v, hv⟩ := exists_mem_zip_of_mem hlength hinner
    exact ih _ hv
  | @mapping id entries values hnode hkeys _ ih =>
    refine acyclic_of_parts fun inner hinner => ?_
    simp only [Holds, parts, hnode] at hinner
    have hlength : (entries.map (·.2)).length = (values.map (·.2)).length := by
      simpa using congrArg List.length hkeys
    obtain ⟨v, hv⟩ := exists_mem_zip_of_mem hlength hinner
    exact ih _ hv

theorem exists_values {items : List Item} (h : ∀ item ∈ items, ∃ value, g.Shows item value) :
    ∃ values, List.Forall₂ g.Shows items values := by
  induction items with
  | nil => exact ⟨[], .nil⟩
  | cons item items ih =>
    rw [List.forall_mem_cons] at h
    obtain ⟨value, hvalue⟩ := h.1
    obtain ⟨values, hvalues⟩ := ih h.2
    exact ⟨value :: values, .cons hvalue hvalues⟩

theorem Acyclic.exists_shows (h : g.Acyclic item) : ∃ value, g.Shows item value := by
  refine h.induction (motive := fun item => ∃ value, g.Shows item value) fun item _ ih => ?_
  have hparts := exists_values fun inner hinner => ih inner (.single (a := item) hinner)
  obtain ⟨values, hvalues⟩ := hparts
  rw [List.forall₂_iff_zip] at hvalues
  obtain ⟨hlength, hshows⟩ := hvalues
  cases item with
  | scalar s => exact ⟨_, .scalar s⟩
  | node id =>
    cases hnode : g.container? (.node id) with
    | none => exact ⟨_, .absent hnode⟩
    | some node =>
      simp only [parts, hnode] at hlength hshows
      cases node with
      | sequence isTuple items =>
        cases isTuple with
        | false => exact ⟨_, .list hnode hlength fun p hp => hshows hp⟩
        | true => exact ⟨_, .tuple hnode hlength fun p hp => hshows hp⟩
      | mapping entries =>
        rw [List.length_map] at hlength
        refine ⟨.mapping ((entries.map (·.1)).zip values), .mapping hnode ?_ ?_⟩
        · rw [List.map_fst_zip (by simp [hlength])]
        · rw [List.map_snd_zip (by simp [hlength])]
          exact fun p hp => hshows hp

end Graph

def Item.id? : Item → Option Nat
  | .scalar _ => none
  | .node id => some id

def Node.parts : Node → List Item
  | .sequence _ items => items
  | .mapping entries => entries.map (·.2)

namespace Graph

/-- No container is held twice, the given items counting as places that hold one. -/
def Unshared (g : Graph) (roots : List Item) : Prop :=
  ((g.nodes.toList.flatMap Node.parts ++ roots).filterMap Item.id?).Nodup

/-- Laying out from one graph to another: the new containers come after the old ones, and each of them is
held once, by another one or among the items. -/
def Lays (g g' : Graph) (items : List Item) : Prop :=
  ∃ new, g'.nodes.toList = g.nodes.toList ++ new ∧
    ((new.flatMap Node.parts ++ items).filterMap Item.id?).Perm (List.range' g.nodes.size new.length)

variable {g g' g'' : Graph} {item : Item} {items : List Item}

theorem Lays.isPrefix (h : g.Lays g' items) : g.nodes.toList <+: g'.nodes.toList := by
  obtain ⟨new, hnew, -⟩ := h
  rw [hnew]
  exact List.prefix_append _ _

theorem Lays.nil : g.Lays g [] :=
  ⟨[], by simp, by simp⟩

theorem Lays.scalar (s : Scalar) : g.Lays g [.scalar s] :=
  ⟨[], by simp, by simp [Item.id?]⟩

theorem Lays.cons (h : g.Lays g' [item]) (h' : g'.Lays g'' items) : g.Lays g'' (item :: items) := by
  obtain ⟨new, hnew, hperm⟩ := h
  obtain ⟨later, hlater, hperm'⟩ := h'
  have hsize : g'.nodes.size = g.nodes.size + new.length := by
    rw [← Array.length_toList, hnew, List.length_append, Array.length_toList]
  refine ⟨new ++ later, by rw [hlater, hnew, List.append_assoc], ?_⟩
  have hparts : ((new ++ later).flatMap Node.parts ++ item :: items).Perm
      ((new.flatMap Node.parts ++ [item]) ++ (later.flatMap Node.parts ++ items)) := by
    rw [List.flatMap_append, List.append_assoc, List.append_assoc]
    refine List.Perm.append_left _ ?_
    rw [List.singleton_append]
    exact List.perm_middle
  refine (hparts.filterMap _).trans ?_
  rw [List.filterMap_append, List.length_append, ← List.range'_append_1, ← hsize]
  exact hperm.append hperm'

theorem Lays.push (node : Node) (h : g.Lays g' node.parts) : g.Lays (g'.push node).1 [(g'.push node).2] := by
  obtain ⟨new, hnew, hperm⟩ := h
  have hsize : g'.nodes.size = g.nodes.size + new.length := by
    rw [← Array.length_toList, hnew, List.length_append, Array.length_toList]
  refine ⟨new ++ [node], by simp [Graph.push, hnew], ?_⟩
  rw [List.flatMap_append, List.flatMap_singleton, List.filterMap_append, List.length_append,
    List.length_singleton, List.range'_concat]
  refine hperm.append ?_
  simp [Graph.push, Item.id?, hsize]

mutual

theorem place_lays (g : Graph) (value : Value) : g.Lays (g.place value).1 [(g.place value).2] := by
  match value with
  | .scalar s => exact .scalar s
  | .list items => exact .push (.sequence false _) (placeItems_lays g items)
  | .tuple items => exact .push (.sequence true _) (placeItems_lays g items)
  | .mapping entries => exact .push (.mapping _) (placeEntries_lays g entries)
  | .object name classes shown amount attributes => exact .scalar (.foreign name)

theorem placeItems_lays (g : Graph) (values : List Value) : g.Lays (g.placeItems values).1 (g.placeItems values).2 := by
  match values with
  | [] => exact .nil
  | value :: rest => exact (place_lays g value).cons (placeItems_lays (g.place value).1 rest)

theorem placeEntries_lays (g : Graph) (entries : List (Value × Value)) :
    g.Lays (g.placeEntries entries).1 ((g.placeEntries entries).2.map (·.2)) := by
  match entries with
  | [] => exact .nil
  | (key, value) :: rest => exact (place_lays g value).cons (placeEntries_lays (g.place value).1 rest)

end

theorem prefix_push (g : Graph) (node : Node) : g.nodes.toList <+: (g.push node).1.nodes.toList := by
  simp [Graph.push]

theorem container?_push {node : Node} (h : (g.push node).1.nodes.toList <+: g'.nodes.toList) :
    g'.container? (g.push node).2 = some node := by
  obtain ⟨later, hlater⟩ := h
  simp only [Graph.push, Array.toList_push] at hlater
  change g'.nodes[g.nodes.size]? = some node
  rw [← Array.getElem?_toList, ← hlater]
  simp

mutual

/-- A tree that has been laid out is shown, whatever is laid out after it. -/
theorem place_shows (g : Graph) (value : Value) (g' : Graph)
    (h : (g.place value).1.nodes.toList <+: g'.nodes.toList) : g'.Shows (g.place value).2 value := by
  match value with
  | .scalar s => exact .scalar s
  | .list items =>
    have hitems := placeItems_shows g items g' ((prefix_push _ (.sequence false _)).trans h)
    rw [List.forall₂_iff_zip] at hitems
    exact .list (container?_push h) hitems.1 fun p hp => hitems.2 hp
  | .tuple items =>
    have hitems := placeItems_shows g items g' ((prefix_push _ (.sequence true _)).trans h)
    rw [List.forall₂_iff_zip] at hitems
    exact .tuple (container?_push h) hitems.1 fun p hp => hitems.2 hp
  | .mapping entries =>
    obtain ⟨hkeys, hentries⟩ := placeEntries_shows g entries g' ((prefix_push _ (.mapping _)).trans h)
    rw [List.forall₂_iff_zip] at hentries
    exact .mapping (container?_push h) hkeys fun p hp => hentries.2 hp
  | .object name classes shown amount attributes => exact .foreign name classes shown amount attributes

theorem placeItems_shows (g : Graph) (values : List Value) (g' : Graph)
    (h : (g.placeItems values).1.nodes.toList <+: g'.nodes.toList) :
    List.Forall₂ g'.Shows (g.placeItems values).2 values := by
  match values with
  | [] => exact .nil
  | value :: rest =>
    have hrest := (placeItems_lays (g.place value).1 rest).isPrefix
    exact .cons (place_shows g value g' (hrest.trans h)) (placeItems_shows _ rest g' h)

theorem placeEntries_shows (g : Graph) (entries : List (Value × Value)) (g' : Graph)
    (h : (g.placeEntries entries).1.nodes.toList <+: g'.nodes.toList) :
    (g.placeEntries entries).2.map (·.1) = entries.map (·.1) ∧
      List.Forall₂ g'.Shows ((g.placeEntries entries).2.map (·.2)) (entries.map (·.2)) := by
  match entries with
  | [] => exact ⟨rfl, .nil⟩
  | (key, value) :: rest =>
    have hrest := (placeEntries_lays (g.place value).1 rest).isPrefix
    obtain ⟨hkeys, hvalues⟩ := placeEntries_shows (g.place value).1 rest g' h
    exact ⟨congrArg (key :: ·) hkeys, .cons (place_shows g value g' (hrest.trans h)) hvalues⟩

end

theorem ofValues_shows (values : List Value) :
    List.Forall₂ (ofValues values).1.Shows (ofValues values).2 values :=
  placeItems_shows empty values _ List.prefix_rfl

theorem ofValues_acyclic (values : List Value) {item : Item} (hitem : item ∈ (ofValues values).2) :
    (ofValues values).1.Acyclic item := by
  obtain ⟨hlength, hshows⟩ := List.forall₂_iff_zip.mp (ofValues_shows values)
  obtain ⟨value, hvalue⟩ := exists_mem_zip_of_mem hlength hitem
  exact (hshows hvalue).acyclic

theorem ofValues_unshared (values : List Value) : (ofValues values).1.Unshared (ofValues values).2 := by
  obtain ⟨new, hnew, hperm⟩ := placeItems_lays empty values
  change (placeItems empty values).1.nodes.toList = new at hnew
  rw [← hnew] at hperm
  exact hperm.nodup_iff.mpr List.nodup_range'

end Graph

end SchemaInference
