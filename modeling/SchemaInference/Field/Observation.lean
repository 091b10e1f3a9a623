import SchemaInference.Field.Map

/-!
# Observing documents

Every document is walked once and every value counts for the field at its path.  `Walk.onPath` holds
the containers that are being walked: a container inside itself still counts for the field that holds
it, but is not walked again.  A walk puts `onPath` back to what it was.

The depth of a walk is bounded by the number of containers, since each step down adds one that was not
on the path before.
-/

set_option autoImplicit false

namespace SchemaInference

structure Walk where
  onPath : List Nat
  fields : FieldMap

namespace FieldStats

def observe (tag : Tag) (number : Option Number) (s : FieldStats) : FieldStats :=
  { s with
    tags := s.tags.add tag
    frequency := s.frequency + 1
    numbers := s.numbers ++ number.toList
    isArray := s.isArray || tag == .array
    elementTags := if tag = .array then some (s.elementTags.getD []) else s.elementTags
    hasMap := s.hasMap || tag == .object }

def observeElement (tag : Tag) (number : Option Number) (s : FieldStats) : FieldStats :=
  { s with
    elementTags := some ((s.elementTags.getD []).add tag)
    elementNumbers := s.elementNumbers ++ number.toList
    hasMap := s.hasMap || tag == .object
    objectElements := if tag = .object then s.objectElements + 1 else s.objectElements
    arrayDerived := s.arrayDerived || tag == .object }

end FieldStats

namespace Walk

def inside (key : String) (step : Walk → Walk) (w : Walk) : Walk :=
  let sub := step ⟨w.onPath, w.fields.nested key⟩
  ⟨sub.onPath, w.fields.setNested key sub.fields⟩

/-- Does nothing when the container is on the path, and else keeps it there during `step`. -/
def guarded (id : Nat) (step : Walk → Walk) (w : Walk) : Walk :=
  if id ∈ w.onPath then w
  else
    let after := step ⟨id :: w.onPath, w.fields⟩
    ⟨after.onPath.erase id, after.fields⟩

/-- One element of an array: it counts for the array's field, and an object is walked below it. -/
def element (g : Graph) (walk : Item → Walk → Walk) (key : String) (item : Item) (w : Walk) : Walk :=
  let tag := g.tag item
  let counted : Walk := ⟨w.onPath, w.fields.update key (.observeElement tag item.number?)⟩
  if tag = .object then counted.inside key (walk item) else counted

def entry (g : Graph) (walk : Item → Walk → Walk) (key : String) (item : Item) (w : Walk) : Walk :=
  let tag := g.tag item
  let counted : Walk := ⟨w.onPath, w.fields.update key (.observe tag item.number?)⟩
  match item, g.items? item with
  | .node id, some items =>
    counted.guarded id fun inner => items.foldl (fun w item => w.element g walk key item) inner
  | _, _ => if tag = .object then counted.inside key (walk item) else counted

def mapping (g : Graph) : Nat → Item → Walk → Walk
  | 0, _, w => w
  | depth + 1, item, w =>
    match item, g.entries? item with
    | .node id, some entries =>
      w.guarded id fun inner =>
        entries.foldl (fun w (key, value) => w.entry g (mapping g depth) key.display value) inner
    | _, _ => w

end Walk

def FieldMap.observeDocument (g : Graph) (fields : FieldMap) (document : Item) : FieldMap :=
  (Walk.mapping g (g.nodes.size + 1) document ⟨[], fields⟩).fields

def FieldMap.ofDocuments (g : Graph) (documents : List Item) : FieldMap :=
  (documents.filter g.isMapping).foldl (.observeDocument g) .empty

end SchemaInference
