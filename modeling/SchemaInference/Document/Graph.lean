import SchemaInference.Value.Literal

/-!
# Documents with shared parts

The containers of a set of documents form a finite graph: a container is a node, and an item inside a
container is a scalar or the number of a node.  Two items that name one node are one container, so
containers may be shared and may hold themselves.  `Graph.ofValues` lays trees out as a graph in which
nothing is shared.
-/

set_option autoImplicit false

namespace SchemaInference

inductive Item
  | scalar (s : Scalar)
  | node (id : Nat)
deriving DecidableEq, Inhabited

/-- A container; the keys of a mapping are trees of their own. -/
inductive Node
  | sequence (fixed : Bool) (items : List Item)
  | mapping (entries : List (Value × Item))
deriving Inhabited

structure Graph where
  nodes : Array Node

namespace Graph

def empty : Graph := ⟨#[]⟩

def container? (g : Graph) : Item → Option Node
  | .scalar _ => none
  | .node id => g.nodes[id]?

def entries? (g : Graph) (item : Item) : Option (List (Value × Item)) :=
  match g.container? item with
  | some (.mapping entries) => some entries
  | _ => none

def items? (g : Graph) (item : Item) : Option (List Item) :=
  match g.container? item with
  | some (.sequence _ items) => some items
  | _ => none

def isMapping (g : Graph) (item : Item) : Bool :=
  (g.entries? item).isSome

def typeName (g : Graph) (item : Item) : String :=
  match item, g.container? item with
  | .scalar s, _ => s.typeName
  | .node _, some (.sequence true _) => "tuple"
  | .node _, some (.sequence false _) => "list"
  | .node _, _ => "dict"

def push (g : Graph) (node : Node) : Graph × Item :=
  (⟨g.nodes.push node⟩, .node g.nodes.size)

mutual

def place (g : Graph) : Value → Graph × Item
  | .scalar s => (g, .scalar s)
  | .list items =>
    let (g, items) := placeItems g items
    g.push (.sequence false items)
  | .tuple items =>
    let (g, items) := placeItems g items
    g.push (.sequence true items)
  | .mapping entries =>
    let (g, entries) := placeEntries g entries
    g.push (.mapping entries)
  | .object name _ _ _ _ => (g, .scalar (.foreign name))

def placeItems (g : Graph) : List Value → Graph × List Item
  | [] => (g, [])
  | v :: rest =>
    let (g, item) := place g v
    let (g, items) := placeItems g rest
    (g, item :: items)

def placeEntries (g : Graph) : List (Value × Value) → Graph × List (Value × Item)
  | [] => (g, [])
  | (k, v) :: rest =>
    let (g, item) := place g v
    let (g, entries) := placeEntries g rest
    (g, (k, item) :: entries)

end

def ofValues (values : List Value) : Graph × List Item :=
  placeItems empty values

/-- What iterating over an item yields: items, keys, or characters; nothing from other scalars. -/
def iterated? (g : Graph) (item : Item) : Option (List Item) :=
  match item with
  | .scalar (.text s) => some (s.toList.map fun c => .scalar (.text (String.singleton c)))
  | .scalar _ => none
  | .node _ =>
    match g.container? item with
    | some (.sequence _ items) => some items
    | some (.mapping entries) => some (entries.map fun (k, _) => .scalar (.text k.display))
    | none => some []

end Graph

end SchemaInference
