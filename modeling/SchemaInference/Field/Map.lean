import SchemaInference.Field.Tag

set_option autoImplicit false

namespace SchemaInference

structure FieldStats where
  tags : TagSet
  frequency : Nat
  isArray : Bool
  /-- The tags of all array elements; none before the first array. -/
  elementTags : Option TagSet
  /-- Whether a map of sub-fields was opened, possibly to stay empty. -/
  hasMap : Bool
  numbers : List Number
  elementNumbers : List Number
  isNullable : Bool
  /-- How many objects were direct elements of arrays. -/
  objectElements : Nat
  arrayDerived : Bool
deriving Inhabited

namespace FieldStats

def initial : FieldStats where
  tags := []
  frequency := 0
  isArray := false
  elementTags := none
  hasMap := false
  numbers := []
  elementNumbers := []
  isNullable := false
  objectElements := 0
  arrayDerived := false

def nonNullTags (s : FieldStats) : TagSet :=
  s.tags.nonNull

def nonNullElementTags (s : FieldStats) : TagSet :=
  (s.elementTags.getD []).nonNull

/-- The number of objects that a sub-field is counted against. -/
def scopeSize (s : FieldStats) : Nat :=
  if s.arrayDerived then max s.frequency s.objectElements else s.frequency

end FieldStats

inductive FieldMap
  | empty
  | field (name : String) (stats : FieldStats) (nested rest : FieldMap)
deriving Inhabited

namespace FieldMap

def isEmpty : FieldMap → Bool
  | empty => true
  | field _ _ _ _ => false

def toList : FieldMap → List (String × FieldStats × FieldMap)
  | empty => []
  | field name stats nested rest => (name, stats, nested) :: rest.toList

def names (m : FieldMap) : List String :=
  m.toList.map (·.1)

def size (m : FieldMap) : Nat :=
  m.toList.length

def stats? (m : FieldMap) (key : String) : Option FieldStats :=
  match m with
  | empty => none
  | field name stats _ rest => if name = key then some stats else rest.stats? key

def nested (m : FieldMap) (key : String) : FieldMap :=
  match m with
  | empty => empty
  | field name _ sub rest => if name = key then sub else rest.nested key

def update (m : FieldMap) (key : String) (change : FieldStats → FieldStats) : FieldMap :=
  match m with
  | empty => field key (change .initial) empty empty
  | field name stats sub rest =>
    if name = key then field name (change stats) sub rest
    else field name stats sub (rest.update key change)

def setNested (m : FieldMap) (key : String) (sub : FieldMap) : FieldMap :=
  match m with
  | empty => empty
  | field name stats old rest =>
    if name = key then field name stats sub rest else field name stats old (rest.setNested key sub)

/-- Adds a whole field; a field of that name keeps its position and is replaced. -/
def put (m : FieldMap) (key : String) (stats : FieldStats) (sub : FieldMap) : FieldMap :=
  match m with
  | empty => field key stats sub empty
  | field name old oldSub rest =>
    if name = key then field name stats sub rest else field name old oldSub (rest.put key stats sub)

def mapStats (change : FieldStats → FieldStats) : FieldMap → FieldMap
  | empty => empty
  | field name stats sub rest => field name (change stats) sub (rest.mapStats change)

def descend (m : FieldMap) : List String → FieldMap
  | [] => m
  | name :: path => (m.nested name).descend path

def statsAt? (m : FieldMap) (path : List String) : Option FieldStats :=
  match path with
  | [] => none
  | [name] => m.stats? name
  | name :: path => (m.nested name).statsAt? path

end FieldMap

end SchemaInference
