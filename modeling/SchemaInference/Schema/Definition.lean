import SchemaInference.Schema.Promotion

set_option autoImplicit false

namespace SchemaInference

structure FieldDefinition where
  name : String
  base : FieldType
  required : Bool
deriving DecidableEq, Inhabited

namespace FieldDefinition

def type (f : FieldDefinition) : String :=
  if f.required then f.base.text ++ "!" else f.base.text

def isArray (f : FieldDefinition) : Bool :=
  f.base.text.toList.head? == some '['

def customTypeName (f : FieldDefinition) : Option String :=
  f.base.nestedName?

end FieldDefinition

structure TypeDefinition where
  name : String
  fields : List FieldDefinition
  isNested : Bool
  parentType : Option String
  depth : Nat
  parentFrequency : Option Nat
deriving Inhabited

def TypeDefinition.field? (t : TypeDefinition) (name : String) : Option FieldDefinition :=
  t.fields.find? (·.name == name)

structure TypeDefinitions where
  root : TypeDefinition
  nested : List TypeDefinition
deriving Inhabited

namespace TypeDefinitions

def all (d : TypeDefinitions) : List TypeDefinition :=
  d.root :: d.nested

def get? (d : TypeDefinitions) (name : String) : Option TypeDefinition :=
  d.all.find? (·.name == name)

end TypeDefinitions

abbrev PromotedNames := List (List String × String)

namespace Settings

/-- The type promoted at a path; a type without a name counts as none. -/
def promotedName? (promoted : PromotedNames) (path : List String) : Option String :=
  (promoted.lookup path).filter fun name => !name.isEmpty

def baseType (s : Settings) (stats : FieldStats) (path : List String) (promoted : PromotedNames) :
    Except Failure FieldType :=
  let dotted := ".".intercalate path
  let tags := stats.nonNullTags
  if 1 < tags.length then (s.resolve tags (some dotted) []).map .scalar
  else if stats.isArray then
    match promotedName? promoted path, decide (stats.nonNullElementTags = [.object]) with
    | some name, true => .ok (.nestedList name)
    | _, _ =>
      (s.resolve stats.nonNullElementTags (some dotted) stats.elementNumbers).map .scalarList
  else if .object ∈ tags then
    match promotedName? promoted path with
    | some name => .ok (.nested name)
    | none => .ok (.scalar s.fallback.scalar)
  else .ok (.scalar (s.scalarOf (tags.headD .null) stats.numbers))

def fieldDefinition (r : Rounding) (s : Settings) (name : String) (stats : FieldStats)
    (path : List String) (scope : Int) (promoted : PromotedNames) : Except Failure FieldDefinition := do
  let required := s.isRequired r stats scope
  let base ← if s.isId name then .ok (.scalar .id) else s.baseType stats path promoted
  .ok ⟨name, base, required⟩

def fieldDefinitions (r : Rounding) (s : Settings) (fields : FieldMap) (path : List String) (scope : Int)
    (promoted : PromotedNames) : Except Failure (List FieldDefinition) :=
  fields.toList.mapM fun (name, stats, _) =>
    s.fieldDefinition r name stats (path ++ [name]) scope promoted

/-- The root type and all nested types; the nested ones are defined first. -/
def build (r : Rounding) (s : Settings) (fields : FieldMap) (rootName : String) (documents : Int) :
    Except Failure TypeDefinitions := do
  let (name, names) := NameRegistry.empty.register rootName
  let (plans, _) := s.plans r s.strategy name 0 [] fields names
  let promoted := plans.map fun plan => (plan.path, plan.name)
  let nested ← plans.mapM fun plan => do
    let definitions ← s.fieldDefinitions r plan.fields plan.path plan.frequency promoted
    .ok (⟨plan.name, definitions, true, some plan.parent, plan.depth, some plan.frequency⟩ : TypeDefinition)
  let definitions ← s.fieldDefinitions r fields [] documents promoted
  .ok ⟨⟨name, definitions, false, none, 0, none⟩, nested⟩

end Settings

/-- The greatest frequency of any field, which stands for the number of documents if that is unknown. -/
def FieldMap.greatestFrequency (m : FieldMap) : Nat :=
  m.frequencies.foldl max 0

end SchemaInference
