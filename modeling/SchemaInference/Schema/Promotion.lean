import SchemaInference.Naming.Registry
import SchemaInference.Schema.FieldType

/-!
# Promotion of nested objects

Objects inside documents become types of their own when they look like structures rather than loose
bags of keys; arrays of objects always do.  A type is named before the types below it, and listed after
them.
-/

set_option autoImplicit false

namespace SchemaInference

/-- Whether objects with sub-fields of these frequencies look like a structure; `depth` is the depth
that their type would have. -/
def StabilityThresholds.accepts (r : Rounding) (t : StabilityThresholds) (frequencies : List Nat)
    (containing : Int) (depth : Int) : Bool :=
  if frequencies.isEmpty || decide (containing ≤ 0) then false
  else
    let whole := Double.ofRat r containing
    let floor := Double.mul r whole t.fieldStability
    let sparse := (frequencies.filter fun (f : Nat) => Double.lt (.finite (f : Rat)) floor).length
    if Double.lt (t.polymorphic depth) (.ofRat r ((sparse : Rat) / frequencies.length)) then false
    else if t.dominantMinDepth ≤ depth then
      !Double.lt (.finite ((frequencies.foldl max 0 : Nat) : Rat)) (Double.mul r whole t.dominantMinRatio)
    else true

structure NestedPlan where
  name : String
  fields : FieldMap
  parent : String
  depth : Nat
  /-- The number of objects that the type's fields are counted against. -/
  frequency : Nat
  path : List String
  isArray : Bool

structure Promotion where
  isArray : Bool
  scope : Nat
deriving DecidableEq

namespace FieldMap

def frequencies (m : FieldMap) : List Nat :=
  m.toList.map fun entry => entry.2.1.frequency

end FieldMap

namespace Settings

def isObjectArray (stats : FieldStats) (nested : FieldMap) : Bool :=
  stats.isArray && !nested.isEmpty && stats.nonNullElementTags == [.object]

def promotion? (r : Rounding) (s : Settings) (name : String) (stats : FieldStats) (nested : FieldMap)
    (depth : Nat) : Option Promotion :=
  if nested.isEmpty || s.isId name || decide (1 < stats.nonNullTags.length) then none
  else if isObjectArray stats nested then some ⟨true, stats.scopeSize⟩
  else if .object ∈ stats.tags ∧ ¬ stats.isArray ∧
      s.stability.accepts r nested.frequencies stats.frequency depth then
    some ⟨false, stats.frequency⟩
  else none

/-- The nested types of the fields of a type, and the names handed out by then.  The type itself has
the given name, depth and path. -/
def plans (r : Rounding) (s : Settings) (strategy : NamingStrategy) (parent : String) (depth : Nat)
    (path : List String) : FieldMap → NameRegistry → List NestedPlan × NameRegistry
  | .empty, names => ([], names)
  | .field name stats nested rest, names =>
    if s.maxDepth ≤ depth then ([], names)
    else
      match s.promotion? r name stats nested (depth + 1) with
      | none => plans r s strategy parent depth path rest names
      | some p =>
        let (typeName, names) := names.register (strategy.generate parent name (depth + 1) p.isArray)
        let here := path ++ [name]
        let (inner, names) := plans r s strategy typeName (depth + 1) here nested names
        let plan : NestedPlan :=
          { name := typeName
            fields := nested
            parent
            depth := depth + 1
            frequency := p.scope
            path := here
            isArray := p.isArray }
        let (later, names) := plans r s strategy parent depth path rest names
        (inner ++ plan :: later, names)

end Settings

end SchemaInference
