import SchemaInference.Field.Conflict
import SchemaInference.Settings

set_option autoImplicit false

namespace SchemaInference

inductive ScalarType
  | string
  | int
  | float
  | boolean
  | id
  | json
deriving DecidableEq, Inhabited

namespace ScalarType

def name : ScalarType → String
  | string => "String"
  | int => "Int"
  | float => "Float"
  | boolean => "Boolean"
  | id => "ID"
  | json => "JSON"

end ScalarType

/-- The type of a field, whether it is required apart. -/
inductive FieldType
  | scalar (s : ScalarType)
  | scalarList (s : ScalarType)
  | nested (name : String)
  | nestedList (name : String)
deriving DecidableEq, Inhabited

namespace FieldType

def text : FieldType → String
  | scalar s => s.name
  | scalarList s => "[" ++ s.name ++ "]"
  | nested name => name
  | nestedList name => "[" ++ name ++ "]"

def nestedName? : FieldType → Option String
  | nested name => some name
  | nestedList name => some name
  | _ => none

end FieldType

def fitsInt (i : Int) : Bool :=
  decide (-0x80000000 ≤ i ∧ i ≤ 0x7fffffff)

def Number.isInt : Number → Bool
  | whole i => fitsInt i
  | real x => x.whole?.any fitsInt

def ObjectFallback.scalar : ObjectFallback → ScalarType
  | json => .json
  | string => .string

namespace Settings

def numberType (s : Settings) (samples : List Number) : ScalarType :=
  if s.numbers = .float ∨ samples.isEmpty then .float
  else if samples.all Number.isInt then .int else .float

def scalarOf (s : Settings) (tag : Tag) (samples : List Number) : ScalarType :=
  match tag with
  | .number => s.numberType samples
  | .boolean => .boolean
  | .object => s.fallback.scalar
  | _ => .string

def resolve (s : Settings) (tags : TagSet) (fieldName : Option String) (samples : List Number) :
    Except Failure ScalarType :=
  match tags.nonNull with
  | [] => .ok .string
  | [tag] => .ok (s.scalarOf tag samples)
  | several =>
    if s.conflicts = .error then .error (.typeConflict (several.map Tag.name) fieldName)
    else .ok .string

/-- Whether the field is in every object but for a share allowed to lack it. -/
def isRequired (r : Rounding) (s : Settings) (stats : FieldStats) (scope : Int) : Bool :=
  if stats.isNullable || Tag.null ∈ stats.tags then false
  else if scope ≤ 0 then false
  else Double.le s.requiredThreshold (.ofRat r ((stats.frequency : Rat) / scope))

end Settings

end SchemaInference
