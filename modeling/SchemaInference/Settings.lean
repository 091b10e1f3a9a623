import SchemaInference.Naming.Strategy
import SchemaInference.Pattern.Reader

set_option autoImplicit false

namespace SchemaInference

inductive ConflictPolicy
  | widen
  | union
  | error
deriving DecidableEq, Inhabited

inductive ObjectFallback
  | json
  | string
deriving DecidableEq, Inhabited

inductive NumberPolicy
  | strict
  | float
deriving DecidableEq, Inhabited

inductive NamingStyle
  | hierarchical
  | flat
  | short
  | custom
deriving DecidableEq, Inhabited

namespace ConflictPolicy

def name : ConflictPolicy → String
  | widen => "widen"
  | union => "union"
  | error => "error"

def all : List ConflictPolicy := [widen, union, error]

end ConflictPolicy

namespace ObjectFallback

def name : ObjectFallback → String
  | json => "JSON"
  | string => "String"

def all : List ObjectFallback := [json, string]

end ObjectFallback

namespace NumberPolicy

def name : NumberPolicy → String
  | strict => "strict"
  | float => "float"

def all : List NumberPolicy := [strict, float]

end NumberPolicy

namespace NamingStyle

def name : NamingStyle → String
  | hierarchical => "hierarchical"
  | flat => "flat"
  | short => "short"
  | custom => "custom"

def all : List NamingStyle := [hierarchical, flat, short, custom]

end NamingStyle

structure StabilityThresholds where
  /-- A sub-field below this share of the containing objects is sparse. -/
  fieldStability : Double
  /-- The share of sparse sub-fields allowed near the root. -/
  shallowPolymorphic : Double
  deepPolymorphic : Double
  shallowDepthLimit : Int
  /-- The share of the containing objects that the most frequent sub-field must reach from a depth on. -/
  dominantMinRatio : Double
  dominantMinDepth : Int
deriving DecidableEq, Inhabited

namespace StabilityThresholds

def standard : StabilityThresholds where
  fieldStability := .ofRat .binary64 (1 / 2)
  shallowPolymorphic := .ofRat .binary64 1
  deepPolymorphic := .ofRat .binary64 (3 / 10)
  shallowDepthLimit := 1
  dominantMinRatio := .ofRat .binary64 (4 / 10)
  dominantMinDepth := 2

def polymorphic (t : StabilityThresholds) (depth : Int) : Double :=
  if depth ≤ t.shallowDepthLimit then t.shallowPolymorphic else t.deepPolymorphic

end StabilityThresholds

structure IdPattern where
  source : WideText
  expr : Pattern.Expr

namespace IdPattern

def read (source : WideText) : Except Pattern.Defect IdPattern :=
  (Pattern.read source).map fun expr => ⟨source, expr⟩

def accepts (p : IdPattern) (name : String) : Bool :=
  p.expr.matchesAll name

def standardSources : List String :=
  ["id", "_id", "pk", "key", "uuid", "guid"]

def standard : List IdPattern :=
  standardSources.filterMap fun (source : String) => (read source).toOption

end IdPattern

structure Settings where
  sampleSize : Nat
  /-- The share of objects that must hold a field for it to be required. -/
  requiredThreshold : Double
  conflicts : ConflictPolicy
  idPatterns : List IdPattern
  maxDepth : Nat
  fallback : ObjectFallback
  numbers : NumberPolicy
  naming : NamingStyle
  template : Option Template
  stability : StabilityThresholds

namespace Settings

def standard : Settings where
  sampleSize := 500
  requiredThreshold := .ofRat .binary64 (95 / 100)
  conflicts := .widen
  idPatterns := IdPattern.standard
  maxDepth := 10
  fallback := .json
  numbers := .strict
  naming := .hierarchical
  template := none
  stability := .standard

def isId (s : Settings) (name : String) : Bool :=
  s.idPatterns.any (·.accepts name)

/-- The strategy that names nested types: the template if there is one. -/
def strategy (s : Settings) : NamingStrategy :=
  match s.template, s.naming with
  | some t, _ => .template t
  | none, .flat => .flat
  | none, .short => .short
  | none, _ => .hierarchical

end Settings

end SchemaInference
