import SchemaInference.Failure
import SchemaInference.Naming.Word

set_option autoImplicit false

namespace SchemaInference

structure Template where
  name : (parent field : String) → (depth : Nat) → String
  shown : String

inductive NamingStrategy
  | hierarchical
  | flat
  | short
  | template (t : Template)

namespace NamingStrategy

def typeName (strategy : NamingStrategy) (parent field : String) (depth : Nat) (isArray : Bool) : String :=
  match strategy with
  | hierarchical => parent ++ Word.capitalize field
  | flat =>
    if isArray && decide (2 < depth) then Word.initials parent ++ Word.capitalize field
    else Word.capitalize field
  | short =>
    if 3 < depth then Word.abbreviate parent ++ Word.abbreviate (Word.capitalize field)
    else if 1 < depth then Word.initials parent ++ Word.capitalize field
    else parent ++ Word.capitalize field
  | template t => t.name parent field depth

/-- The name that a strategy asks for; the built-in strategies name the elements of an array in the singular. -/
def generate (strategy : NamingStrategy) (parent field : String) (depth : Nat) (isArray : Bool) : String :=
  match strategy with
  | template t => t.name parent field depth
  | _ => strategy.typeName parent (if isArray then Word.singularize field else field) depth isArray

/-- The strategy of a given name, a template going before any name. -/
def ofName (name : String) (given : Option Template) : Except Failure NamingStrategy :=
  match given with
  | some t => .ok (template t)
  | none =>
    if name = "hierarchical" then .ok hierarchical
    else if name = "flat" then .ok flat
    else if name = "short" then .ok short
    else .error (.configuration ("Unknown naming strategy: " ++ name) "naming"
      [("valid_strategies", .list [.text "flat", .text "hierarchical", .text "short"])])

end NamingStrategy

end SchemaInference
