import SchemaInference.Number.Decimal

set_option autoImplicit false

namespace SchemaInference

inductive Scalar
  | null
  | bool (b : Bool)
  | number (n : Number)
  | text (s : String)
  /-- A value of a type that documents know nothing about, such as a date. -/
  | foreign (typeName : String)
deriving DecidableEq, Inhabited

/-- A tree of values.  The keys of a mapping are values too, and their order counts. -/
inductive Value
  | scalar (s : Scalar)
  | list (items : List Value)
  | tuple (items : List Value)
  | mapping (entries : List (Value × Value))
  /-- An object of some other program, seen through its text, the number that it counts as if it does, and its
  attributes.  Its text and its number may fail to be had. -/
  | object (typeName : String) (classes : List ErrorClass) (shown : Except ConversionError String)
    (amount : Except ConversionError (Option Double)) (attributes : List (String × Value))
deriving Inhabited

namespace Value

@[match_pattern] abbrev null : Value := scalar .null
@[match_pattern] abbrev bool (b : Bool) : Value := scalar (.bool b)
@[match_pattern] abbrev number (n : Number) : Value := scalar (.number n)
@[match_pattern] abbrev whole (i : Int) : Value := scalar (.number (.whole i))
@[match_pattern] abbrev real (x : Double) : Value := scalar (.number (.real x))
@[match_pattern] abbrev text (s : String) : Value := scalar (.text s)

def record (entries : List (String × Value)) : Value :=
  mapping (entries.map fun (k, v) => (text k, v))

def ofText? : Option String → Value
  | some s => text s
  | none => null

def isNull : Value → Bool
  | null => true
  | _ => false

def isMapping : Value → Bool
  | mapping _ => true
  | _ => false

end Value

namespace Scalar

def typeName : Scalar → String
  | null => "NoneType"
  | bool _ => "bool"
  | number (.whole _) => "int"
  | number (.real _) => "float"
  | text _ => "str"
  | foreign name => name

def truthy : Scalar → Bool
  | null => false
  | bool b => b
  | number n => !n.isZero
  | text s => !s.isEmpty
  | foreign _ => true

def asNumber? : Scalar → Option Number
  | bool b => some (.whole (if b then 1 else 0))
  | number n => some n
  | _ => none

/-- Equality of contents: numbers and truth values by their amount, texts by their characters. -/
def same (x y : Scalar) : Bool :=
  match x.asNumber?, y.asNumber? with
  | some a, some b => a.eq b
  | none, none => x == y
  | _, _ => false

end Scalar

namespace Value

def typeName : Value → String
  | scalar s => s.typeName
  | list _ => "list"
  | tuple _ => "tuple"
  | mapping _ => "dict"
  | object name _ _ _ _ => name

def truthy : Value → Bool
  | scalar s => s.truthy
  | list items => !items.isEmpty
  | tuple items => !items.isEmpty
  | mapping entries => !entries.isEmpty
  | object _ _ _ _ _ => true

mutual

def same : Value → Value → Bool
  | scalar s, scalar t => s.same t
  | list xs, list ys => sameItems xs ys
  | tuple xs, tuple ys => sameItems xs ys
  | mapping xs, mapping ys => xs.length == ys.length && sameEntries xs ys
  | _, _ => false

def sameItems : List Value → List Value → Bool
  | [], [] => true
  | x :: xs, y :: ys => same x y && sameItems xs ys
  | _, _ => false

def sameEntries : List (Value × Value) → List (Value × Value) → Bool
  | [], _ => true
  | (k, v) :: rest, ys => (ys.any fun entry => same k entry.1 && same v entry.2) && sameEntries rest ys

end

def lookup? (entries : List (Value × Value)) (key : String) : Option Value :=
  match entries with
  | [] => none
  | (text k, v) :: rest => if k = key then some v else lookup? rest key
  | _ :: rest => lookup? rest key

/-- Adds an entry; an equal key keeps its position and takes the new value. -/
def insert (entries : List (Value × Value)) (key value : Value) : List (Value × Value) :=
  match entries with
  | [] => [(key, value)]
  | (k, v) :: rest => if same k key then (k, value) :: rest else (k, v) :: insert rest key value

end Value

end SchemaInference
