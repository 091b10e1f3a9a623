import SchemaInference.Document.Graph

set_option autoImplicit false

namespace SchemaInference

/-- The kinds of values; `named` stands for a kind that only hand-made statistics mention. -/
inductive Tag
  | string
  | number
  | boolean
  | null
  | object
  | array
  | named (name : String)
deriving DecidableEq, Inhabited

namespace Tag

def name : Tag → String
  | string => "string"
  | number => "number"
  | boolean => "boolean"
  | null => "null"
  | object => "object"
  | array => "array"
  | named name => name

def ofName (name : String) : Tag :=
  if name = "string" then string
  else if name = "number" then number
  else if name = "boolean" then boolean
  else if name = "null" then null
  else if name = "object" then object
  else if name = "array" then array
  else named name

/-- The tag of a scalar; a value of a foreign type counts as text. -/
def ofScalar : Scalar → Tag
  | .null => null
  | .bool _ => boolean
  | .number _ => number
  | .text _ => string
  | .foreign _ => string

end Tag

def Graph.tag (g : Graph) (item : Item) : Tag :=
  match item with
  | .scalar s => .ofScalar s
  | .node _ => if g.isMapping item then .object else .array

/-- The number that an item is; truth values are none, nor is what is no number. -/
def Item.number? : Item → Option Number
  | .scalar (.number (.real .nan)) => none
  | .scalar (.number n) => some n
  | _ => none

abbrev TagSet := List Tag

namespace TagSet

def add (tags : TagSet) (tag : Tag) : TagSet :=
  if tag ∈ tags then tags else tags ++ [tag]

def ofList (tags : List Tag) : TagSet :=
  tags.foldl add []

def nonNull (tags : TagSet) : TagSet :=
  tags.filter (· ≠ .null)

def names (tags : TagSet) : List String :=
  (tags.map Tag.name).mergeSort fun a b => !decide (b < a)

end TagSet

end SchemaInference
