import SchemaInference.Journal
import SchemaInference.Journal.Line

set_option autoImplicit false

namespace SchemaInference

structure ErrorEntry where
  context : Value
  error : Raised
  shown : String

namespace ErrorEntry

def make (context : Value) (error : Raised) (shown : String) : ErrorEntry :=
  ⟨if context.truthy then context else .mapping [], error, shown⟩

def ofRaised (context : Value) (error : Raised) : Except ConversionError ErrorEntry :=
  error.fault.shown.map (make context error)

def failure? (e : ErrorEntry) : Option Failure :=
  match e.error.fault with
  | .failure f => some f
  | .foreign _ => none

def keyText : Value → String
  | .null => "null"
  | .bool true => "true"
  | .bool false => "false"
  | v => v.display

mutual

/-- A value as it is written down: texts as keys, lists as the only sequences, objects by their texts. -/
def plain : Value → Value
  | .scalar (.foreign name) => .text (Scalar.literal (.foreign name))
  | .scalar s => .scalar s
  | .list items => .list (plainItems items)
  | .tuple items => .list (plainItems items)
  | .mapping entries => .mapping (plainEntries entries)
  | .object name classes shown amount attributes =>
    .text (Value.object name classes shown amount attributes).display

def plainItems : List Value → List Value
  | [] => []
  | v :: rest => plain v :: plainItems rest

def plainEntries : List (Value × Value) → List (Value × Value)
  | [] => []
  | (k, v) :: rest => (.text (keyText k), plain v) :: plainEntries rest

end

def members (e : ErrorEntry) : List (String × Value) :=
  [("context", plain e.context), ("traceback", .text (Journal.trace e.error ++ "\n")),
    ("exc_str", .text e.shown)] ++ (e.failure?.map fun f => ("error", plain f.record)).toList

def note (id : String) (e : ErrorEntry) : Journal.Note :=
  ⟨.error, .logs, id ++ ": " ++ e.shown⟩

def unwrittenNote (path reason : String) : Journal.Note :=
  ⟨.error, .logs, "failed to write error log " ++ path ++ ": " ++ reason⟩

end ErrorEntry

end SchemaInference
