import SchemaInference.Number.Numeral
import SchemaInference.Value
import SchemaInference.Text.Quoted

set_option autoImplicit false

namespace SchemaInference

namespace Scalar

def literal : Scalar → String
  | null => "None"
  | bool true => "True"
  | bool false => "False"
  | number n => n.text
  | text s => Text.quoted s
  | foreign name => "<" ++ name ++ ">"

end Scalar

def commaSeparated (items : List String) : String :=
  ", ".intercalate items

namespace Value

mutual

def literal : Value → String
  | scalar s => s.literal
  | list items => "[" ++ commaSeparated (literals items) ++ "]"
  | tuple [item] => "(" ++ literal item ++ ",)"
  | tuple items => "(" ++ commaSeparated (literals items) ++ ")"
  | mapping entries => "\x7b" ++ commaSeparated (entryLiterals entries) ++ "\x7d"
  | object name _ _ _ _ => "<" ++ name ++ ">"

def literals : List Value → List String
  | [] => []
  | v :: rest => literal v :: literals rest

def entryLiterals : List (Value × Value) → List String
  | [] => []
  | (k, v) :: rest => (literal k ++ ": " ++ literal v) :: entryLiterals rest

end

def display : Value → String
  | text s => s
  | object name _ shown _ _ => shown.toOption.getD ("<" ++ name ++ ">")
  | v => v.literal

mutual

def isWritable : Value → Bool
  | whole i => Numeral.isWritable i
  | scalar _ => true
  | list items => areWritable items
  | tuple items => areWritable items
  | mapping entries => areEntriesWritable entries
  | object _ _ _ _ _ => true

def areWritable : List Value → Bool
  | [] => true
  | v :: rest => isWritable v && areWritable rest

def areEntriesWritable : List (Value × Value) → Bool
  | [] => true
  | (k, v) :: rest => isWritable k && isWritable v && areEntriesWritable rest

end

def ifWritable (v : Value) (text : String) : Except ConversionError String :=
  if v.isWritable then .ok text else .error .tooLongToWrite

def written : Value → Except ConversionError String
  | object _ _ shown _ _ => shown
  | v => v.ifWritable v.display

end Value

end SchemaInference
