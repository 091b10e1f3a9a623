import SchemaInference.Error
import SchemaInference.Settings.Options

/-!
# Declared settings and their validation

A record of settings is declared field by field: the name of its option, its type with its bounds, and its
default.  What turns options into such a record is not part of the program, which knows no more of it than
that it may be called with a declaration.
-/

set_option autoImplicit false

namespace SchemaInference

inductive Refusal
  /-- The value is wrong, which is gathered with all other problems. -/
  | message (text : String)
  | raised (e : PlainError)

inductive LowerBound
  | above (n : Nat)
  | atLeast (n : Nat)

def LowerBound.Holds (n : Nat) : LowerBound → Prop
  | above least => least < n
  | atLeast least => least ≤ n

inductive GivenPattern
  | text (source : WideText)
  | read (source : WideText)

def GivenPattern.source : GivenPattern → WideText
  | text source => source
  | read source => source

mutual

inductive FieldKind : Type → Type 1
  | integer : FieldKind Int
  | natural (bound : LowerBound) : FieldKind Nat
  | double (least most : Option Nat) : FieldKind Double
  | truth : FieldKind Bool
  | choice {α : Type} (all : List α) (name : α → String) : FieldKind α
  | function : FieldKind Template
  | pattern : FieldKind GivenPattern
  | optional {α : Type} (kind : FieldKind α) : FieldKind (Option α)
  | list {α : Type} (item : FieldKind α) : FieldKind (List α)
  | checked {α β : Type} (kind : FieldKind α) (validator : α → Except Refusal β) : FieldKind β
  | record {α : Type} (typeName : String) (fields : Fields α) : FieldKind α

inductive Fields : Type → Type 1
  | made {α : Type} (a : α) : Fields α
  | field {α β : Type} (earlier : Fields (β → α)) (name : String) (kind : FieldKind β) (standard : β) : Fields α

end

def Fields.names : {α : Type} → Fields α → List String
  | _, made _ => []
  | _, field earlier name _ _ => earlier.names ++ [name]

structure OptionProblem where
  place : List String
  message : String

inductive ValidationFault
  | problems (ps : List OptionProblem)
  | raised (e : PlainError)

/-- A validation library: it makes a record from options as the fields are declared, with a last validator for
the record as a whole. -/
structure Validation where
  build {α : Type} (fields : Fields α) (validator : α → Except Refusal Unit) (options : Options) :
    Except ValidationFault α

end SchemaInference
