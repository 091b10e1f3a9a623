/-!
# Errors and their classes

What an error is does not follow from the name of its type: a type belongs to classes, and a program asks
for the class.  An error carries the classes that somebody may ask about.
-/

set_option autoImplicit false

namespace SchemaInference

/-- The families of a database driver's errors, which exclude each other. -/
inductive Mongo.ErrorFamily
  | executionTimeout
  | operationFailure
  | networkTimeout
  | connectionFailure
  | other
deriving DecidableEq

inductive ErrorClass
  /-- It stops a run from outside, and is no ordinary error. -/
  | interruption
  | system
  | timeout
  | connection
  | key
  | value
  | overflow
  | driver (family : Mongo.ErrorFamily)
deriving DecidableEq

structure PlainError where
  typeName : String
  classes : List ErrorClass
  message : String
deriving DecidableEq, Inhabited

namespace PlainError

def isA (e : PlainError) (c : ErrorClass) : Bool :=
  e.classes.contains c

def ofType (message : String) : PlainError := ⟨"TypeError", [], message⟩

def ofValue (message : String) : PlainError := ⟨"ValueError", [.value], message⟩

def ofOverflow (message : String) : PlainError := ⟨"OverflowError", [.overflow], message⟩

end PlainError

inductive ConversionError
  | integerTooLarge
  | infinityAsInteger
  | nanAsInteger
  | divisionByZero
  | notDecimal (text : String)
  | notWhole (text : String)
  | tooManyDigits (count : Nat)
  | tooLongToWrite
  /-- The value is of a kind that denotes no number. -/
  | wrongKind
  | dateTooLarge (message : String)
  | offsetTooLarge
  /-- The code that was asked to convert has failed in its own way. -/
  | foreign (e : PlainError)
deriving DecidableEq, Inhabited

end SchemaInference
