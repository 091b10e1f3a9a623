import SchemaInference.Sampling.Memory

set_option autoImplicit false

namespace SchemaInference

namespace Mongo

inductive CollectionCall
  | find (condition : Value)
  | sort (key : String) (direction : Int)
  | limit (n : Int)
  | toList (size : Nat)
  | distinct (key : Value)
  | command (request : Value)

structure Collection where
  name : String
  documents : List Value
  /-- Errors for the reads to come; none for a read that succeeds. -/
  failures : List (Option Raised)
  /-- Answers to questions about the charge of the last request. -/
  statistics : List (Except Raised Value)
  description : Except Raised Value
  calls : List CollectionCall

structure Cursor where
  rows : List Value

namespace Collection

def record (c : CollectionCall) (s : Collection) : Collection :=
  { s with calls := s.calls ++ [c] }

def takeFailure (s : Collection) : Option Raised × Collection :=
  (s.failures.headD none, { s with failures := s.failures.tail })

def valueAt? (document key : Value) : Option Value :=
  match document with
  | .mapping entries => (entries.find? fun entry => entry.1.same key).map (·.2)
  | _ => none

def meets (condition : List (Value × Value)) (document : Value) : Bool :=
  condition.all fun entry => (valueAt? document entry.1).any (Value.same entry.2)

def find (condition : List (Value × Value)) (s : Collection) : Except Raised Cursor × Collection :=
  let (failure, s) := (s.record (.find (.mapping condition))).takeFailure
  match failure with
  | some e => (.error e, s)
  | none => (.ok ⟨s.documents.filter (meets condition)⟩, s)

def sortLatest (key : String) (cursor : Cursor) (s : Collection) : Cursor × Collection :=
  (⟨latestFirst key cursor.rows⟩, s.record (.sort key (-1)))

def limit (n : Int) (cursor : Cursor) (s : Collection) : Cursor × Collection :=
  (⟨cursor.rows.take n.toNat⟩, s.record (.limit n))

def toList (size : Nat) (cursor : Cursor) (s : Collection) : List Value × Cursor × Collection :=
  (cursor.rows.take size, ⟨cursor.rows.drop size⟩, s.record (.toList size))

def distinct (key : Value) (s : Collection) : Except Raised (List Value) × Collection :=
  let (failure, s) := (s.record (.distinct key)).takeFailure
  match failure with
  | some e => (.error e, s)
  | none => (.ok (distinctValues (s.documents.filterMap fun d => valueAt? d key)), s)

/-- What the server says of a request once nothing is laid down any more. -/
def standardStatistics : Value :=
  .record [("RequestCharge", .real (.finite 1))]

def lastStatistics (s : Collection) : Except Raised Value × Collection :=
  let s := s.record (.command (.record [("getLastRequestStatistics", .whole 1)]))
  (s.statistics.headD (.ok standardStatistics), { s with statistics := s.statistics.tail })

def describe (s : Collection) : Except Raised Value × Collection :=
  let s := s.record (.command (.record [("customAction", .text "GetCollection"), ("collection", .text s.name)]))
  (s.description, s)

end Collection

end Mongo

end SchemaInference
