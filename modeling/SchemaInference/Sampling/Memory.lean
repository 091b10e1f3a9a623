import SchemaInference.Sampling.Store

set_option autoImplicit false

namespace SchemaInference

/-- Rows in pages of a size; the last page may be smaller, and without rows there is one empty page. -/
def pagesOf (size : Nat) (rows : List Value) : List (List Value) :=
  if rows.isEmpty then [[]] else cut rows.length rows
where
  cut : Nat → List Value → List (List Value)
    | 0, _ => []
    | _ + 1, [] => []
    | fuel + 1, rows => rows.take (max 1 size) :: cut fuel (rows.drop (max 1 size))

def Value.numberUnder (v : Value) (key : String) : Number :=
  let found := match v with
    | .mapping entries => lookup? entries key
    | _ => none
  match found with
  | some (.scalar s) => s.asNumber?.getD (.whole 0)
  | _ => .whole 0

def distinctValues (values : List Value) : List Value :=
  values.foldl (fun seen v => if seen.any (Value.same v) then seen else seen ++ [v]) []

def Value.valueUnder? (v : Value) (key : String) : Option Value :=
  match v with
  | mapping entries => lookup? entries key
  | _ => none

def latestFirst (key : String) (documents : List Value) : List Value :=
  documents.mergeSort fun a b => !Number.lt (a.numberUnder key) (b.numberUnder key)

structure MemoryStore where
  documents : List Value
  pageSize : Nat
  charge : Value
  /-- Errors for the queries to come; none for a query that succeeds. -/
  failures : List (Option Raised)
  queries : List SampleQuery

namespace MemoryStore

def rowsOf (s : MemoryStore) (q : SampleQuery) : List Value :=
  let field := q.field.getD ""
  let found := match q.kind with
    | .recent => latestFirst "_ts" s.documents
    | .distinct => distinctValues (s.documents.filterMap (·.valueUnder? field))
    | .partition => s.documents.filter fun d => (d.valueUnder? field).any (Value.same q.value)
    | _ => s.documents
  match q.kind, q.effectiveLimit? with
  | .distinct, _ => found
  | _, some n => found.take n.toNat
  | _, none => found

def answer (q : SampleQuery) (s : MemoryStore) : PageFeed × MemoryStore :=
  let asked := { s with failures := s.failures.tail, queries := s.queries ++ [q] }
  match s.failures.headD none with
  | some e => ([.error e], asked)
  | none => ((pagesOf s.pageSize (s.rowsOf q)).map fun rows => .ok ⟨rows, s.charge⟩, asked)

def store (tells : Bool) (path : Option String) : Store MemoryStore PageFeed :=
  .ofPages answer (if tells then some fun s => (.ok path, s) else none)

end MemoryStore

structure FeedStore where
  feeds : List PageFeed
  queries : List SampleQuery

namespace FeedStore

def answer (q : SampleQuery) (s : FeedStore) : PageFeed × FeedStore :=
  (s.feeds.headD [], ⟨s.feeds.tail, s.queries ++ [q]⟩)

def store (path : Option String) : Store FeedStore PageFeed :=
  .ofPages answer (some fun s => (.ok path, s))

end FeedStore

end SchemaInference
