import SchemaInference.Mongo.Driver
import SchemaInference.Mongo.DriverError

/-!
# Sampling from a MongoDB collection

A client of a driver answers the queries of sampling from a collection, page by page, and asks the server
what each page took.  A server that does not know the question is not asked again.  A container is the
client of a collection in memory.
-/

set_option autoImplicit false

namespace SchemaInference

namespace Mongo

structure Client (δ : Type) where
  collection : δ
  pageSize : Nat
  tracksCharge : Bool

structure ClientFeed (κ : Type) where
  query : SampleQuery
  cursor : Option κ
  done : Bool

/-- A step in answering a query, which may fail and keeps the feed and the client as they are then. -/
abbrev Answering (δ κ : Type) := ExceptT Raised (StateM (ClientFeed κ × Client δ))

namespace Client

def noEntries (v : Value) (method : String) : Raised :=
  .ofPlain ⟨"AttributeError", [], "'" ++ v.typeName ++ "' object has no attribute '" ++ method ++ "'"⟩

def entryOf (answer : Value) (key : String) : Except Raised Value :=
  match answer with
  | .mapping entries => .ok ((Value.lookup? entries key).getD .null)
  | v => .error (noEntries v "get")

/-- The charge that an answer of the server states; nothing stated is nothing charged. -/
def statedCharge (answer : Value) : Except Raised Double := do
  let stated ← entryOf answer "RequestCharge"
  if !stated.truthy then .ok (.finite 0)
  else
    match stated with
    | .text s =>
      match Numeral.readDouble? .binary64 s with
      | some x => .ok x
      | none => .error (.ofConversion (.notDecimal s))
    | .scalar s =>
      match s.asNumber? with
      | some n => (n.toDouble .binary64).mapError Raised.ofConversion
      | none => .error (notReal stated)
    | v => .error (notReal v)
where
  notReal (v : Value) : Raised :=
    .ofPlain (.ofType ("float() argument must be a string or a real number, not '" ++ v.typeName ++ "'"))

def describedPath (description : Value) : Except Raised (Option String) := do
  let definition ← entryOf description "shardKeyDefinition"
  match definition with
  | .mapping [] => .ok none
  | .mapping ((key, _) :: _) => .ok (some ("/" ++ key.display))
  | other => if other.truthy then .error (noEntries other "keys") else .ok none

variable {δ κ α : Type} (driver : Driver δ κ)

/-- The charge of the last request as the server tells it; one that refuses is not asked again. -/
def askCharge (c : Client δ) : Except Raised Double × Client δ :=
  let (answer, collection) := driver.lastStatistics c.collection
  let c := { c with collection }
  match answer with
  | .ok v => (statedCharge v, c)
  | .error e => if isRefusal e then (.ok (.finite 0), { c with tracksCharge := false }) else (.error e, c)

def lastCharge (c : Client δ) : Except Raised Double × Client δ :=
  if !c.tracksCharge then (.ok (.finite 0), c) else askCharge driver c

def partitionPath (c : Client δ) : Except Raised (Option String) × Client δ :=
  let (answer, collection) := driver.describe c.collection
  let path : Except Raised (Option String) :=
    match answer with
    | .error e => if isRefusal e then .ok none else .error e
    | .ok v => describedPath v
  (path, { c with collection })

def onClient (step : Client δ → Except Raised α × Client δ) : Answering δ κ α :=
  fun (feed, c) =>
    let (answer, c) := step c
    (answer, feed, c)

def ask (call : δ → Except Raised α × δ) : Answering δ κ α :=
  onClient fun c =>
    let (answer, collection) := call c.collection
    (answer, { c with collection })

def keep (cursor : κ) : Answering δ κ Unit :=
  modify fun (feed, c) => ({ feed with cursor := some cursor }, c)

def inOrder (q : SampleQuery) (cursor : κ) : Answering δ κ κ :=
  if q.kind = .recent then ask (driver.sortLatest "_ts" cursor) else pure cursor

def withinLimit (q : SampleQuery) (cursor : κ) : Answering δ κ κ :=
  match q.effectiveLimit? with
  | some n => ask (driver.limit n cursor)
  | none => pure cursor

def openCursor (q : SampleQuery) : Answering δ κ κ := do
  let condition := if q.kind = .partition then [(Value.ofText? q.field, q.value)] else []
  let found ← ask (driver.find condition)
  keep found
  let ordered ← inOrder driver q found
  keep ordered
  let limited ← withinLimit driver q ordered
  keep limited
  return limited

def cursorOf (feed : ClientFeed κ) : Answering δ κ κ :=
  feed.cursor.elim (openCursor driver feed.query) pure

/-- Reads a page of an open cursor; one that is not full is the last. -/
def readPage (cursor : κ) : Answering δ κ (List Value) := do
  let (_, c) ← get
  let (rows, cursor) ← ask (driver.toList c.pageSize cursor)
  modify fun (feed, c) =>
    ({ feed with cursor := some cursor, done := feed.done || decide (rows.length < c.pageSize) }, c)
  return rows

/-- The rows of the next page; all distinct values come on one page. -/
def nextRows : Answering δ κ (List Value) := do
  let (feed, _) ← get
  if feed.query.kind = .distinct then
    modify fun (feed, c) => ({ feed with done := true }, c)
    ask (driver.distinct (Value.ofText? feed.query.field))
  else
    let cursor ← cursorOf driver feed
    readPage driver cursor

def nextPage : Answering δ κ FeedPage := do
  let rows ← nextRows driver
  let charge ← onClient (lastCharge driver)
  return ⟨rows, .real charge⟩

def fetch (feed : ClientFeed κ) (c : Client δ) : Except Raised FeedPage × ClientFeed κ × Client δ :=
  let (page, feed, c) := (nextPage driver).run (feed, c)
  (page.mapError restated, feed, c)

def start (q : SampleQuery) (c : Client δ) : ClientFeed κ × Client δ :=
  (⟨q, none, false⟩, c)

def store : Store (Client δ) (ClientFeed κ) where
  start := start
  hasMore feed := !feed.done
  fetch := fetch driver
  bound _ c := driver.bound c.collection
  partitionPath := some (partitionPath driver)

end Client

abbrev Container := Client Collection

abbrev Feed := ClientFeed Cursor

namespace Container

def standardPageSize : Nat := 100

def lastCharge (c : Container) : Except Raised Double × Container :=
  Client.lastCharge Collection.driver c

def partitionPath (c : Container) : Except Raised (Option String) × Container :=
  Client.partitionPath Collection.driver c

def start (q : SampleQuery) (c : Container) : Feed × Container :=
  Client.start q c

def fetch (feed : Feed) (c : Container) : Except Raised FeedPage × Feed × Container :=
  Client.fetch Collection.driver feed c

def store : Store Container Feed :=
  Client.store Collection.driver

end Container

end Mongo

end SchemaInference
