import SchemaInference.Mongo.Container
import SchemaInference.Proofs.Failure.Steps
import SchemaInference.Proofs.Number.Comparison
import Mathlib.Data.List.Perm.Basic

/-!
# Pages of a collection

A client reads pages of one size from a cursor until one of them is not full.  Every page takes rows from the
front of those that are still to come, so the pages put together are all the rows; and where the rows just fill
their pages, an empty one comes after them.  The distinct values of a field come on one page of any size.
-/

set_option autoImplicit false

namespace SchemaInference

inductive Store.ReadsOut {σ φ : Type} (store : Store σ φ) : φ → σ → List FeedPage → Prop
  | ended {feed : φ} {s : σ} (hmore : store.hasMore feed = false) : store.ReadsOut feed s []
  | page {feed next : φ} {s t : σ} {page : FeedPage} {pages : List FeedPage} (hmore : store.hasMore feed = true)
    (hfetch : store.fetch feed s = (.ok page, next, t)) (hrest : store.ReadsOut next t pages) :
    store.ReadsOut feed s (page :: pages)

theorem Store.ReadsOut.unique {σ φ : Type} {store : Store σ φ} {feed : φ} {s : σ} {pages other : List FeedPage}
    (h : store.ReadsOut feed s pages) (hother : store.ReadsOut feed s other) : other = pages := by
  induction h generalizing other with
  | ended hmore =>
    cases hother with
    | ended => rfl
    | page hmore' => cases hmore.symm.trans hmore'
  | page hmore hfetch _ ih =>
    cases hother with
    | ended hmore' => cases hmore.symm.trans hmore'
    | page _ hfetch' hrest =>
      cases hfetch.symm.trans hfetch'
      rw [ih hrest]

/-- Pages of a size at most with the rows in order, one page more than the rows fill. -/
structure PagesInto (size : Nat) (rows : List Value) (pages : List FeedPage) : Prop where
  rows_eq : pages.flatMap (·.rows) = rows
  length_le : ∀ page ∈ pages, page.rows.length ≤ size
  length_eq : pages.length = rows.length / size + 1

namespace PagesInto

variable {size : Nat} {rows : List Value} {page : FeedPage} {pages : List FeedPage}

theorem last (hpage : page.rows = rows.take size) (hshort : rows.length < size) : PagesInto size rows [page] where
  rows_eq := by
    rw [List.flatMap_singleton, hpage]
    exact List.take_of_length_le (Nat.le_of_lt hshort)
  length_le := by
    rw [List.forall_mem_singleton, hpage]
    exact List.length_take_le size rows
  length_eq := by rw [Nat.div_eq_of_lt hshort, List.length_singleton]

theorem full (hpage : page.rows = rows.take size) (hpos : 0 < size) (hlong : size ≤ rows.length)
    (h : PagesInto size (rows.drop size) pages) : PagesInto size rows (page :: pages) where
  rows_eq := by rw [List.flatMap_cons, h.rows_eq, hpage, List.take_append_drop]
  length_le := by
    rw [List.forall_mem_cons, hpage]
    exact ⟨List.length_take_le size rows, h.length_le⟩
  length_eq := by
    rw [List.length_cons, h.length_eq, List.length_drop, Nat.div_eq_sub_div hpos hlong]

end PagesInto

namespace Mongo

structure Reading where
  documents : List Value
  accepts : Value → Prop
  holds : Value → Value → Value → Bool
  older : Value → Value → Prop
  values : Value → List Value
  /-- The rows that a limit leaves; a negative one has a meaning of the driver's own. -/
  cut : Int → List Value → List Value
  cut_of_pos : ∀ n rows, 0 < n → cut n rows = rows.take n.toNat

namespace Reading

variable (reading : Reading)

def found (q : SampleQuery) : List Value :=
  if q.kind = .partition then reading.documents.filter (reading.holds (Value.ofText? q.field) q.value)
  else reading.documents

def Orders (q : SampleQuery) (rows ordered : List Value) : Prop :=
  if q.kind = .recent then ordered.Perm rows ∧ ordered.Pairwise fun a b => ¬ reading.older a b
  else ordered = rows

def limited (q : SampleQuery) (rows : List Value) : List Value :=
  match q.effectiveLimit? with
  | some n => reading.cut n rows
  | none => rows

/-- The rows of a query.  Distinct values are not limited. -/
def Answers (q : SampleQuery) (rows : List Value) : Prop :=
  if q.kind = .distinct then rows = reading.values (Value.ofText? q.field)
  else ∃ ordered, reading.Orders q (reading.found q) ordered ∧ rows = reading.limited q ordered

def Allows (q : SampleQuery) : Prop :=
  q.kind = .partition ∨ q.kind = .distinct → reading.accepts (Value.ofText? q.field)

end Reading

variable {δ κ α : Type}

/-- Where the driver is ready the call succeeds with such a value, and the driver is ready for the next one. -/
def Responds (ready : δ → Prop) (call : δ → Except Raised α × δ) (value : α → Prop) : Prop :=
  ∀ s, ready s → ∃ x t, call s = (.ok x, t) ∧ value x ∧ ready t

def TellsCharge : Except Raised Value → Prop
  | .ok answer => ∃ charge, Client.statedCharge answer = .ok charge
  | .error e => isRefusal e = true

/-- The driver does as documented: a cursor stands before the rows that are still to come, and as many of them
are taken as are asked for. -/
structure Driver.Reads (driver : Driver δ κ) (reading : Reading) (ready : δ → Prop) (pending : κ → List Value) :
    Prop where
  find : ∀ condition, (∀ entry ∈ condition, reading.accepts entry.1) → Responds ready (driver.find condition)
    fun cursor => pending cursor =
      reading.documents.filter fun document => condition.all fun entry => reading.holds entry.1 entry.2 document
  sortLatest : ∀ cursor, pending cursor = reading.documents → Responds ready (driver.sortLatest "_ts" cursor)
    fun sorted => (pending sorted).Perm (pending cursor) ∧
      (pending sorted).Pairwise fun a b => ¬ reading.older a b
  limit : ∀ n cursor, n ≠ 0 → Responds ready (driver.limit n cursor)
    fun limited => pending limited = reading.cut n (pending cursor)
  toList : ∀ size cursor, 0 < size → Responds ready (driver.toList size cursor)
    fun taken => taken.1 = (pending cursor).take size ∧ pending taken.2 = (pending cursor).drop size
  distinct : ∀ key, reading.accepts key → Responds ready (driver.distinct key) (· = reading.values key)
  lastStatistics : ∀ s, ready s → TellsCharge (driver.lastStatistics s).1 ∧ ready (driver.lastStatistics s).2

theorem pairwise_latestFirst {key : String} {documents : List Value}
    (hstamps : ∀ d ∈ documents, ∃ q, (d.numberUnder key).widened.toRat? = some q) :
    (latestFirst key documents).Pairwise fun a b => ¬ Number.lt (a.numberUnder key) (b.numberUnder key) := by
  -- What is no number is in no order with others, so the stamps are looked at in place of the documents.
  let stamp (d : Value) : Rat := (d.numberUnder key).widened.toRat?.getD 0
  have hlt : ∀ a ∈ documents, ∀ b ∈ documents,
      Number.lt (a.numberUnder key) (b.numberUnder key) = decide (stamp a < stamp b) := by
    intro a ha b hb
    obtain ⟨p, hp⟩ := hstamps a ha
    obtain ⟨q, hq⟩ := hstamps b hb
    simp only [Number.lt, Double.lt_eq_of_toRat? hp hq, stamp, hp, hq, Option.getD_some]
  have hsorted : (latestFirst key documents).map stamp = (documents.map stamp).mergeSort fun p q => decide (q ≤ p) := by
    refine List.map_mergeSort fun a ha b hb => ?_
    rw [hlt a ha b hb]
    grind
  have hpairwise : ((latestFirst key documents).map stamp).Pairwise fun p q => q ≤ p := by
    rw [hsorted]
    exact (List.pairwise_mergeSort (by grind) (by grind) _).imp of_decide_eq_true
  refine (List.pairwise_map.mp hpairwise).imp_of_mem fun {a b} ha hb hle => ?_
  have hmem : ∀ {d}, d ∈ latestFirst key documents → d ∈ documents := List.mem_mergeSort.mp
  rw [hlt a (hmem ha) b (hmem hb), decide_eq_true_eq, not_lt]
  exact hle

namespace Collection

def reading (documents : List Value) : Reading where
  documents
  accepts _ := True
  holds key value document := (valueAt? document key).any (Value.same value)
  older a b := Number.lt (a.numberUnder "_ts") (b.numberUnder "_ts")
  values key := distinctValues (documents.filterMap fun d => valueAt? d key)
  cut n rows := rows.take n.toNat
  cut_of_pos _ _ _ := rfl

structure Undisturbed (documents : List Value) (s : Collection) : Prop where
  documents_eq : s.documents = documents
  failures : ∀ failure ∈ s.failures, failure = none
  statistics : ∀ answer ∈ s.statistics, TellsCharge answer

theorem headD_of_forall_mem {α : Type} {p : α → Prop} {l : List α} {d : α} (hd : p d) (hl : ∀ a ∈ l, p a) :
    p (l.headD d) := by
  cases l with
  | nil => exact hd
  | cons a l => exact hl a List.mem_cons_self

theorem Undisturbed.takeFailure {documents : List Value} {s : Collection} (hs : Undisturbed documents s)
    (call : CollectionCall) :
    (s.record call).takeFailure.1 = none ∧ Undisturbed documents (s.record call).takeFailure.2 :=
  ⟨headD_of_forall_mem (p := (· = none)) rfl hs.failures, hs.documents_eq,
    fun failure hfailure => hs.failures failure (List.mem_of_mem_tail hfailure), hs.statistics⟩

theorem driver_reads {documents : List Value}
    (hstamps : ∀ d ∈ documents, ∃ q, (d.numberUnder "_ts").widened.toRat? = some q) :
    driver.Reads (reading documents) (Undisturbed documents) (·.rows) where
  find condition _ s hs := by
    obtain ⟨hnone, ht⟩ := hs.takeFailure (.find (.mapping condition))
    refine ⟨⟨s.documents.filter (meets condition)⟩, _, ?_, ?_, ht⟩
    · simp only [driver, find, hnone]
      rfl
    · rw [hs.documents_eq]
      rfl
  sortLatest cursor hall s hs := by
    refine ⟨_, _, rfl, ⟨List.mergeSort_perm _ _, ?_⟩, hs.documents_eq, hs.failures, hs.statistics⟩
    exact pairwise_latestFirst (hall ▸ hstamps)
  limit n cursor _ s hs := ⟨_, _, rfl, rfl, hs.documents_eq, hs.failures, hs.statistics⟩
  toList size cursor _ s hs := ⟨_, _, rfl, ⟨rfl, rfl⟩, hs.documents_eq, hs.failures, hs.statistics⟩
  distinct key _ s hs := by
    obtain ⟨hnone, ht⟩ := hs.takeFailure (.distinct key)
    refine ⟨distinctValues (s.documents.filterMap fun d => valueAt? d key), _, ?_, ?_, ht⟩
    · simp only [driver, distinct, hnone]
      rfl
    · rw [hs.documents_eq]
      rfl
  lastStatistics s hs := by
    refine ⟨headD_of_forall_mem ⟨.finite 1, rfl⟩ hs.statistics, hs.documents_eq, hs.failures, ?_⟩
    exact fun answer hanswer => hs.statistics answer (List.mem_of_mem_tail hanswer)

def fiveOrders : List Value :=
  [3, 1, 4, 1, 5].map fun stamp => .record [("_ts", .whole stamp)]

def ofFiveOrders : Collection :=
  ⟨"orders", fiveOrders, [], [], .ok .null, []⟩

end Collection

namespace Client

def Stands (ready : δ → Prop) (size : Nat) (feed : ClientFeed κ) (s : ClientFeed κ × Client δ) : Prop :=
  s.1 = feed ∧ s.2.pageSize = size ∧ ready s.2.collection

variable {driver : Driver δ κ} {reading : Reading} {ready : δ → Prop} {pending : κ → List Value} {size : Nat}
  {feed : ClientFeed κ} {q : SampleQuery}

open Steps

theorem ask_succeeds {call : δ → Except Raised α × δ} {value : α → Prop} (h : Responds ready call value) :
    Succeeds (Stands ready size feed) (ask call) fun x s => value x ∧ Stands ready size feed s := by
  rintro ⟨_, c⟩ ⟨rfl, hsize, hready⟩
  obtain ⟨x, t, hcall, hx, ht⟩ := h c.collection hready
  refine ⟨x, (_, { c with collection := t }), ?_, hx, rfl, hsize, ht⟩
  change (((call c.collection).1, _, { c with collection := (call c.collection).2 }) : _ × _ × _) = _
  rw [hcall]

theorem modifyFeed_succeeds (change : ClientFeed κ → ClientFeed κ) : Succeeds (Stands ready size feed)
    (modify fun s => (change s.1, s.2)) fun (_ : PUnit) => Stands ready size (change feed) :=
  .modify fun _ hs => ⟨congrArg change hs.1, hs.2⟩

theorem keep_succeeds (cursor : κ) : Succeeds (Stands ready size feed) (keep cursor)
    fun _ => Stands ready size { feed with cursor := some cursor } :=
  modifyFeed_succeeds fun feed => { feed with cursor := some cursor }

theorem inOrder_succeeds (h : driver.Reads reading ready pending) {cursor : κ}
    (hcursor : pending cursor = reading.found q) : Succeeds (Stands ready size feed) (inOrder driver q cursor)
      fun ordered s => reading.Orders q (reading.found q) (pending ordered) ∧ Stands ready size feed s := by
  unfold inOrder
  split
  · rename_i hrecent
    have hall : pending cursor = reading.documents := by simp [hcursor, Reading.found, hrecent]
    simp only [Reading.Orders, hrecent, if_true, ← hcursor]
    exact ask_succeeds (h.sortLatest cursor hall)
  · rename_i hkind
    exact .pure fun s hs => ⟨by rwa [Reading.Orders, if_neg hkind], hs⟩

theorem withinLimit_succeeds (h : driver.Reads reading ready pending) (cursor : κ) :
    Succeeds (Stands ready size feed) (withinLimit driver q cursor) fun limited s =>
      pending limited = reading.limited q (pending cursor) ∧ Stands ready size feed s := by
  cases hlimit : q.effectiveLimit? with
  | some n =>
    have hne : n ≠ 0 := by simpa using (Option.filter_eq_some_iff.mp hlimit).2
    simp only [withinLimit, Reading.limited, hlimit]
    exact ask_succeeds (h.limit n cursor hne)
  | none =>
    simp only [withinLimit, Reading.limited, hlimit]
    exact .pure fun s hs => ⟨rfl, hs⟩

theorem openCursor_succeeds (h : driver.Reads reading ready pending) (hq : reading.Allows q)
    (hkind : q.kind ≠ .distinct) : Succeeds (Stands ready size ⟨q, none, false⟩) (openCursor driver q)
      fun cursor s => reading.Answers q (pending cursor) ∧ Stands ready size ⟨q, some cursor, false⟩ s := by
  have hfind : Responds ready (driver.find (if q.kind = .partition then [(Value.ofText? q.field, q.value)] else []))
      fun cursor => pending cursor = reading.found q := by
    unfold Reading.found
    split
    · rename_i hpartition
      have hfound := h.find [(Value.ofText? q.field, q.value)] (by simpa using hq (.inl hpartition))
      simpa using hfound
    · have hfound := h.find [] (by simp)
      simpa using hfound
  unfold openCursor
  refine (ask_succeeds hfind).bind fun found => .assuming fun hfound => ?_
  refine (keep_succeeds found).bind fun _ => ?_
  refine (inOrder_succeeds h hfound).bind fun ordered => .assuming fun hordered => ?_
  refine (keep_succeeds ordered).bind fun _ => ?_
  refine (withinLimit_succeeds h ordered).bind fun limited => .assuming fun hlimited => ?_
  refine (keep_succeeds limited).bind fun _ => ?_
  refine .pure fun s hs => ⟨?_, hs⟩
  rw [Reading.Answers, if_neg hkind]
  exact ⟨pending ordered, hordered, hlimited⟩

/-- A page and the feed after it, if such rows were to come before: the page takes those that are next, and is the
last one unless it is full. -/
def PageOf (pending : κ → List Value) (size : Nat) (q : SampleQuery) (came : List Value → Prop) (page : List Value)
    (next : ClientFeed κ) : Prop :=
  ∃ rows rest, came rows ∧ page = rows.take size ∧ pending rest = rows.drop size ∧
    next = ⟨q, some rest, decide (rows.length < size)⟩

theorem readPage_succeeds (h : driver.Reads reading ready pending) (hpos : 0 < size) (cursor : κ)
    {came : List Value → Prop} (hcame : came (pending cursor)) :
    Succeeds (Stands ready size ⟨q, some cursor, false⟩) (readPage driver cursor) fun page s =>
      ∃ next, PageOf pending size q came page next ∧ Stands ready size next s := by
  unfold readPage
  refine .get_bind fun ⟨_, c⟩ ⟨_, hsize, _⟩ => ?_
  obtain rfl : c.pageSize = size := hsize
  refine (ask_succeeds (h.toList c.pageSize cursor hpos)).bind fun ⟨rows, rest⟩ => .assuming fun ⟨hrows, hrest⟩ => ?_
  dsimp only at hrows hrest ⊢
  have hshort : rows.length < c.pageSize ↔ (pending cursor).length < c.pageSize := by
    rw [hrows, List.length_take]
    omega
  have hturn : Succeeds (Stands ready c.pageSize ⟨q, some cursor, false⟩) (modify fun s : ClientFeed κ × Client δ =>
      ({ s.1 with cursor := some rest, done := s.1.done || decide (rows.length < s.2.pageSize) }, s.2))
      fun (_ : PUnit) => Stands ready c.pageSize ⟨q, some rest, decide ((pending cursor).length < c.pageSize)⟩ :=
    .modify fun s ⟨hfeed, hs⟩ => ⟨by simp only [hfeed, hs.1, Bool.false_or, hshort], hs⟩
  exact hturn.bind fun _ => .pure fun s hs => ⟨_, ⟨pending cursor, rest, hcame, hrows, hrest, rfl⟩, hs⟩

theorem nextRows_succeeds (h : driver.Reads reading ready pending) (hpos : 0 < size) (came : List Value → Prop)
    (hquery : feed.query = q) (hkind : q.kind ≠ .distinct)
    (hcursor : Succeeds (Stands ready size feed) (cursorOf driver feed) fun cursor s =>
      came (pending cursor) ∧ Stands ready size ⟨q, some cursor, false⟩ s) :
    Succeeds (Stands ready size feed) (nextRows driver) fun page s =>
      ∃ next, PageOf pending size q came page next ∧ Stands ready size next s := by
  unfold nextRows
  refine .get_bind fun ⟨_, c⟩ ⟨hfeed, _⟩ => ?_
  obtain rfl := hfeed.symm
  dsimp only
  rw [if_neg (by rwa [hquery])]
  exact hcursor.bind fun cursor => .assuming fun hcame => readPage_succeeds h hpos cursor hcame

theorem nextRows_distinct_succeeds (h : driver.Reads reading ready pending) (hq : reading.Allows q)
    (hkind : q.kind = .distinct) : Succeeds (Stands ready size ⟨q, none, false⟩) (nextRows driver)
      fun page s => ∃ next, (page = reading.values (Value.ofText? q.field) ∧ next.done = true) ∧
        Stands (κ := κ) ready size next s := by
  unfold nextRows
  refine .get_bind fun ⟨_, c⟩ ⟨hfeed, _⟩ => ?_
  obtain rfl := hfeed.symm
  dsimp only
  rw [if_pos hkind]
  refine (modifyFeed_succeeds fun feed => { feed with done := true }).bind fun _ => ?_
  intro s hs
  obtain ⟨page, t, hrun, hpage, ht⟩ := ask_succeeds (h.distinct _ (hq (.inr hkind))) s hs
  exact ⟨page, t, hrun, _, ⟨hpage, rfl⟩, ht⟩

theorem lastCharge_succeeds (h : driver.Reads reading ready pending) :
    Succeeds (Stands ready size feed) (onClient (lastCharge driver)) fun _ => Stands ready size feed := by
  rintro ⟨_, c⟩ ⟨rfl, hsize, hready⟩
  have hcharge : ∃ charge c', lastCharge driver c = (.ok charge, c') ∧ c'.pageSize = size ∧ ready c'.collection := by
    have htold := h.lastStatistics c.collection hready
    unfold lastCharge askCharge
    generalize driver.lastStatistics c.collection = told at htold ⊢
    obtain ⟨answer, collection⟩ := told
    obtain ⟨htells, hready'⟩ := htold
    split
    · exact ⟨_, c, rfl, hsize, hready⟩
    · cases answer with
      | ok v =>
        obtain ⟨charge, hcharge⟩ := htells
        exact ⟨charge, { c with collection }, congrArg (·, _) hcharge, hsize, hready'⟩
      | error e =>
        exact ⟨.finite 0, { c with collection, tracksCharge := false }, if_pos htells, hsize, hready'⟩
  obtain ⟨charge, c', hrun, hsize', hready'⟩ := hcharge
  refine ⟨charge, (_, c'), ?_, rfl, hsize', hready'⟩
  change (((lastCharge driver c).1, _, (lastCharge driver c).2) : _ × _ × _) = _
  rw [hrun]

theorem fetch_page (h : driver.Reads reading ready pending) {turn : List Value → ClientFeed κ → Prop}
    (hrows : Succeeds (Stands ready size feed) (nextRows driver) fun page s =>
      ∃ next, turn page next ∧ Stands ready size next s) {c : Client δ} (hc : Stands ready size feed (feed, c)) :
    ∃ page next c', fetch driver feed c = (.ok page, next, c') ∧ turn page.rows next ∧
      Stands ready size next (next, c') := by
  have hpage : Succeeds (Stands ready size feed) (nextPage driver) fun page s =>
      ∃ next, turn page.rows next ∧ Stands ready size next s := by
    refine hrows.bind fun rows => ?_
    rintro s ⟨next, hturn, hs⟩
    exact ((lastCharge_succeeds h).bind fun charge => .pure fun t ht => ⟨next, hturn, ht⟩) s hs
  obtain ⟨page, ⟨_, c'⟩, hrun, next, hturn, hnext⟩ := hpage (feed, c) hc
  obtain rfl : _ = next := hnext.1
  refine ⟨page, _, c', ?_, hturn, hnext⟩
  rw [fetch, hrun]
  rfl

theorem exists_readsOut_page {rows : List Value} {rest : κ} {page : FeedPage} {c c' : Client δ} (hpos : 0 < size)
    (hmore : feed.done = false)
    (hfetch : fetch driver feed c = (.ok page, ⟨q, some rest, decide (rows.length < size)⟩, c'))
    (hpage : page.rows = rows.take size)
    (hlater : size ≤ rows.length → ∃ pages, (store driver).ReadsOut ⟨q, some rest, false⟩ c' pages ∧
      PagesInto size (rows.drop size) pages) :
    ∃ pages, (store driver).ReadsOut feed c pages ∧ PagesInto size rows pages := by
  have hhas : (store driver).hasMore feed = true := by simp [store, hmore]
  by_cases hshort : rows.length < size
  · have hended : (store driver).hasMore (⟨q, some rest, decide (rows.length < size)⟩ : ClientFeed κ) = false := by
      simp [store, hshort]
    exact ⟨[page], .page hhas hfetch (.ended hended), .last hpage hshort⟩
  · rw [decide_eq_false hshort] at hfetch
    have hlong := Nat.le_of_not_lt hshort
    obtain ⟨pages, hreads, hpages⟩ := hlater hlong
    exact ⟨page :: pages, .page hhas hfetch hreads, .full hpage hpos hlong hpages⟩

theorem exists_readsOut_cursor (h : driver.Reads reading ready pending) (hpos : 0 < size) (hkind : q.kind ≠ .distinct)
    {cursor : κ} {c : Client δ} (hc : c.pageSize = size ∧ ready c.collection) :
    ∃ pages, (store driver).ReadsOut ⟨q, some cursor, false⟩ c pages ∧ PagesInto size (pending cursor) pages := by
  -- Each full page takes rows away, so that the rows to come get fewer.
  induction hn : (pending cursor).length using Nat.strong_induction_on generalizing cursor c with
  | _ n ih =>
    have hcursor : Succeeds (Stands ready size ⟨q, some cursor, false⟩)
        (cursorOf driver ⟨q, some cursor, false⟩ : Answering δ κ κ) fun same s =>
          pending same = pending cursor ∧ Stands ready size ⟨q, some same, false⟩ s :=
      .pure fun s hs => ⟨rfl, hs⟩
    obtain ⟨page, _, c', hfetch, ⟨rows, rest, rfl, hpage, hrest, rfl⟩, hc'⟩ :=
      fetch_page h (nextRows_succeeds h hpos (· = pending cursor) rfl hkind hcursor) ⟨rfl, hc⟩
    refine exists_readsOut_page hpos rfl hfetch hpage fun hlong => ?_
    rw [← hrest]
    refine ih _ ?_ hc'.2 rfl
    rw [hrest, List.length_drop]
    omega

theorem exists_readsOut_start (h : driver.Reads reading ready pending) (hq : reading.Allows q) (hpos : 0 < size)
    (hkind : q.kind ≠ .distinct) {c : Client δ} (hc : c.pageSize = size ∧ ready c.collection) :
    ∃ rows pages, reading.Answers q rows ∧ (store driver).ReadsOut ⟨q, none, false⟩ c pages ∧
      PagesInto size rows pages := by
  have hcursor : Succeeds (Stands ready size ⟨q, none, false⟩) (cursorOf driver ⟨q, none, false⟩) fun cursor s =>
      reading.Answers q (pending cursor) ∧ Stands ready size ⟨q, some cursor, false⟩ s :=
    openCursor_succeeds h hq hkind
  obtain ⟨page, _, c', hfetch, ⟨rows, rest, hanswers, hpage, hrest, rfl⟩, hc'⟩ :=
    fetch_page h (nextRows_succeeds h hpos (reading.Answers q) rfl hkind hcursor) ⟨rfl, hc⟩
  obtain ⟨pages, hreads, hpages⟩ := exists_readsOut_page hpos rfl hfetch hpage fun _ => by
    rw [← hrest]
    exact exists_readsOut_cursor h hpos hkind hc'.2
  exact ⟨rows, pages, hanswers, hreads, hpages⟩

theorem exists_readsOut_distinct (h : driver.Reads reading ready pending) (hq : reading.Allows q)
    (hkind : q.kind = .distinct) {c : Client δ} (hc : c.pageSize = size ∧ ready c.collection) :
    ∃ page, (store driver).ReadsOut ⟨q, none, false⟩ c [page] ∧ reading.Answers q page.rows := by
  obtain ⟨page, next, c', hfetch, ⟨hvalues, hdone⟩, -⟩ :=
    fetch_page h (nextRows_distinct_succeeds h hq hkind) ⟨rfl, hc⟩
  refine ⟨page, .page rfl hfetch (.ended ?_), ?_⟩
  · simp [store, hdone]
  · rwa [Reading.Answers, if_pos hkind]

/-- A query is read out in one way, and its pages together are its rows in order: the documents with the value
that a partition is asked for, the latest first if recent ones are, up to the limit if there is one, or else the
distinct values.  Those come on one page; all others on pages of the client's size at most, one more than they
fill. -/
theorem store_readsOut (driver : Driver δ κ) (reading : Reading) (ready : δ → Prop) (pending : κ → List Value)
    (hreads : driver.Reads reading ready pending) (q : SampleQuery) (hq : reading.Allows q) (c : Client δ)
    (hready : ready c.collection) (hsize : 1 ≤ c.pageSize) :
    let opened := (store driver).start q c
    ∃ rows pages, reading.Answers q rows ∧
      (∀ other, (store driver).ReadsOut opened.1 opened.2 other ↔ other = pages) ∧
      pages.flatMap (·.rows) = rows ∧
      (q.kind ≠ .distinct → ∀ page ∈ pages, page.rows.length ≤ c.pageSize) ∧
      pages.length = if q.kind = .distinct then 1 else rows.length / c.pageSize + 1 := by
  have honly : ∀ {pages}, (store driver).ReadsOut ⟨q, none, false⟩ c pages →
      ∀ other, (store driver).ReadsOut ⟨q, none, false⟩ c other ↔ other = pages :=
    fun hpages other => ⟨hpages.unique, fun heq => heq ▸ hpages⟩
  intro opened
  by_cases hkind : q.kind = .distinct
  · obtain ⟨page, hpage, hanswers⟩ := exists_readsOut_distinct hreads hq hkind ⟨rfl, hready⟩
    refine ⟨page.rows, [page], hanswers, honly hpage, List.flatMap_singleton .., fun hne => absurd hkind hne, ?_⟩
    rw [if_pos hkind, List.length_singleton]
  · obtain ⟨rows, pages, hanswers, hpages, hinto⟩ := exists_readsOut_start hreads hq hsize hkind ⟨rfl, hready⟩
    refine ⟨rows, pages, hanswers, honly hpages, hinto.rows_eq, fun _ => hinto.length_le, ?_⟩
    rw [if_neg hkind, hinto.length_eq]

/-- The four latest of five orders fill two pages, so that an empty one comes after them. -/
theorem store_readsOut_fiveOrders :
    let documents := Collection.fiveOrders
    let q := SampleQuery.recent 4
    let c : Container := ⟨.ofFiveOrders, 2, true⟩
    Collection.driver.Reads (Collection.reading documents) (Collection.Undisturbed documents) (·.rows) ∧
      (Collection.reading documents).Allows q ∧ Collection.Undisturbed documents c.collection ∧ 1 ≤ c.pageSize ∧
      ∃ rows pages, (Collection.reading documents).Answers q rows ∧
        (∀ other, Container.store.ReadsOut (Container.store.start q c).1 (Container.store.start q c).2 other ↔
          other = pages) ∧
        pages.flatMap (·.rows) = rows ∧ rows.length = 4 ∧ pages.length = 3 := by
  intro documents q c
  have hreads : Collection.driver.Reads (Collection.reading documents) (Collection.Undisturbed documents) (·.rows) :=
    Collection.driver_reads (List.forall_mem_map.mpr fun stamp _ => ⟨stamp, rfl⟩)
  have hq : (Collection.reading documents).Allows q := fun _ => trivial
  have hready : Collection.Undisturbed documents c.collection :=
    ⟨rfl, List.forall_mem_nil _, List.forall_mem_nil _⟩
  obtain ⟨rows, pages, hanswers, honly, hrows, -, hlength⟩ :=
    store_readsOut Collection.driver (Collection.reading documents) (Collection.Undisturbed documents) (·.rows) hreads
      q hq c hready (by decide)
  have hfour : rows.length = 4 := by
    obtain ⟨ordered, ⟨hperm, -⟩, rfl⟩ := hanswers
    change (ordered.take 4).length = 4
    rw [List.length_take, hperm.length_eq]
    rfl
  refine ⟨hreads, hq, hready, by decide, rows, pages, hanswers, honly, hrows, hfour, ?_⟩
  simp [hlength, hfour, q, c, SampleQuery.recent]

/-- Distinct values are not limited: where one is asked for, all four come. -/
theorem store_readsOut_pastLimit :
    let q : SampleQuery := ⟨.distinct, some 1, some "_ts", .null⟩
    let c : Container := ⟨.ofFiveOrders, 2, true⟩
    q.effectiveLimit? = some 1 ∧ ∃ pages,
      Container.store.ReadsOut (Container.store.start q c).1 (Container.store.start q c).2 pages ∧
        pages.flatMap (·.rows) = [.whole 3, .whole 1, .whole 4, .whole 5] ∧
        pages.flatMap (·.rows) ≠ ((Collection.reading Collection.fiveOrders).values (.text "_ts")).take 1 := by
  intro q c
  refine ⟨rfl, [⟨[.whole 3, .whole 1, .whole 4, .whole 5], .real (.finite 1)⟩], ?_, rfl, ?_⟩
  · exact .page rfl rfl (.ended rfl)
  · exact fun hlimited => absurd (congrArg List.length hlimited) (by decide)

end Client

end Mongo

end SchemaInference
