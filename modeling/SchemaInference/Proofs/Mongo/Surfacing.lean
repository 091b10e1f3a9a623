import SchemaInference.Moment.FreeDate
import SchemaInference.Mongo.Container
import SchemaInference.Proofs.Mongo.ConnectionFailure
import SchemaInference.Proofs.Sampling.Mirroring
import SchemaInference.Retry.Script

/-!
# Connection failures of samples

A watched driver answers as the driver that it is made from, and keeps the calls that have failed.  So it can
be told what an attempt at a sample makes of a connection that is lost during one of its calls: the attempt
ends there, with the error restated if the call was for rows or for their charge, and with the error as the
driver raised it if the call was for the description of the collection.
-/

set_option autoImplicit false

namespace SchemaInference.Mongo

inductive DriverCall
  | find
  | sort
  | limit
  | toList
  | distinct
  | statistics
  | describe
deriving DecidableEq

structure FailedCall where
  call : DriverCall
  error : Raised

variable {δ κ α β : Type}

def failureOf (call : DriverCall) : Except Raised α → List FailedCall
  | .ok _ => []
  | .error e => [⟨call, e⟩]

def watch (call : DriverCall) (step : δ → Except Raised α × δ) (s : δ × List FailedCall) :
    Except Raised α × δ × List FailedCall :=
  ((step s.1).1, (step s.1).2, s.2 ++ failureOf call (step s.1).1)

def Driver.watched (driver : Driver δ κ) : Driver (δ × List FailedCall) κ where
  find condition := watch .find (driver.find condition)
  sortLatest key cursor := watch .sort (driver.sortLatest key cursor)
  limit n cursor := watch .limit (driver.limit n cursor)
  toList size cursor := watch .toList (driver.toList size cursor)
  distinct key := watch .distinct (driver.distinct key)
  lastStatistics := watch .statistics driver.lastStatistics
  describe := watch .describe driver.describe
  bound s := driver.bound s.1

def Client.forget (c : Client (δ × List FailedCall)) : Client δ :=
  ⟨c.collection.1, c.pageSize, c.tracksCharge⟩

section Steps

variable {S : Type}

def Calm (failed : List FailedCall) : Prop :=
  ∀ f ∈ failed, ¬ IsConnectionFailure f.error

def EndsWith (failed : List FailedCall) (f : FailedCall) : Prop :=
  ∃ before, failed = before ++ [f] ∧ Calm before ∧ IsConnectionFailure f.error

theorem EndsWith.eq {failed : List FailedCall} {f other : FailedCall} (h : EndsWith failed f)
    (hother : other ∈ failed) (hconnection : IsConnectionFailure other.error) : other = f := by
  obtain ⟨before, rfl, hcalm, -⟩ := h
  obtain hbefore | hlast := List.mem_append.mp hother
  · exact absurd hconnection (hcalm other hbefore)
  · exact List.mem_singleton.mp hlast

theorem Calm.append {failed : List FailedCall} (h : Calm failed) {f : FailedCall}
    (hf : ¬ IsConnectionFailure f.error) : Calm (failed ++ [f]) := by
  intro other hother
  obtain hbefore | hlast := List.mem_append.mp hother
  · exact h other hbefore
  · rwa [List.mem_singleton.mp hlast]

/-- A step that ends when a connection is lost, with an error that shows it. -/
def Surfaces (log : S → List FailedCall) (shows : FailedCall → Raised → Prop) (m : ExceptT Raised (StateM S) α) :
    Prop :=
  ∀ s, Calm (log s) → Calm (log (m.run s).2) ∨
    ∃ f e, EndsWith (log (m.run s).2) f ∧ shows f e ∧ (m.run s).1 = .error e

variable {log : S → List FailedCall} {shows : FailedCall → Raised → Prop}

theorem Surfaces.bind {m : ExceptT Raised (StateM S) α} {f : α → ExceptT Raised (StateM S) β}
    (h : Surfaces log shows m) (hnext : ∀ x, Surfaces log shows (f x)) : Surfaces log shows (m >>= f) := by
  intro s hs
  have hfirst := h s hs
  rw [Steps.run_bind]
  generalize m.run s = run at hfirst ⊢
  obtain ⟨result, t⟩ := run
  obtain hcalm | ⟨failed, e, hends, hshows, herror⟩ := hfirst
  · cases result with
    | error e => exact .inl hcalm
    | ok x => exact hnext x t hcalm
  · obtain rfl : result = .error e := herror
    exact .inr ⟨failed, e, hends, hshows, rfl⟩

theorem Surfaces.quiet {m : ExceptT Raised (StateM S) α} (h : ∀ s, log (m.run s).2 = log s) :
    Surfaces log shows m := by
  intro s hs
  rw [h s]
  exact .inl hs

theorem Surfaces.call {m : ExceptT Raised (StateM S) α} (call : DriverCall) (answer : S → Except Raised β)
    (hlog : ∀ s, log (m.run s).2 = log s ++ failureOf call (answer s))
    (hshows : ∀ s e, answer s = .error e → IsConnectionFailure e →
      ∃ shown, shows ⟨call, e⟩ shown ∧ (m.run s).1 = .error shown) : Surfaces log shows m := by
  intro s hs
  rw [hlog]
  cases hanswer : answer s with
  | ok x =>
    rw [failureOf, List.append_nil]
    exact .inl hs
  | error e =>
    by_cases hconnection : IsConnectionFailure e
    · obtain ⟨shown, hshown, herror⟩ := hshows s e hanswer hconnection
      exact .inr ⟨⟨call, e⟩, shown, ⟨log s, rfl, hs, hconnection⟩, hshown, herror⟩
    · exact .inl (hs.append hconnection)

end Steps

namespace Client

def forgetWithin (s : ClientFeed κ × Client (δ × List FailedCall)) : ClientFeed κ × Client δ :=
  (s.1, s.2.forget)

def failedWithin (s : ClientFeed κ × Client (δ × List FailedCall)) : List FailedCall :=
  s.2.collection.2

def AsRaised (f : FailedCall) (e : Raised) : Prop :=
  f.call ≠ .describe ∧ e = f.error

/-- The first step does on a watched driver what the second one does on the driver itself, and ends when a
connection is lost. -/
structure Watches (m : Answering (δ × List FailedCall) κ α) (n : Answering δ κ α) : Prop where
  mirrors : Steps.Mirrors forgetWithin m n
  surfaces : Surfaces failedWithin AsRaised m

namespace Watches

theorem quiet {m : Answering (δ × List FailedCall) κ α} {n : Answering δ κ α}
    (hmirrors : Steps.Mirrors forgetWithin m n) (hfailed : ∀ s, failedWithin (m.run s).2 = failedWithin s) :
    Watches m n :=
  ⟨hmirrors, .quiet hfailed⟩

theorem pure (x : α) : Watches (δ := δ) (κ := κ) (pure x) (pure x) :=
  .quiet (fun _ => rfl) fun _ => rfl

theorem bind {m : Answering (δ × List FailedCall) κ α} {n : Answering δ κ α}
    {f : α → Answering (δ × List FailedCall) κ β} {g : α → Answering δ κ β} (h : Watches m n)
    (hnext : ∀ x, Watches (f x) (g x)) : Watches (m >>= f) (n >>= g) :=
  ⟨h.mirrors.bind fun x => (hnext x).mirrors, h.surfaces.bind fun x => (hnext x).surfaces⟩

theorem get_bind {f : ClientFeed κ × Client (δ × List FailedCall) → Answering (δ × List FailedCall) κ α}
    {g : ClientFeed κ × Client δ → Answering δ κ α} (h : ∀ s, Watches (f s) (g (forgetWithin s))) :
    Watches (get >>= f) (get >>= g) :=
  ⟨fun s => (h s).mirrors s, fun s => (h s).surfaces s⟩

end Watches

theorem watches_ask (call : DriverCall) (hcall : call ≠ .describe) (step : δ → Except Raised α × δ) :
    Watches (κ := κ) (ask (watch call step)) (ask step) where
  mirrors _ := rfl
  surfaces := .call call (fun s => (step s.2.collection.1).1) (fun _ => rfl) fun _ e he _ => ⟨e, ⟨hcall, rfl⟩, he⟩

theorem watches_keep (cursor : κ) : Watches (δ := δ) (keep cursor) (keep cursor) :=
  .quiet (fun _ => rfl) fun _ => rfl

variable (driver : Driver δ κ)

/-- A refusal to tell the charge ends nothing, but a lost connection is no refusal. -/
theorem watches_askCharge :
    Watches (κ := κ) (onClient (askCharge driver.watched)) (onClient (askCharge driver)) where
  mirrors := fun ⟨feed, c⟩ => by
    change ((askCharge driver c.forget).1, feed, (askCharge driver c.forget).2) =
      ((askCharge driver.watched c).1, feed, (askCharge driver.watched c).2.forget)
    simp only [askCharge, Driver.watched, watch, forget]
    cases (driver.lastStatistics c.collection.1).1 with
    | ok v => rfl
    | error e =>
      dsimp only
      cases isRefusal e <;> rfl
  surfaces := by
    refine .call .statistics (fun s => (driver.lastStatistics s.2.collection.1).1) ?_ ?_
    · intro ⟨feed, c⟩
      change (askCharge driver.watched c).2.collection.2 = _
      simp only [askCharge, Driver.watched, watch, failedWithin]
      cases (driver.lastStatistics c.collection.1).1 with
      | ok v => rfl
      | error e =>
        dsimp only
        cases isRefusal e <;> rfl
    · intro ⟨feed, c⟩ e he hconnection
      refine ⟨e, ⟨nofun, rfl⟩, ?_⟩
      change (askCharge driver.watched c).1 = .error e
      simp only [askCharge, Driver.watched, watch, he, hconnection.not_isRefusal, Bool.false_eq_true, ↓reduceIte]

theorem onClient_lastCharge : onClient (κ := κ) (lastCharge driver) = (do
    let s ← get
    if s.2.tracksCharge then onClient (askCharge driver) else pure (.finite 0)) := by
  funext ⟨feed, c⟩
  change (let (answer, next) := lastCharge driver c; (answer, feed, next)) =
    (if c.tracksCharge then onClient (askCharge driver) else pure (.finite 0) : Answering δ κ Double).run (feed, c)
  unfold lastCharge
  cases c.tracksCharge <;> rfl

theorem watches_lastCharge :
    Watches (κ := κ) (onClient (lastCharge driver.watched)) (onClient (lastCharge driver)) := by
  rw [onClient_lastCharge, onClient_lastCharge]
  refine .get_bind fun ⟨feed, c⟩ => ?_
  change Watches (if c.tracksCharge then _ else _) (if c.tracksCharge then _ else _)
  split
  · exact watches_askCharge driver
  · exact .pure _

theorem watches_inOrder (q : SampleQuery) (cursor : κ) :
    Watches (inOrder driver.watched q cursor) (inOrder driver q cursor) := by
  unfold inOrder
  split
  · exact watches_ask .sort nofun _
  · exact .pure cursor

theorem watches_withinLimit (q : SampleQuery) (cursor : κ) :
    Watches (withinLimit driver.watched q cursor) (withinLimit driver q cursor) := by
  unfold withinLimit
  split
  · exact watches_ask .limit nofun _
  · exact .pure cursor

theorem watches_openCursor (q : SampleQuery) : Watches (openCursor driver.watched q) (openCursor driver q) := by
  unfold openCursor
  exact .bind (watches_ask .find nofun _) fun found => .bind (watches_keep found) fun _ =>
    .bind (watches_inOrder driver q found) fun ordered => .bind (watches_keep ordered) fun _ =>
    .bind (watches_withinLimit driver q ordered) fun limited => .bind (watches_keep limited) fun _ => .pure limited

theorem watches_cursorOf (feed : ClientFeed κ) : Watches (cursorOf driver.watched feed) (cursorOf driver feed) := by
  unfold cursorOf
  cases feed.cursor with
  | none => exact watches_openCursor driver feed.query
  | some cursor => exact .pure cursor

theorem watches_readPage (cursor : κ) : Watches (readPage driver.watched cursor) (readPage driver cursor) := by
  unfold readPage
  exact .get_bind fun _ => .bind (watches_ask .toList nofun _) fun _ =>
    .bind (.quiet (fun _ => rfl) fun _ => rfl) fun _ => .pure _

theorem watches_nextRows : Watches (nextRows driver.watched) (nextRows driver) := by
  unfold nextRows
  refine .get_bind fun ⟨feed, c⟩ => ?_
  dsimp only [forgetWithin]
  split
  · exact .bind (.quiet (fun _ => rfl) fun _ => rfl) fun _ => watches_ask .distinct nofun _
  · exact .bind (watches_cursorOf driver feed) fun cursor => watches_readPage driver cursor

theorem watches_nextPage : Watches (nextPage driver.watched) (nextPage driver) := by
  unfold nextPage
  exact .bind (watches_nextRows driver) fun _ => .bind (watches_lastCharge driver) fun _ => .pure _

end Client

def FailedCall.shown (f : FailedCall) : Raised :=
  if f.call = .describe then f.error else restated f.error

namespace Client

open Sampling

def failedDuring (a : SamplingAttempt (Client (δ × List FailedCall))) : List FailedCall :=
  a.store.collection.2

variable (driver : Driver δ κ)

theorem mirrors_watched : (store driver.watched).Mirrors forget (store driver) where
  hasMore := rfl
  start _ _ := rfl
  fetch feed c := by
    have hpage := (watches_nextPage driver).mirrors (feed, c)
    simp only [store, fetch]
    replace hpage : (nextPage driver).run (feed, c.forget) = _ := hpage
    rw [hpage]
    rfl
  bound _ _ := rfl
  partitionPath := .some fun _ => rfl

theorem surfaces_fetchPage (feed : ClientFeed κ) :
    Surfaces failedDuring (fun f e => e = f.shown) (fetchPage (store driver.watched) feed) := by
  intro a ha
  have hpage := (watches_nextPage driver).surfaces (feed, a.store) ha
  rw [fetchPage_run]
  simp only [store, fetch]
  generalize (nextPage driver.watched).run (feed, a.store) = run at hpage ⊢
  obtain ⟨result, next, c⟩ := run
  obtain hcalm | ⟨f, _, hends, ⟨hcall, rfl⟩, herror⟩ := hpage
  · refine .inl ?_
    cases result with
    | error e => exact hcalm
    | ok page =>
      dsimp only [Except.mapError]
      cases page.spent <;> exact hcalm
  · obtain rfl : result = .error f.error := herror
    exact .inr ⟨f, restated f.error, hends, (if_neg hcall).symm, rfl⟩

theorem surfaces_askStore :
    Surfaces failedDuring (fun f e => e = f.shown) (resolvePartitionPath.askStore (store driver.watched)) := by
  refine .call .describe (fun a => (driver.describe a.store.collection.1).1) (fun _ => rfl) ?_
  intro a e he hconnection
  refine ⟨e, rfl, ?_⟩
  change (partitionPath driver.watched a.store).1 = .error e
  simp only [partitionPath, Driver.watched, watch, he, hconnection.not_isRefusal, Bool.false_eq_true, ↓reduceIte]

theorem surfaces_respected (limits : SamplingLimits) :
    Respected (store driver.watched) (store driver.watched) limits limits (fun _ => True)
      fun _ m _ => Surfaces failedDuring (fun f e => e = f.shown) m where
  target := rfl
  hasMore := rfl
  pure _ := .quiet fun _ => rfl
  bind := .bind
  note _ := .quiet fun _ => rfl
  report _ := .quiet fun _ => rfl
  isOverBudget := .quiet fun _ => rfl
  shuffled _ _ := .quiet fun _ => rfl
  askStore := surfaces_askStore driver
  openFeed _ _ _ hnext := .bind (.quiet fun _ => rfl) fun feed => hnext feed trivial
  bound _ _ _ hnext a := hnext a a rfl a
  fetchPage _ _ hnext := .bind (surfaces_fetchPage driver _) fun page => hnext page.1 page.2 trivial

def failedOn (plan : SamplingPlan) (c : Client δ) (shuffled : List (List Value)) : List FailedCall :=
  failedDuring (attemptOn (store driver.watched) plan ⟨(c.collection, []), c.pageSize, c.tracksCharge⟩ shuffled).2

theorem attemptOn_connectionFailure (plan : SamplingPlan) (c : Client δ) (shuffled : List (List Value))
    {f : FailedCall} (hf : f ∈ failedOn driver plan c shuffled) (hconnection : IsConnectionFailure f.error) :
    (attemptOn (store driver) plan c shuffled).1 = .error f.shown := by
  -- The watched attempt takes the same course, and its state has the calls that have failed.
  have hmirrors := attemptOn_mirrors (mirrors_watched driver) plan
    ⟨(c.collection, []), c.pageSize, c.tracksCharge⟩ shuffled
  have hsurfaces := (surfaces_respected driver plan.limits).sampleBy rfl
    (.initial ⟨(c.collection, []), c.pageSize, c.tracksCharge⟩ shuffled) (List.forall_mem_nil _)
  replace hmirrors : attemptOn (store driver) plan c shuffled = _ := hmirrors
  rw [hmirrors]
  unfold failedOn at hf
  rw [attemptOn, byPlan_run] at hf ⊢
  generalize (sampleBy (store driver.watched) plan).run _ = run at hf hsurfaces ⊢
  obtain ⟨result, a⟩ := run
  obtain hcalm | ⟨last, _, hends, rfl, herror⟩ := hsurfaces
  · refine absurd hconnection (hcalm f ?_)
    cases result <;> exact hf
  · obtain rfl : result = .error last.shown := herror
    obtain rfl := hends.eq hf hconnection
    rfl

/-- A connection that is lost during an attempt at a sample ends the attempt.  From a call for rows or for
their charge the error is restated, and classified as transient; from the question for the description of the
collection it comes as the driver raised it. -/
theorem attempt_connectionFailure {η : Type} (h : RetryHost η) (plan : SamplingPlan)
    (s : SamplingCourse (Client δ) η) {f : FailedCall} (hf : f ∈ failedOn driver plan s.store s.shuffled)
    (hconnection : IsConnectionFailure f.error) :
    (f.call ≠ .describe → (attempt (store driver) h plan s).1 = .error (restated f.error) ∧
        ∀ almanac component, ∃ failure, (restated f.error).fault.classify almanac component = .ok failure ∧
          IsTransient failure) ∧
      (f.call = .describe → (attempt (store driver) h plan s).1 = .error f.error) := by
  have hattempt : (attempt (store driver) h plan s).1 = .error f.shown :=
    attemptOn_connectionFailure driver plan s.store s.shuffled hf hconnection
  rw [hattempt]
  constructor
  · intro hcall
    exact ⟨congrArg Except.error (if_neg hcall), hconnection.classify_restated⟩
  · intro hcall
    exact congrArg Except.error (if_pos hcall)

def bareCollection (statistics description : Except Raised Value) : Collection :=
  ⟨"orders", [], [], [statistics], description, []⟩

def lostConnection : Raised :=
  .ofForeign ⟨"AutoReconnect", [.driver .connectionFailure], .ok "connection closed", []⟩

theorem isConnectionFailure_lostConnection : IsConnectionFailure lostConnection :=
  ⟨_, .connectionFailure, rfl, rfl, rfl, "connection closed", rfl⟩

def fiveFromPartitions : SamplingPlan where
  strategy := .partition
  limits := ⟨5, none⟩
  partitionPath := none
  variants := 3
  shuffle := (id : List Value → List Value)

def courseOn (c : Collection) : SamplingCourse Container RetryScript :=
  { store := ⟨c, 100, true⟩, host := .start false none [] [], progress := [], shuffled := [] }

theorem attempt_connectionFailure_lostStatistics :
    (attempt Container.store (RetryScript.host FreeDate.atYear2000) fiveFromPartitions
        (courseOn (bareCollection (.error lostConnection) (.ok (.mapping []))))).1 =
          .error (restated lostConnection) ∧
      ∀ almanac component, ∃ failure, (restated lostConnection).fault.classify almanac component = .ok failure ∧
        IsTransient failure := by
  have hfailed : (⟨.statistics, lostConnection⟩ : FailedCall) ∈ failedOn Collection.driver fiveFromPartitions
      (courseOn (bareCollection (.error lostConnection) (.ok (.mapping [])))).store [] :=
    List.mem_singleton_self _
  exact (attempt_connectionFailure Collection.driver (RetryScript.host FreeDate.atYear2000) fiveFromPartitions
    (courseOn (bareCollection (.error lostConnection) (.ok (.mapping [])))) hfailed
    isConnectionFailure_lostConnection).1 nofun

/-- Nothing restates the error of a connection that is lost during the question for the description of the
collection: it ends with no status code and with no retry. -/
theorem attempt_not_transient_lostDescription :
    failedOn Collection.driver fiveFromPartitions
        (courseOn (bareCollection (.ok .null) (.error lostConnection))).store [] = [⟨.describe, lostConnection⟩] ∧
      IsConnectionFailure lostConnection ∧
      (attempt Container.store (RetryScript.host FreeDate.atYear2000) fiveFromPartitions
        (courseOn (bareCollection (.ok .null) (.error lostConnection)))).1 = .error lostConnection ∧
      ∀ almanac component, ∃ failure, lostConnection.fault.classify almanac component = .ok failure ∧
        failure.kind = .unknown ∧ failure.retryable = false ∧ failure.metadata.statusCode = none :=
  ⟨rfl, isConnectionFailure_lostConnection, rfl, fun _ _ => ⟨_, rfl, rfl, rfl, rfl⟩⟩

end Client

end SchemaInference.Mongo
