import SchemaInference.Failure.Classification
import SchemaInference.Journal
import SchemaInference.Retry.Delay

/-!
# Trying an operation again

An operation is attempted until it succeeds or one of five reasons ends the run: retrying is switched
off, the failure is not to be retried, no retries are left, the failed attempts have cost too much, or
the run is cancelled.  What the run needs from outside is a `RetryHost`; the run itself is a function
of the host's state, so every wait and every question it asks can be read off the result.  What it reckons
with, the request units spent and the delays, is rounded by a `Rounding`; `run` rounds to doubles.
-/

set_option autoImplicit false

namespace SchemaInference

structure RetryHost (σ : Type) where
  isCancelled : σ → Bool
  /-- The clock and the reader of dates, as they are at the time. -/
  almanac : σ → Almanac
  /-- Asks whether to retry after a failed attempt; no answer leaves it to the failure. -/
  consult : Failure → Nat → σ → Option Bool × σ
  announce : Failure → Nat → Int → σ → σ
  chance : σ → Number × σ
  wait : Int → σ → Except Raised Unit × σ
  note : Journal.Note → σ → σ

namespace RetryHost

def within {σ τ : Type} (h : RetryHost σ) (get : τ → σ) (set : σ → τ → τ) : RetryHost τ where
  isCancelled t := h.isCancelled (get t)
  almanac t := h.almanac (get t)
  consult f n t := let (answer, s) := h.consult f n (get t); (answer, set s t)
  announce f n delay t := set (h.announce f n delay (get t)) t
  chance t := let (x, s) := h.chance (get t); (x, set s t)
  wait ms t := let (result, s) := h.wait ms (get t); (result, set s t)
  note n t := set (h.note n (get t)) t

end RetryHost

structure OperationName where
  component : String
  name : String

namespace Raised

/-- Whether an error stops a run from outside; then it is not classified. -/
def isCancellation (e : Raised) : Bool :=
  match e.fault with
  | .foreign f => f.isA .interruption
  | .failure _ => false

/-- The failure that an error is.  A failure made from another error has that error as its cause. -/
def classify (a : Almanac) (component : String) (e : Raised) : Except ConversionError (Failure × List Fault) :=
  match e.fault with
  | .failure f => .ok (f, e.causes)
  | .foreign _ => (e.fault.classify a component).map fun f => (f, e.chain)

end Raised

namespace RetryPolicy

def spentAfter (r : Rounding) (spent : Double) (f : Failure) : Except ConversionError Double :=
  match f.metadata.requestCharge with
  | none => .ok spent
  | some charge =>
    if charge.isZero then .ok spent
    else (charge.toDouble r).map (Double.add r spent)

def overspent? (p : RetryPolicy) (spent : Double) (f : Failure) (component : String) :
    Except ConversionError (Option (Double × Failure)) :=
  match p.requestBudget with
  | none => .ok none
  | some budget =>
    if Double.lt budget spent then
      (Failure.budgetExhausted (.real spent) (.real budget) f component).map fun e => some (budget, e)
    else .ok none

variable {σ α : Type}

def consultCaller (p : RetryPolicy) (h : RetryHost σ) (f : Failure) (attempt : Nat) (s : σ) :
    Option Bool × σ :=
  if p.asksCaller then h.consult f attempt s else (none, s)

def nextDelay (r : Rounding) (p : RetryPolicy) (h : RetryHost σ) (f : Failure) (attempt : Nat) (s : σ) :
    Except ConversionError Int × σ :=
  if p.usesChance && (p.requestedDelay? f.metadata.retryAfterMs).isNone then
    let (chance, s) := h.chance s
    (p.delay r attempt f.metadata.retryAfterMs chance, s)
  else (p.delay r attempt f.metadata.retryAfterMs (.whole 0), s)

def exhaustedNote (op : OperationName) (attempt : Nat) (f : Failure) : Journal.Note :=
  ⟨.error, .backoff, op.name ++ " failed after " ++ toString (attempt + 1) ++ " attempts: " ++ f.message⟩

def overspentNote (op : OperationName) (spent budget : Double) : Journal.Note :=
  ⟨.error, .backoff, op.name ++ " stopped: retry RU budget exhausted (" ++ spent.fixedText 2 ++ "/" ++
    budget.fixedText 2 ++ ")"⟩

def retryNote (op : OperationName) (attempt : Nat) (f : Failure) (delay : Int) : Journal.Note :=
  ⟨.warning, .backoff, op.name ++ " attempt " ++ toString (attempt + 1) ++ " failed (" ++ f.kind.name ++
    "), retrying in " ++ toString delay ++ " ms"⟩

def prepareRetry (r : Rounding) (p : RetryPolicy) (h : RetryHost σ) (op : OperationName) (f : Failure)
    (attempt : Nat) (s : σ) : Except Raised Unit × σ :=
  match p.nextDelay r h f attempt s with
  | (.error e, s) => (.error (.ofConversion e), s)
  | (.ok delay, s) =>
    let s := h.note (retryNote op attempt f delay) s
    let s := if p.tellsCaller then h.announce f attempt delay s else s
    h.wait delay s

/-- Whether a failed attempt is followed by another, `left` retries being left: it ends with an error
that stops the run, or with the wait done. -/
def afterFailure (r : Rounding) (p : RetryPolicy) (h : RetryHost σ) (op : OperationName)
    (left attempt : Nat) (spent : Double) (f : Failure) (causes : List Fault) (s : σ) :
    Except Raised Unit × σ :=
  if !p.enabled then (.error ⟨.failure f, causes⟩, s)
  else
    let (answer, s) := p.consultCaller h f attempt s
    if !(answer.getD f.retryable) then (.error ⟨.failure f, causes⟩, s)
    else if left = 0 then (.error ⟨.failure f, causes⟩, h.note (exhaustedNote op attempt f) s)
    else
      match p.overspent? spent f op.component with
      | .error e => (.error (.ofConversion e), s)
      | .ok (some (budget, e)) =>
        (.error ⟨.failure e, .failure f :: causes⟩, h.note (overspentNote op spent budget) s)
      | .ok none => p.prepareRetry r h op f attempt s

def assess (r : Rounding) (a : Almanac) (op : OperationName) (spent : Double) (e : Raised) :
    Except ConversionError (Failure × List Fault × Double) := do
  let (f, causes) ← e.classify a op.component
  let spent ← spentAfter r spent f
  .ok (f, causes, spent)

def runFrom (r : Rounding) (p : RetryPolicy) (h : RetryHost σ) (op : OperationName)
    (call : σ → Except Raised α × σ) (left attempt : Nat) (spent : Double) (s : σ) : Except Raised α × σ :=
  if h.isCancelled s then (.error (.ofFailure (.aborted op.component (op.name ++ " aborted"))), s)
  else
    match call s with
    | (.ok a, s) => (.ok a, s)
    | (.error e, s) =>
      if e.isCancellation then (.error e, s)
      else
        match assess r (h.almanac s) op spent e with
        | .error e => (.error (.ofConversion e), s)
        | .ok (f, causes, spent) =>
          match p.afterFailure r h op left attempt spent f causes s, left with
          | (.error e, s), _ => (.error e, s)
          | (.ok (), s), left + 1 => runFrom r p h op call left (attempt + 1) spent s
          | (.ok (), s), 0 => (.error ⟨.failure f, causes⟩, s)

def runBy (r : Rounding) (p : RetryPolicy) (h : RetryHost σ) (op : OperationName)
    (call : σ → Except Raised α × σ) (s : σ) : Except Raised α × σ :=
  p.runFrom r h op call p.maxRetries 0 (.finite 0) s

def run (p : RetryPolicy) (h : RetryHost σ) (op : OperationName) (call : σ → Except Raised α × σ) (s : σ) :
    Except Raised α × σ :=
  p.runBy .binary64 h op call s

end RetryPolicy

def Failure.brokenWait : Failure :=
  .aborted "backoff" "Sleep aborted"

end SchemaInference
