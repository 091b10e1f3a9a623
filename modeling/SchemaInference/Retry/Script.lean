import SchemaInference.Retry.Run

set_option autoImplicit false

namespace SchemaInference

inductive RetryStep
  | call
  | consultation
  | announcement
  | wait
  | afterWait
deriving DecidableEq

inductive RetryEvent
  | call (number : Nat)
  | consultation (kind : FailureKind) (attempt : Nat) (answer : Value)
  | announcement (kind : FailureKind) (attempt : Nat) (delay : Int)
  | wait (delay : Int)

structure RetryScript where
  isCancelled : Bool
  cancelAt : Option (RetryStep × Nat)
  answers : List Value
  chances : List Number
  calls : Nat
  events : List RetryEvent
  notes : List Journal.Note

namespace RetryScript

def start (isCancelled : Bool) (cancelAt : Option (RetryStep × Nat)) (answers : List Value)
    (chances : List Number) : RetryScript where
  isCancelled := isCancelled
  cancelAt := cancelAt
  answers := answers
  chances := chances
  calls := 0
  events := []
  notes := []

def record (e : RetryEvent) (s : RetryScript) : RetryScript :=
  { s with events := s.events ++ [e] }

def pass (step : RetryStep) (s : RetryScript) : RetryScript :=
  match s.cancelAt with
  | some (at_, n) =>
    if at_ ≠ step then s
    else if n = 1 then { s with isCancelled := true, cancelAt := none }
    else { s with cancelAt := some (at_, n - 1) }
  | none => s

def consult (f : Failure) (attempt : Nat) (s : RetryScript) : Option Bool × RetryScript :=
  let answer := s.answers.headD .null
  let decision := match answer with
    | .bool b => some b
    | _ => none
  (decision, ({ s with answers := s.answers.tail }.record (.consultation f.kind attempt answer)).pass
    .consultation)

def wait (delay : Int) (s : RetryScript) : Except Raised Unit × RetryScript :=
  let s := (s.record (.wait delay)).pass .wait
  if s.isCancelled then (.error (.ofFailure .brokenWait), s) else (.ok (), s.pass .afterWait)

def host (a : Almanac) : RetryHost RetryScript where
  isCancelled s := s.isCancelled
  almanac _ := a
  consult := consult
  announce f attempt delay s := (s.record (.announcement f.kind attempt delay)).pass .announcement
  chance s := (s.chances.headD (.real (.ofRat .binary64 (1 / 2))), { s with chances := s.chances.tail })
  wait := wait
  note n s := { s with notes := s.notes ++ [n] }

def countCall (s : RetryScript) : RetryScript :=
  let n := s.calls + 1
  ({ s with calls := n }.record (.call n)).pass .call

end RetryScript

/-- An operation whose outcomes are laid down; after the last it succeeds with a given value. -/
structure PlannedOperation where
  outcomes : List (Except Raised Value)
  script : RetryScript

namespace PlannedOperation

def call (otherwise : Value) (s : PlannedOperation) : Except Raised Value × PlannedOperation :=
  (s.outcomes.headD (.ok otherwise), ⟨s.outcomes.tail, s.script.countCall⟩)

def host (a : Almanac) : RetryHost PlannedOperation :=
  (RetryScript.host a).within (·.script) fun script s => { s with script }

end PlannedOperation

inductive CancelPlan
  | none
  | unset
  | set
  | later
deriving DecidableEq

/-- A wait of some milliseconds; one without length is over before a later cancellation. -/
def CancelPlan.wait (plan : CancelPlan) (ms : Number) : Except Raised Unit :=
  match plan with
  | set => .error (.ofFailure .brokenWait)
  | later => if Number.lt (.whole 0) ms then .error (.ofFailure .brokenWait) else .ok ()
  | _ => .ok ()

end SchemaInference
