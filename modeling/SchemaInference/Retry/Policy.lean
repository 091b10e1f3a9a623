import SchemaInference.Json.Text
import SchemaInference.Settings.Load

set_option autoImplicit false

namespace SchemaInference

inductive BackoffStyle
  | exponential
  | linear
  | fixed
deriving DecidableEq, Inhabited

namespace BackoffStyle

def name : BackoffStyle → String
  | exponential => "exponential"
  | linear => "linear"
  | fixed => "fixed"

def all : List BackoffStyle := [exponential, linear, fixed]

end BackoffStyle

structure RetryPolicy where
  enabled : Bool
  style : BackoffStyle
  baseDelayMs : Nat
  maxDelayMs : Nat
  /-- The greatest share by which chance changes a delay. -/
  jitter : Double
  maxRetries : Nat
  /-- The request units that failed attempts may use up; none for no limit. -/
  requestBudget : Option Double
  respectRetryAfter : Bool
  asksCaller : Bool
  tellsCaller : Bool

namespace RetryPolicy

def standard : RetryPolicy where
  enabled := true
  style := .exponential
  baseDelayMs := 100
  maxDelayMs := 30000
  jitter := .ofRat .binary64 (1 / 10)
  maxRetries := 3
  requestBudget := none
  respectRetryAfter := true
  asksCaller := false
  tellsCaller := false

/-- A function that may be given, of which the policy keeps whether it is there. -/
def callback : FieldKind Bool :=
  .checked (.optional .function) fun f => .ok f.isSome

def fields : Fields RetryPolicy :=
  (Fields.made RetryPolicy.mk)
    |>.field "enabled" .truth standard.enabled
    |>.field "strategy" (.choice BackoffStyle.all (·.name)) standard.style
    |>.field "base_delay_ms" (.natural (.atLeast 0)) standard.baseDelayMs
    |>.field "max_delay_ms" (.natural (.atLeast 0)) standard.maxDelayMs
    |>.field "jitter_factor" (.double (some 0) (some 1)) standard.jitter
    |>.field "max_retries" (.natural (.atLeast 0)) standard.maxRetries
    |>.field "max_retry_ru_budget" (.optional (.double (some 0) none)) standard.requestBudget
    |>.field "respect_retry_after" .truth standard.respectRetryAfter
    |>.field "should_retry" callback standard.asksCaller
    |>.field "on_retry" callback standard.tellsCaller

def load (V : Validation) (options : Options) : Except LoadError RetryPolicy :=
  (V.build fields (fun _ => .ok ()) options.normalized).mapError (LoadError.ofFault "retry")

def json (p : RetryPolicy) : Json :=
  .object [("enabled", .bool p.enabled), ("strategy", .text p.style.name),
    ("base_delay_ms", .whole p.baseDelayMs), ("max_delay_ms", .whole p.maxDelayMs),
    ("jitter_factor", .number (.real p.jitter)), ("max_retries", .whole p.maxRetries),
    ("max_retry_ru_budget", match p.requestBudget with
      | some budget => .number (.real budget)
      | none => .null),
    ("respect_retry_after", .bool p.respectRetryAfter), ("should_retry", .bool p.asksCaller),
    ("on_retry", .bool p.tellsCaller)]

end RetryPolicy

end SchemaInference
