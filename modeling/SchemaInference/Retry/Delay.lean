import SchemaInference.Retry.Policy

set_option autoImplicit false

namespace SchemaInference

namespace RetryPolicy

def requestedDelay? (p : RetryPolicy) (retryAfter : Option Number) : Option Number :=
  if p.respectRetryAfter then retryAfter.filter fun ms => Number.lt (.whole 0) ms else none

def doubledDelay (r : Rounding) (p : RetryPolicy) (attempt : Int) : Except ConversionError Number :=
  match attempt with
  | .ofNat k => .ok (.whole (p.baseDelayMs * Nat.pow 2 k : Nat))
  | .negSucc k => Number.mul r (.whole p.baseDelayMs) (.real (.ofRat r (mkRat 1 (Nat.pow 2 (k + 1)))))

def grownDelay (r : Rounding) (p : RetryPolicy) (attempt : Int) : Except ConversionError Number :=
  match p.style with
  | .exponential => p.doubledDelay r attempt
  | .linear => .ok (.whole (p.baseDelayMs * (attempt + 1)))
  | .fixed => .ok (.whole p.baseDelayMs)

def usesChance (p : RetryPolicy) : Bool :=
  Double.lt (.finite 0) p.jitter

/-- A delay changed by chance; `chance` runs from zero to one, and one half changes nothing. -/
def jittered (r : Rounding) (p : RetryPolicy) (delay chance : Number) : Except ConversionError Number := do
  let centred ← Number.sub r (← Number.mul r chance (.whole 2)) (.whole 1)
  let spread ← Number.mul r (← Number.mul r delay (.real p.jitter)) centred
  let changed ← Number.add r delay spread
  .ok (Number.greatest (.whole 0) changed)

/-- Whole milliseconds to wait after a failed attempt, the first attempt being number zero. -/
def delay (r : Rounding) (p : RetryPolicy) (attempt : Int) (retryAfter : Option Number) (chance : Number) :
    Except ConversionError Int := do
  match p.requestedDelay? retryAfter with
  | some ms => (Number.least ms (.whole p.maxDelayMs)).truncate
  | none =>
    let cut := Number.least (← p.grownDelay r attempt) (.whole p.maxDelayMs)
    if p.usesChance then (← p.jittered r cut chance).truncate else cut.truncate

end RetryPolicy

end SchemaInference
