import SchemaInference.Retry.Run
import SchemaInference.Sampling.Strategy

set_option autoImplicit false

namespace SchemaInference

structure SamplingState (σ η : Type) where
  store : σ
  host : η
  progress : List SamplingProgress

/-- The state between the attempts at a sample; chance goes on from attempt to attempt. -/
structure SamplingCourse (σ η : Type) extends SamplingState σ η where
  shuffled : List (List Value)

namespace SamplingPlan

def component : String := "document-sampler"

def recommendedSize : Nat := 10000

def badSize (size : Value) : Failure :=
  .validation ("Sample size must be a positive integer, got " ++ size.literal) component
    [("sample_size", .text size.literal)]

def badStrategy (name : String) : Failure :=
  .validation ("Invalid sampling strategy: " ++ name) component
    [("strategy", .text name), ("valid_strategies", .list (SamplingStrategy.all.map fun s => .text s.name))]

def check (size : Value) (strategy : String) : Except Failure (Nat × SamplingStrategy) :=
  match size with
  | .whole n =>
    if n ≤ 0 then .error (badSize size)
    else
      match SamplingStrategy.ofName? strategy with
      | some s => .ok (n.toNat, s)
      | none => .error (badStrategy strategy)
  | _ => .error (badSize size)

def sizeNote? (size : Nat) : Option Journal.Note :=
  if recommendedSize < size then
    some ⟨.warning, .sampler, "sample size " ++ toString size ++ " exceeds recommended maximum " ++
      toString recommendedSize⟩
  else none

end SamplingPlan

namespace Sampling

variable {σ φ η : Type}

def attempt (store : Store σ φ) (h : RetryHost η) (plan : SamplingPlan) (s : SamplingCourse σ η) :
    Except Raised Sample × SamplingCourse σ η :=
  let (result, a) := (byPlan store plan).run (.initial s.store s.shuffled)
  (result,
    { store := a.store
      host := a.notes.foldl (fun host n => h.note n host) s.host
      progress := s.progress ++ a.progress
      shuffled := a.shuffled })

def hostWithin (h : RetryHost η) : RetryHost (SamplingCourse σ η) :=
  h.within (·.host) fun host s => { s with host }

def draw (store : Store σ φ) (h : RetryHost η) (policy : RetryPolicy) (plan : SamplingPlan)
    (s : SamplingState σ η) : Except Raised Sample × SamplingState σ η :=
  let host := match SamplingPlan.sizeNote? plan.limits.target with
    | some n => h.note n s.host
    | none => s.host
  let (result, after) := policy.run (hostWithin h)
    ⟨SamplingPlan.component, plan.strategy.name ++ " sampling"⟩ (attempt store h plan)
    { s with host, shuffled := [] }
  (result, after.toSamplingState)

end Sampling

end SchemaInference
