import SchemaInference.Journal.ErrorLog
import SchemaInference.Sampling.Run
import SchemaInference.Schema.Inference

set_option autoImplicit false

namespace SchemaInference

structure SampledInference (σ η : Type) where
  outcome : Except Raised InferredSchema
  state : SamplingState σ η
  reports : List ProgressReport
  errors : List ErrorEntry

structure InferenceRequest where
  typeName : String
  strategyName : String
  storeName : Option String

namespace InferenceRequest

def context (q : InferenceRequest) : Value :=
  .record [("type_name", .text q.typeName), ("strategy", .text q.strategyName),
    ("container", .ofText? q.storeName)]

end InferenceRequest

namespace SamplingProgress

def share (p : SamplingProgress) : Double :=
  match Double.quotient .binary64 p.sampled p.target with
  | .ok x => x
  | .error _ => .finite 1

def report (p : SamplingProgress) : ProgressReport :=
  ⟨"sampling", "Sampled " ++ toString p.sampled ++ "/" ++ toString p.target ++ " documents", p.share,
    [("sampled", .whole p.sampled), ("target", .whole p.target), ("ru_consumed", .real p.charge)]⟩

end SamplingProgress

namespace Sample

def note? (s : Sample) : Option Journal.Note :=
  if s.status = .completed then none
  else some ⟨.warning, .schema, "sampling ended with status " ++ s.status.name ++ " after " ++
    toString s.documents.length ++ " document(s)"⟩

end Sample

namespace SampledInference

variable {σ φ η : Type}

def noteAll (h : RetryHost η) (notes : List Journal.Note) (s : SamplingState σ η) : SamplingState σ η :=
  { s with host := notes.foldl (fun host n => h.note n host) s.host }

/-- The end of a run whose sample failed: a failure is logged under an identifier, another error is not. -/
def failed (h : RetryHost η) (q : InferenceRequest) (id : String) (e : Raised) (s : SamplingState σ η) :
    SampledInference σ η :=
  let entries := match e.fault with
    | .failure f => [ErrorEntry.make q.context e f.message]
    | .foreign _ => []
  { outcome := .error e
    state := noteAll h (entries.map (·.note id)) s
    reports := s.progress.map (·.report)
    errors := entries }

def ofSample (h : RetryHost η) (settings : Settings) (q : InferenceRequest) (sample : Sample)
    (s : SamplingState σ η) : SampledInference σ η :=
  let (g, documents) := Graph.ofValues sample.documents
  let run := InferredSchema.run .binary64 settings g documents q.typeName
  { outcome := run.outcome.mapError Raised.ofFailure
    state := noteAll h (sample.note?.toList ++ run.notes) s
    reports := s.progress.map (·.report) ++ run.reports
    errors := [] }

def run (store : Store σ φ) (h : RetryHost η) (policy : RetryPolicy) (settings : Settings)
    (q : InferenceRequest) (id : String) (plan : Except Failure SamplingPlan) (s : SamplingState σ η) :
    SampledInference σ η :=
  match plan with
  | .error f => failed h q id (.ofFailure f) s
  | .ok plan =>
    match Sampling.draw store h policy plan s with
    | (.error e, s) => failed h q id e s
    | (.ok sample, s) => ofSample h settings q sample s

end SampledInference

end SchemaInference
