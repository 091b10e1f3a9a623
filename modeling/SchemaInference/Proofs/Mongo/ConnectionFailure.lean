import SchemaInference.Failure.Classification
import SchemaInference.Mongo.DriverError

set_option autoImplicit false

namespace SchemaInference.Mongo

namespace ErrorFamily

def isConnectionFailure : ErrorFamily → Bool
  | networkTimeout => true
  | connectionFailure => true
  | _ => false

end ErrorFamily

/-- An error of the driver about its connection, with a message. -/
def IsConnectionFailure (r : Raised) : Prop :=
  ∃ e family, r.fault = .foreign e ∧ e.family? = some family ∧ family.isConnectionFailure = true ∧
    ∃ message, e.shown = .ok message

/-- A failure for which a retry makes sense, by the status code of a lost connection or of a timeout. -/
def IsTransient (f : Failure) : Prop :=
  f.retryable = true ∧
    (f.metadata.statusCode = some 503 ∧ f.kind = .serviceUnavailable ∨
      f.metadata.statusCode = some 408 ∧ f.kind = .requestTimeout)

variable {r : Raised}

theorem IsConnectionFailure.not_isRefusal (h : IsConnectionFailure r) : isRefusal r = false := by
  obtain ⟨e, family, hfault, hfamily, hconnection, -⟩ := h
  simp only [isRefusal, hfault, hfamily, Option.any_some]
  cases family <;> first | rfl | cases hconnection

theorem classify_requestError (message : String) (status : Int) (a : Almanac) (component : String) :
    (Fault.foreign (requestError message (some status) none .null .null)).classify a component =
      .ok (Failure.ofMetadata ⟨some status, none, none, none, none⟩ component message
        (requestError message (some status) none .null .null).toValue) := by
  rfl

/-- Restated, a connection failure is classified as transient at any time. -/
theorem IsConnectionFailure.classify_restated (h : IsConnectionFailure r) (a : Almanac) (component : String) :
    ∃ f, (restated r).fault.classify a component = .ok f ∧ IsTransient f := by
  obtain ⟨e, family, hfault, hfamily, hconnection, message, hshown⟩ := h
  have hrestated {request : ForeignError} (hrequest : requestErrorOf family e = .ok request) :
      (restated r).fault = .foreign request := by
    simp only [restated, hfault, hfamily, hrequest]
  cases family with
  | networkTimeout =>
    have hrequest : requestErrorOf .networkTimeout e = .ok (requestError message (some 408) none .null .null) := by
      rw [requestErrorOf, hshown]
      rfl
    rw [hrestated hrequest, classify_requestError]
    exact ⟨_, rfl, rfl, .inr ⟨rfl, rfl⟩⟩
  | connectionFailure =>
    have hrequest : requestErrorOf .connectionFailure e =
        .ok (requestError message (some 503) none .null .null) := by
      rw [requestErrorOf, hshown]
      rfl
    rw [hrestated hrequest, classify_requestError]
    exact ⟨_, rfl, rfl, .inl ⟨rfl, rfl⟩⟩
  | executionTimeout | operationFailure | other => cases hconnection

end SchemaInference.Mongo
