set_option autoImplicit false

namespace SchemaInference

inductive Severity
  | low
  | medium
  | high
  | critical
deriving DecidableEq, Inhabited

inductive FailureKind
  | badRequest
  | unauthorized
  | forbidden
  | notFound
  | requestTimeout
  | conflict
  | rateLimit
  | internalServerError
  | badGateway
  | serviceUnavailable
  | gatewayTimeout
  | validation
  | configuration
  | typeConflict
  | retryBudgetExhausted
  | aborted
  | unknown
deriving DecidableEq, Inhabited

namespace Severity

def name : Severity → String
  | low => "low"
  | medium => "medium"
  | high => "high"
  | critical => "critical"

def all : List Severity := [low, medium, high, critical]

def ofName? (name : String) : Option Severity :=
  all.find? (·.name == name)

end Severity

namespace FailureKind

def name : FailureKind → String
  | badRequest => "bad_request"
  | unauthorized => "unauthorized"
  | forbidden => "forbidden"
  | notFound => "not_found"
  | requestTimeout => "request_timeout"
  | conflict => "conflict"
  | rateLimit => "rate_limit"
  | internalServerError => "internal_server_error"
  | badGateway => "bad_gateway"
  | serviceUnavailable => "service_unavailable"
  | gatewayTimeout => "gateway_timeout"
  | validation => "validation"
  | configuration => "configuration"
  | typeConflict => "type_conflict"
  | retryBudgetExhausted => "retry_budget_exhausted"
  | aborted => "aborted"
  | unknown => "unknown"

def all : List FailureKind :=
  [badRequest, unauthorized, forbidden, notFound, requestTimeout, conflict, rateLimit,
    internalServerError, badGateway, serviceUnavailable, gatewayTimeout, validation, configuration,
    typeConflict, retryBudgetExhausted, aborted, unknown]

def ofName? (name : String) : Option FailureKind :=
  all.find? (·.name == name)

def severity : FailureKind → Severity
  | badRequest => .medium
  | unauthorized => .high
  | forbidden => .high
  | notFound => .low
  | requestTimeout => .medium
  | conflict => .medium
  | rateLimit => .medium
  | internalServerError => .high
  | badGateway => .high
  | serviceUnavailable => .high
  | gatewayTimeout => .high
  | validation => .high
  | configuration => .medium
  | typeConflict => .high
  | retryBudgetExhausted => .high
  | aborted => .low
  | unknown => .medium

def wording : FailureKind → String
  | badRequest => "Bad request"
  | unauthorized => "Unauthorized"
  | forbidden => "Forbidden"
  | notFound => "Not found"
  | requestTimeout => "Request timeout"
  | conflict => "Conflict"
  | rateLimit => "Request rate is large"
  | internalServerError => "Internal server error"
  | badGateway => "Bad gateway"
  | serviceUnavailable => "Service temporarily unavailable"
  | gatewayTimeout => "Gateway timeout"
  | validation => "Validation failed"
  | configuration => "Invalid configuration"
  | typeConflict => "Type conflict detected"
  | retryBudgetExhausted => "Retry RU budget exhausted"
  | aborted => "Operation aborted"
  | unknown => "Unknown error"

/-- The kind that a status code stands for, and whether a retry makes sense. -/
def ofStatus? (status : Int) : Option (FailureKind × Bool) :=
  if status = 400 then some (badRequest, false)
  else if status = 401 then some (unauthorized, false)
  else if status = 403 then some (forbidden, false)
  else if status = 404 then some (notFound, false)
  else if status = 408 then some (requestTimeout, true)
  else if status = 409 then some (conflict, false)
  else if status = 429 then some (rateLimit, true)
  else if status = 500 then some (internalServerError, true)
  else if status = 502 then some (badGateway, true)
  else if status = 503 then some (serviceUnavailable, true)
  else if status = 504 then some (gatewayTimeout, true)
  else if 500 ≤ status ∧ status ≤ 599 then some (internalServerError, true)
  else none

end FailureKind

end SchemaInference
