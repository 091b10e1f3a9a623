import SchemaInference.Moment.FreeDate
import SchemaInference.Proofs.Retry.Delays
import SchemaInference.Proofs.Retry.Turns

set_option autoImplicit false

namespace SchemaInference

def Raised.Readable (e : Raised) (a : Almanac) : Prop :=
  match e.fault with
  | .failure f => ∀ n, f.metadata.requestCharge = some (.whole n) → Fits n
  | .foreign x => x.toValue.Readable a

theorem Raised.fault_ofConversion_ne (n : ConversionError) (f : Failure) : (ofConversion n).fault ≠ .failure f :=
  nofun

namespace RetryCourse

variable {α : Type} (c : RetryCourse α) (p : RetryPolicy) (op : OperationName)

def TriesAgain (i : Nat) (a : FailedAttempt) : Prop :=
  p.enabled = true ∧ c.retries p i a.failure = true ∧ i < p.maxRetries ∧
    (p.requestBudget.filter fun budget => budget.lt (c.spent op (i + 1))) = none

variable {c p op} {i : Nat}

theorem exists_attempt_iff (hpresent : (c.almanac i).present.InCalendar) {e : Raised} (he : c.outcome i = .error e)
    (hexception : e.isCancellation = false) : (∃ a, c.attempt op i = .ok a) ↔ e.Readable (c.almanac i) := by
  have hattempt : (∃ a, c.attempt op i = .ok a) ↔ ∃ f causes,
      e.classify (c.almanac i) op.component = .ok (f, causes) ∧ Converts f.charge := by
    simp only [attempt_eq_ok_iff, he]
    constructor
    · rintro ⟨a, _, ⟨rfl⟩, -, hclassify, hcharge⟩
      exact ⟨a.failure, a.causes, hclassify, a.charge, hcharge⟩
    · rintro ⟨f, causes, hclassify, charge, hcharge⟩
      exact ⟨⟨f, causes, charge⟩, e, rfl, hexception, hclassify, hcharge⟩
  rw [hattempt]
  obtain ⟨fault, before⟩ := e
  cases fault with
  | failure f =>
    change _ ↔ ∀ n, f.metadata.requestCharge = some (.whole n) → Fits n
    rw [← Failure.converts_charge]
    constructor
    · rintro ⟨_, _, ⟨rfl, rfl⟩, hcharge⟩
      exact hcharge
    · exact fun hcharge => ⟨f, before, rfl, hcharge⟩
  | foreign x =>
    change _ ↔ x.toValue.Readable (c.almanac i)
    rw [← Raised.converts_classify_foreign hpresent]
    constructor
    · rintro ⟨f, causes, hclassify, -⟩
      exact ⟨(f, causes), hclassify⟩
    · rintro ⟨⟨f, causes⟩, hclassify⟩
      exact ⟨f, causes, hclassify, Raised.converts_charge hclassify⟩

theorem stop?_eq_unreckonable_iff {a : FailedAttempt} (ha : c.attempt op i = .ok a) {n : ConversionError} :
    c.stop? p op i = some (.unreckonable n) ↔ c.TriesAgain p op i a ∧
      p.delay .binary64 i a.failure.metadata.retryAfterMs (c.chance i) = .error n := by
  unfold TriesAgain stop?
  rw [ha]
  grind

/-- The delay after a failed attempt is the last number that may have no conversion. -/
theorem stop?_ne_unreckonable_iff {a : FailedAttempt} (ha : c.attempt op i = .ok a) :
    (∀ n, c.stop? p op i ≠ some (.unreckonable n)) ↔ (c.TriesAgain p op i a →
      ∃ d, p.delay .binary64 i a.failure.metadata.retryAfterMs (c.chance i) = .ok d) := by
  simp only [ne_eq, stop?_eq_unreckonable_iff ha]
  cases p.delay .binary64 i a.failure.metadata.retryAfterMs (c.chance i) <;> simp

/-- No number of an attempt, its charge and its delay included, is without a conversion. -/
def Reckonable (c : RetryCourse α) (p : RetryPolicy) (op : OperationName) (i : Nat) : Prop :=
  ∀ e, c.outcome i = .error e →
    (∃ a, c.attempt op i = .ok a) ∧ ∀ n, c.stop? p op i ≠ some (.unreckonable n)

theorem reckonable_iff (hpresent : (c.almanac i).present.InCalendar)
    (hexception : ∀ e, c.outcome i = .error e → e.isCancellation = false) :
    c.Reckonable p op i ↔ ∀ e, c.outcome i = .error e → e.Readable (c.almanac i) ∧
      ∀ a, c.attempt op i = .ok a → c.TriesAgain p op i a →
        ∃ d, p.delay .binary64 i a.failure.metadata.retryAfterMs (c.chance i) = .ok d := by
  refine forall₂_congr fun e he => ?_
  rw [exists_attempt_iff hpresent he (hexception e he)]
  refine and_congr_right fun hreadable => ?_
  obtain ⟨a, ha⟩ : ∃ a, c.attempt op i = .ok a :=
    (exists_attempt_iff hpresent he (hexception e he)).mpr hreadable
  rw [stop?_ne_unreckonable_iff ha]
  simp [ha]

theorem reckonable_of_none (h : c.stop? p op i = none) : c.Reckonable p op i := by
  obtain ⟨a, _, ha, -⟩ := (c.stop?_eq_none_iff p op).mp h
  exact fun _ _ => ⟨⟨a, ha⟩, by simp [h]⟩

theorem FailedAttempt.raises_failure_iff {a : FailedAttempt} {spent : Double} {component : String}
    {stop : RetryStop} : (∃ f, (a.error spent component stop).fault = .failure f) ↔
      ∀ n, stop ≠ .unreckonable n := by
  cases stop <;> simp [FailedAttempt.error, Raised.fault_ofConversion_ne]

theorem eq_unreckonable_of_attempt {e : Raised} {stop : RetryStop} (he : c.outcome i = .error e)
    (hexception : e.isCancellation = false) (ha : c.attempt op i = .error stop) :
    ∃ n, stop = .unreckonable n := by
  unfold attempt at ha
  rw [he] at ha
  simp only [hexception, Bool.false_eq_true, ↓reduceIte] at ha
  grind

theorem ending_raises_failure_iff (hexception : ∀ e, c.outcome i = .error e → e.isCancellation = false)
    {stop : RetryStop} (hstop : c.stop? p op i = some stop) :
    (∀ e, c.ending op i stop = .error e → ∃ f, e.fault = .failure f) ↔ c.Reckonable p op i := by
  unfold Reckonable ending
  rw [hstop]
  cases ha : c.attempt op i with
  | ok a =>
    obtain ⟨e, he, -⟩ := (c.attempt_eq_ok_iff op).mp ha
    simp [he, FailedAttempt.raises_failure_iff]
  | error reason =>
    obtain rfl : reason = stop := by simpa [stop?, ha] using hstop
    cases he : c.outcome i with
    | ok v =>
      obtain rfl : reason = .succeeded := by simpa [attempt, he, eq_comm] using ha
      simp
    | error e =>
      obtain ⟨n, rfl⟩ := eq_unreckonable_of_attempt he (hexception e he) ha
      simp [Raised.fault_ofConversion_ne]

theorem run_raises_failure_iff_reckonable (c : RetryCourse α) (p : RetryPolicy)
    (op : OperationName) (hexception : ∀ i e, c.outcome i = .error e → e.isCancellation = false) :
    (∀ e, (p.run c.host op c.call []).1 = .error e → ∃ f, e.fault = .failure f) ↔
      ∀ i, callsIn (p.run c.host op c.call []).2 = i + 1 → c.Reckonable p op i := by
  obtain ⟨k, hgoesOn, ⟨-, stop, hstop, hresult, hacts⟩ | ⟨-, hacts, component, message, haborted⟩⟩ :=
    c.run_endsAfter p op
  · rw [hresult, ending_raises_failure_iff (hexception k) hstop, hacts, callsIn_append, callsIn_history,
      callsIn_lastActs]
    exact ⟨fun h i hi => Nat.succ.inj hi ▸ h, fun h => h k rfl⟩
  · refine iff_of_true ?_ ?_
    · intro e he
      obtain rfl := Except.error.inj (haborted.symm.trans he)
      exact ⟨_, rfl⟩
    · intro i hi
      rw [hacts, callsIn_history] at hi
      exact reckonable_of_none (hgoesOn i (by omega)).2

def unavailableStore : RetryCourse Nat where
  outcome _ := .error (.ofForeign ⟨"StoreError", [], .ok "down",
    [("code", .text "503"), ("headers", .mapping [(.text "Retry-After", .text "Sat, 01 Jan 2000 00:00:02 GMT")])]⟩)
  almanac _ := FreeDate.atYear2000
  answer _ := .null
  chance _ := .real (.finite 0)
  isSet _ := false
  heeds _ := false

def superscriptStatus : RetryCourse Nat :=
  { unavailableStore with
    outcome := fun _ => .error (.ofForeign ⟨"StoreError", [], .ok "down", [("code", .text "²")]⟩) }

end RetryCourse

end SchemaInference
