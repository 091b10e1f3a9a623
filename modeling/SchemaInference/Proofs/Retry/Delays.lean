import SchemaInference.Proofs.Number.Magnitude
import SchemaInference.Retry.Delay
import Mathlib.Tactic.NormNum

set_option autoImplicit false

namespace SchemaInference

namespace RetryPolicy

variable (p : RetryPolicy)

theorem exists_truncate_least {ms : Number} (hpos : Number.lt (.whole 0) ms = true) (n : Int) :
    ∃ d, (Number.least ms (.whole n)).truncate = .ok d := by
  unfold Number.least
  by_cases hcut : Number.lt (.whole n) ms
  · exact ⟨n, by rw [if_pos hcut]; rfl⟩
  rw [if_neg hcut]
  cases ms with
  | whole i => exact ⟨i, rfl⟩
  | real x =>
    cases x with
    | nan => simp [Number.lt, Double.lt, Number.widened] at hpos
    | infinite negative =>
      cases negative <;> simp [Number.lt, Double.lt, Number.widened] at hpos hcut
    | negativeZero => exact ⟨0, rfl⟩
    | finite q => exact ⟨_, rfl⟩

theorem exists_delay_of_requested {retryAfter : Option Number} {ms : Number}
    (h : p.requestedDelay? retryAfter = some ms) (r : Rounding) (attempt : Int) (chance : Number) :
    ∃ d, p.delay r attempt retryAfter chance = .ok d := by
  have hpos : Number.lt (.whole 0) ms = true := by
    unfold requestedDelay? at h
    split at h
    · exact (Option.filter_eq_some_iff.mp h).2
    · cases h
  unfold delay
  rw [h]
  exact exists_truncate_least hpos p.maxDelayMs

def styleDelay (attempt : Nat) : Nat :=
  match p.style with
  | .exponential => p.baseDelayMs * 2 ^ attempt
  | .linear => p.baseDelayMs * (attempt + 1)
  | .fixed => p.baseDelayMs

def plannedDelay (attempt : Nat) : Nat :=
  min (p.styleDelay attempt) p.maxDelayMs

theorem plannedDelay_le (attempt : Nat) : p.plannedDelay attempt ≤ p.maxDelayMs :=
  min_le_right _ _

theorem grownDelay_eq (r : Rounding) (attempt : Nat) :
    p.grownDelay r attempt = .ok (.whole (p.styleDelay attempt)) := by
  unfold grownDelay styleDelay
  cases p.style <;> rfl

theorem least_whole (m n : Nat) : Number.least (.whole m) (.whole n) = .whole (min m n : Nat) := by
  have hlt : Number.lt (.whole n) (.whole m) = decide (n < m) := by
    simp [Number.lt, Double.lt, Number.widened, Double.toRat?]
  unfold Number.least
  rw [hlt]
  by_cases h : n < m
  · simp [h, Nat.min_eq_right h.le]
  · simp [h, Nat.min_eq_left (Nat.le_of_not_lt h)]

theorem delay_of_not_requested {retryAfter : Option Number} (h : p.requestedDelay? retryAfter = none)
    (r : Rounding) (attempt : Nat) (chance : Number) : p.delay r attempt retryAfter chance =
      if p.usesChance then p.jittered r (.whole (p.plannedDelay attempt)) chance >>= Number.truncate
      else .ok (p.plannedDelay attempt) := by
  unfold delay
  rw [h, p.grownDelay_eq]
  simp only [bind, Except.bind, least_whole]
  rfl

theorem exists_jittered {n : Nat} {x : Double} (hjitter : p.jitter.Within 1) (hn : n ≤ 2 ^ 1000)
    (hx : x.Within 1) : ∃ d, p.jittered .binary64 (.whole n) (.real x) >>= Number.truncate = .ok d := by
  have hcut : |((n : Int) : Rat)| ≤ 2 ^ 1000 := by
    rw [Int.cast_natCast, Nat.abs_cast]
    exact_mod_cast hn
  have hone : (1 : Rat) ≤ 2 ^ 1000 := one_le_pow₀ one_le_two
  have hrange {b : Rat} (h : b ≤ 2 ^ 20 * 2 ^ 1000) : b < 2 ^ 1024 :=
    Rounding.lt_range (h.trans_eq (pow_add 2 20 1000).symm) (by omega)
  generalize (2 : Rat) ^ 1000 = bound at hcut hone hrange
  obtain ⟨two, htwo, twoWithin⟩ :=
    Number.within_toDouble_whole (i := 2) (b := 2) (by norm_num) (hrange (by linarith))
  obtain ⟨one, hone', oneWithin⟩ :=
    Number.within_toDouble_whole (i := 1) (b := 1) (by norm_num) (hrange (by linarith))
  obtain ⟨cut, hcut', cutWithin⟩ := Number.within_toDouble_whole hcut (hrange (by linarith))
  have hcentred := (hx.mul twoWithin (hrange (by linarith))).sub oneWithin (hrange (by linarith))
  have hspread := (cutWithin.mul hjitter (hrange (by linarith))).mul hcentred (hrange (by linarith))
  have hchanged := cutWithin.add hspread (hrange (by linarith))
  simp only [jittered, Number.mul, Number.sub, Number.add, bind, Except.bind,
    Number.combine_real_left htwo, Number.combine_real_left hone', Number.combine_real_real,
    Number.combine_real_right hcut']
  unfold Number.greatest
  split
  · exact hchanged.truncate
  · exact ⟨0, rfl⟩

/-- Every delay of a policy can be had if chance has no part in it, or if the greatest delay is no more
than `2 ^ 1000` milliseconds and chance changes a delay by no more than its whole. -/
theorem exists_delay (h : p.usesChance = false ∨ p.maxDelayMs ≤ 2 ^ 1000 ∧ p.jitter.Within 1)
    (attempt : Nat) (retryAfter : Option Number) {x : Double} (hx : x.Within 1) :
    ∃ d, p.delay .binary64 attempt retryAfter (.real x) = .ok d := by
  cases hrequested : p.requestedDelay? retryAfter with
  | some ms => exact p.exists_delay_of_requested hrequested .binary64 attempt (.real x)
  | none =>
    rw [p.delay_of_not_requested hrequested .binary64 attempt (.real x)]
    rcases h with hchance | ⟨hmax, hjitter⟩
    · exact ⟨p.plannedDelay attempt, by simp [hchance]⟩
    · split
      · exact p.exists_jittered hjitter ((p.plannedDelay_le attempt).trans hmax) hx
      · exact ⟨p.plannedDelay attempt, rfl⟩

end RetryPolicy

end SchemaInference
