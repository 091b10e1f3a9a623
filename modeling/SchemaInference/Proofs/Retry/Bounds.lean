import SchemaInference.Proofs.Number.Exact
import SchemaInference.Proofs.Retry.Delays

set_option autoImplicit false

namespace SchemaInference

structure Number.IsShare (n : Number) (q : Rat) : Prop where
  denotes : n.Denotes q
  nonneg : 0 ≤ q
  le_one : q ≤ 1

namespace RetryPolicy

variable (p : RetryPolicy) {j : Rat}

theorem styleDelay_mono : Monotone p.styleDelay := by
  intro m n hmn
  unfold styleDelay
  cases p.style with
  | exponential => exact Nat.mul_le_mul_left _ (Nat.pow_le_pow_right two_pos hmn)
  | linear => exact Nat.mul_le_mul_left _ (Nat.succ_le_succ hmn)
  | fixed => exact le_rfl

theorem plannedDelay_mono : Monotone p.plannedDelay :=
  fun _ _ hmn => min_le_min_right _ (p.styleDelay_mono hmn)

theorem requestedDelay?_eq_some_iff {retryAfter : Option Number} {ms : Number} :
    p.requestedDelay? retryAfter = some ms ↔
      p.respectRetryAfter = true ∧ retryAfter = some ms ∧ Number.lt (.whole 0) ms = true := by
  unfold requestedDelay?
  split <;> simp_all [Option.filter_eq_some_iff]

theorem delay_of_requested {retryAfter : Option Number} {ms : Number} {q : Rat}
    (h : p.requestedDelay? retryAfter = some ms) (hms : ms.Denotes q) (r : Rounding) (attempt : Int)
    (chance : Number) : p.delay r attempt retryAfter chance = .ok ⌊min q p.maxDelayMs⌋ := by
  have hpos : 0 < q := by
    have hlt := (p.requestedDelay?_eq_some_iff.mp h).2.2
    rwa [(Number.denotes_whole 0).lt_iff hms, Int.cast_zero] at hlt
  unfold delay
  rw [h]
  exact (hms.least (Number.denotes_whole p.maxDelayMs)).truncate (le_min hpos.le (Nat.cast_nonneg _))

theorem usesChance_iff (hj : (Number.real p.jitter).IsShare j) : p.usesChance = true ↔ 0 < j :=
  (Number.denotes_whole 0).lt_iff hj.denotes

theorem jittered_exact (hj : (Number.real p.jitter).IsShare j) (n : Nat) {chance : Number} {x : Rat}
    (hx : chance.Denotes x) : ∃ z, p.jittered .exact (.whole n) chance = .ok z ∧
      z.Denotes (max 0 (n + n * j * (x * 2 - 1))) := by
  obtain ⟨doubled, hdoubled, h⟩ := hx.mul (Number.denotes_whole 2)
  obtain ⟨centred, hcentred, h⟩ := h.sub (Number.denotes_whole 1)
  obtain ⟨most, hmost, h'⟩ := (Number.denotes_whole n).mul hj.denotes
  obtain ⟨spread, hspread, h⟩ := h'.mul h
  obtain ⟨changed, hchanged, h⟩ := (Number.denotes_whole n).add h
  refine ⟨Number.greatest (.whole 0) changed, ?_, ?_⟩
  · simp only [jittered, hdoubled, hcentred, hmost, hspread, hchanged, bind, Except.bind]
  · simpa using (Number.denotes_whole 0).greatest h

theorem spread_bounds {n x : Rat} (hn : 0 ≤ n) (h0 : 0 ≤ j) (hx0 : 0 ≤ x) (hx1 : x ≤ 1) :
    n * (1 - j) ≤ n + n * j * (x * 2 - 1) ∧ n + n * j * (x * 2 - 1) ≤ n * (1 + j) := by
  have hnj : 0 ≤ n * j := mul_nonneg hn h0
  constructor <;> nlinarith

/-- A delay that is not asked for lies within the share of the policy around the planned one. -/
theorem delay_of_planned (hj : (Number.real p.jitter).IsShare j) {retryAfter : Option Number}
    (h : p.requestedDelay? retryAfter = none) (attempt : Nat) {chance : Number} {x : Rat}
    (hx : chance.IsShare x) : ∃ n : Int, p.delay .exact attempt retryAfter chance = .ok n ∧
      ⌊p.plannedDelay attempt * (1 - j)⌋ ≤ n ∧ n ≤ ⌊p.plannedDelay attempt * (1 + j)⌋ ∧
      (j = 0 → n = p.plannedDelay attempt) := by
  rw [p.delay_of_not_requested h]
  have hplanned : (0 : Rat) ≤ p.plannedDelay attempt := Nat.cast_nonneg _
  have hzero (hj0 : j = 0) : p.usesChance = false := by
    rw [Bool.eq_false_iff, Ne, p.usesChance_iff hj, hj0]
    exact lt_irrefl 0
  by_cases hchance : p.usesChance
  · obtain ⟨z, hz, hdenotes⟩ := p.jittered_exact hj (p.plannedDelay attempt) hx.denotes
    obtain ⟨hlow, hhigh⟩ := spread_bounds hplanned hj.nonneg hx.nonneg hx.le_one
    have hlow0 : 0 ≤ (p.plannedDelay attempt : Rat) * (1 - j) := mul_nonneg hplanned (sub_nonneg.mpr hj.le_one)
    rw [max_eq_right (hlow0.trans hlow)] at hdenotes
    refine ⟨_, ?_, Int.floor_le_floor hlow, Int.floor_le_floor hhigh, fun hj0 => ?_⟩
    · rw [if_pos hchance, hz]
      exact hdenotes.truncate (hlow0.trans hlow)
    · rw [hzero hj0] at hchance
      cases hchance
  · rw [if_neg hchance]
    have hj0 : j = 0 := le_antisymm (not_lt.mp fun hlt => hchance ((p.usesChance_iff hj).mpr hlt)) hj.nonneg
    refine ⟨_, rfl, ?_, ?_, fun _ => rfl⟩ <;> simp [hj0]

theorem exists_denotes_of_pos {ms : Number} (h : Number.lt (.whole 0) ms = true) :
    (∃ q, ms.Denotes q) ∨ ms = .real (.infinite false) := by
  cases ms with
  | whole i => exact .inl ⟨i, rfl⟩
  | real x =>
    cases x with
    | nan => cases h
    | infinite negative =>
      cases negative
      · exact .inr rfl
      · cases h
    | negativeZero => exact .inl ⟨0, rfl⟩
    | finite q => exact .inl ⟨q, rfl⟩

theorem exists_delay_le (hj : (Number.real p.jitter).IsShare j) (attempt : Nat) (retryAfter : Option Number)
    {chance : Number} {x : Rat} (hx : chance.IsShare x) : ∃ n : Int, p.delay .exact attempt retryAfter chance = .ok n ∧
      0 ≤ n ∧ (n : Rat) ≤ p.maxDelayMs * (1 + j) := by
  have hmax : (0 : Rat) ≤ p.maxDelayMs := Nat.cast_nonneg _
  have hcut : (p.maxDelayMs : Rat) ≤ p.maxDelayMs * (1 + j) :=
    le_mul_of_one_le_right hmax (le_add_of_nonneg_right hj.nonneg)
  cases hrequested : p.requestedDelay? retryAfter with
  | none =>
    obtain ⟨n, hn, hlow, hhigh, -⟩ := p.delay_of_planned hj hrequested attempt hx
    have hplanned : (p.plannedDelay attempt : Rat) ≤ p.maxDelayMs := Nat.cast_le.mpr (p.plannedDelay_le attempt)
    refine ⟨n, hn, le_trans ?_ hlow, ?_⟩
    · exact Int.floor_nonneg.mpr (mul_nonneg (Nat.cast_nonneg _) (sub_nonneg.mpr hj.le_one))
    · calc (n : Rat) ≤ p.plannedDelay attempt * (1 + j) := Int.le_floor.mp hhigh
        _ ≤ p.maxDelayMs * (1 + j) :=
          mul_le_mul_of_nonneg_right hplanned (add_nonneg zero_le_one hj.nonneg)
  | some ms =>
    have hpos := (p.requestedDelay?_eq_some_iff.mp hrequested).2.2
    obtain ⟨q, hq⟩ | rfl := exists_denotes_of_pos hpos
    · have hq0 : 0 < q := by rwa [(Number.denotes_whole 0).lt_iff hq, Int.cast_zero] at hpos
      refine ⟨_, p.delay_of_requested hrequested hq .exact attempt chance, ?_, ?_⟩
      · exact Int.floor_nonneg.mpr (le_min hq0.le hmax)
      · exact (Int.floor_le _).trans ((min_le_right _ _).trans hcut)
    · refine ⟨p.maxDelayMs, ?_, Int.natCast_nonneg _, hcut⟩
      unfold delay
      rw [hrequested]
      rfl

end RetryPolicy

end SchemaInference
