import SchemaInference.Proofs.Number.Magnitude

set_option autoImplicit false

namespace SchemaInference

namespace Rounding

theorem nearest_lt_iff (num bound : Nat) {den : Nat} (hden : 0 < den) (heven : (bound + 1) % 2 = 0) :
    nearest num den < bound + 1 ↔ 2 * num < 2 * (bound * den) + den := by
  obtain ⟨q, r, hnum, hr, hcases⟩ := nearest_cases num hden
  have horder : q < bound ∧ q * den + den ≤ bound * den ∨ q = bound ∧ q * den = bound * den ∨
      bound < q ∧ bound * den + den ≤ q * den := by
    rcases Nat.lt_trichotomy q bound with hlt | rfl | hgt
    · exact .inl ⟨hlt, by simpa [Nat.succ_mul] using Nat.mul_le_mul_right den hlt⟩
    · exact .inr (.inl ⟨rfl, rfl⟩)
    · exact .inr (.inr ⟨hgt, by simpa [Nat.succ_mul] using Nat.mul_le_mul_right den hgt⟩)
  generalize q * den = part at *
  generalize bound * den = limit at *
  omega

theorem lastPlace_one {num : Nat} (h : 53 ≤ num.log2) : lastPlace num 1 = num.log2 - 52 := by
  obtain ⟨k, hk⟩ := Nat.exists_eq_add_of_le' h
  have hne : num ≠ 0 := by
    rintro rfl
    simp at h
  have hwide : 1 * Nat.pow 2 (k + 53) ≤ num := by
    rw [Nat.one_mul, ← hk]
    exact Nat.log2_self_le hne
  have hone : Nat.log2 1 = 0 := by decide
  have hguess : (num.log2 : Int) - (1 : Nat).log2 - 53 = .ofNat k := by
    rw [Int.ofNat_eq_natCast, hk, hone]
    omega
  unfold lastPlace
  rw [hguess]
  dsimp only
  rw [if_pos (decide_eq_true hwide), Int.ofNat_eq_natCast, hk]
  omega

theorem abs_nearestPlaces_intCast {i : Int} (h : 53 ≤ i.natAbs.log2) : |nearestPlaces i| =
    (nearest i.natAbs (2 ^ (i.natAbs.log2 - 52)) * 2 ^ (i.natAbs.log2 - 52) : Nat) := by
  have hplace : lastPlace i.natAbs 1 = .ofNat (i.natAbs.log2 - 52) := by
    rw [lastPlace_one h, Int.ofNat_eq_natCast]
    omega
  rw [abs_nearestPlaces, Rat.num_intCast, Rat.den_intCast, hplace]
  simp [scaled, significand]

theorem div_le_nearest (num : Nat) {den : Nat} (hden : 0 < den) : num / den ≤ nearest num den := by
  obtain ⟨q, r, hnum, hr, hcases⟩ := nearest_cases num hden
  have hdiv : num / den = q := Nat.div_eq_of_lt_le (by omega) (by rw [Nat.succ_mul]; omega)
  omega

theorem two_pow_log2_le_nearest {num place : Nat} (hne : num ≠ 0) (hplace : place ≤ num.log2) :
    2 ^ num.log2 ≤ nearest num (2 ^ place) * 2 ^ place := by
  have hpow : 2 ^ num.log2 = 2 ^ (num.log2 - place) * 2 ^ place := by
    rw [← Nat.pow_add, Nat.sub_add_cancel hplace]
  have hdiv : 2 ^ (num.log2 - place) ≤ num / 2 ^ place := by
    rw [Nat.le_div_iff_mul_le (Nat.two_pow_pos _), ← hpow]
    exact Nat.log2_self_le hne
  rw [hpow]
  exact Nat.mul_le_mul_right _ (hdiv.trans (div_le_nearest _ (Nat.two_pow_pos _)))

/-- A number with more than 53 places stays below a power of two up to half of its last place. -/
theorem nearest_mul_lt_iff {num p : Nat} (h : 2 ^ (p + 52) ≤ num) :
    nearest num (2 ^ (num.log2 - 52)) * 2 ^ (num.log2 - 52) < 2 ^ (p + 53) ↔
      2 * num < 2 * ((2 ^ 53 - 1) * 2 ^ p) + 2 ^ p := by
  have hne : num ≠ 0 := Nat.pos_iff_ne_zero.mp (Nat.lt_of_lt_of_le (Nat.two_pow_pos _) h)
  have hlog : p + 52 ≤ num.log2 := (Nat.le_log2 hne).mpr h
  have htop : (2 : Nat) ^ (p + 53) = 2 ^ 53 * 2 ^ p := by rw [Nat.pow_add, Nat.mul_comm]
  rcases Nat.eq_or_lt_of_le hlog with heq | hlt
  · have hplace : num.log2 - 52 = p := by omega
    rw [hplace, htop, Nat.mul_lt_mul_right (Nat.two_pow_pos p)]
    exact nearest_lt_iff num (2 ^ 53 - 1) (Nat.two_pow_pos p) (by norm_num)
  · have hle : 2 ^ (p + 53) ≤ num := (Nat.le_log2 hne).mp hlt
    have hlarge := two_pow_log2_le_nearest hne (Nat.sub_le num.log2 52)
    have hpow : 2 ^ (p + 53) ≤ 2 ^ num.log2 := Nat.pow_le_pow_right (by omega) hlt
    refine iff_of_false (Nat.not_lt.mpr (hpow.trans hlarge)) ?_
    rw [htop] at hle
    generalize 2 ^ p = place at hle
    omega

theorem binary64_isSome_iff (i : Int) : (binary64.apply i).isSome = true ↔
    2 * i.natAbs < 2 * ((2 ^ 53 - 1) * 2 ^ 971) + 2 ^ 971 := by
  rcases Nat.lt_or_ge i.natAbs (2 ^ 1023) with hsmall | hlarge
  · have habs : 2 * |(i : Rat)| < 2 ^ 1024 := by
      rw [natAbs_cast, pow_succ' 2 1023]
      exact mul_lt_mul_of_pos_left (by exact_mod_cast hsmall) two_pos
    obtain ⟨v, hv, -⟩ := exists_binary64_apply habs
    refine iff_of_true (by rw [hv]; rfl) ?_
    rw [Nat.pow_add 2 971 52] at hsmall
    generalize 2 ^ 971 = place at hsmall ⊢
    omega
  · have hne : i ≠ 0 := by
      rintro rfl
      exact absurd hlarge (Nat.not_le.mpr (Nat.two_pow_pos 1023))
    have hlog : 53 ≤ i.natAbs.log2 := by
      refine (Nat.le_log2 (Int.natAbs_ne_zero.mpr hne)).mpr ((Nat.pow_le_pow_right two_pos ?_).trans hlarge)
      omega
    rw [← nearest_mul_lt_iff (p := 971) hlarge, binary64_apply_isSome (Rat.num_intCast i ▸ hne),
      abs_nearestPlaces_intCast hlog, Nat.cast_lt, Nat.pow_eq]

end Rounding

def Fits (i : Int) : Prop :=
  i.natAbs < 2 ^ 1024 - 2 ^ 970

instance (i : Int) : Decidable (Fits i) :=
  inferInstanceAs (Decidable (_ < _))

theorem fits_iff (i : Int) : Fits i ↔ 2 * i.natAbs < 2 * ((2 ^ 53 - 1) * 2 ^ 971) + 2 ^ 971 := by
  have hplace : (2 : Nat) ^ 971 = 2 * 2 ^ 970 := pow_succ' 2 970
  have htop : (2 : Nat) ^ 1024 = 2 ^ 54 * 2 ^ 970 := pow_add 2 54 970
  unfold Fits
  rw [htop, hplace]
  generalize 2 ^ 970 = half
  omega

theorem exists_ofInt_iff (i : Int) : (∃ x, Double.ofInt .binary64 i = .ok x) ↔ Fits i := by
  rw [fits_iff, ← Rounding.binary64_isSome_iff]
  unfold Double.ofInt
  cases Rounding.binary64.apply i <;> simp

example : Fits (2 ^ 1024 - 2 ^ 970 - 1) ∧ ¬Fits (2 ^ 1024 - 2 ^ 970) := by decide +kernel

end SchemaInference
