import SchemaInference.Number.Double
import Mathlib.Algebra.Order.Field.Rat
import Mathlib.Tactic.Linarith
import Mathlib.Tactic.Positivity
import Mathlib.Tactic.Ring

set_option autoImplicit false

namespace SchemaInference

namespace Rounding

theorem nearest_cases (num : Nat) {den : Nat} (hden : 0 < den) : ∃ q r, num = q * den + r ∧ r < den ∧
    (nearest num den = q ∧ 2 * r ≤ den ∧ (2 * r = den → q % 2 = 0) ∨
      nearest num den = q + 1 ∧ den ≤ 2 * r ∧ (2 * r = den → q % 2 = 1)) := by
  have hdiv := Nat.div_add_mod num den
  rw [Nat.mul_comm] at hdiv
  refine ⟨num / den, num % den, hdiv.symm, Nat.mod_lt num hden, ?_⟩
  unfold nearest
  dsimp only
  split
  · omega
  · split
    · omega
    · split <;> omega

theorem nearest_mul_le (num : Nat) {den : Nat} (hden : 0 < den) : nearest num den * den ≤ 2 * num := by
  obtain ⟨q, r, hnum, hr, ⟨hnearest, -⟩ | ⟨hnearest, hhalf, -⟩⟩ := nearest_cases num hden
  · rw [hnearest]
    omega
  · rw [hnearest, Nat.succ_mul]
    omega

theorem scaled_significand_le (num : Nat) {den : Nat} (hden : 0 < den) (e : Int) :
    scaled (significand num den e) e ≤ 2 * (num / den : Rat) := by
  have hpos : (0 : Rat) < den := by exact_mod_cast hden
  rw [← mul_div_assoc, le_div_iff₀ hpos]
  cases e with
  | ofNat k =>
    have h := nearest_mul_le num (Nat.mul_pos hden (Nat.two_pow_pos k))
    have hrat : (nearest num (den * 2 ^ k) * (den * 2 ^ k) : Rat) ≤ 2 * num := by exact_mod_cast h
    calc scaled (significand num den (.ofNat k)) (.ofNat k) * den
        = nearest num (den * 2 ^ k) * (den * 2 ^ k) := by
          simp only [scaled, significand, Nat.pow_eq]
          push_cast
          ring
      _ ≤ 2 * num := hrat
  | negSucc k =>
    have h := nearest_mul_le (num * 2 ^ (k + 1)) hden
    have hrat : (nearest (num * 2 ^ (k + 1)) den * den : Rat) ≤ 2 * num * 2 ^ (k + 1) := by
      rw [mul_assoc]
      exact_mod_cast h
    have htwo : (0 : Rat) < 2 ^ (k + 1) := by positivity
    have hscaled : scaled (significand num den (.negSucc k)) (.negSucc k) =
        nearest (num * 2 ^ (k + 1)) den / 2 ^ (k + 1) := by
      simp only [scaled, significand, Nat.pow_eq, Rat.mkRat_eq_div]
      push_cast
      rfl
    rw [hscaled, div_mul_eq_mul_div, div_le_iff₀ htwo]
    exact hrat

theorem scaled_neg (m e : Int) : scaled (-m) e = -scaled m e := by
  cases e with
  | ofNat k => simp [scaled]
  | negSucc k => simp [scaled, Rat.neg_mkRat]

theorem scaled_nonneg (m : Nat) (e : Int) : 0 ≤ scaled m e := by
  cases e with
  | ofNat k => simp only [scaled]; positivity
  | negSucc k => simp only [scaled, Rat.mkRat_eq_div]; positivity

theorem abs_scaled_signed (negative : Prop) [Decidable negative] (m : Nat) (e : Int) :
    |scaled (if negative then -(m : Int) else m) e| = scaled m e := by
  have hm := scaled_nonneg m e
  by_cases hnegative : negative
  · rw [if_pos hnegative, scaled_neg, abs_neg, abs_of_nonneg hm]
  · rw [if_neg hnegative, abs_of_nonneg hm]

theorem abs_eq_natAbs_div (q : Rat) : |q| = (q.num.natAbs : Rat) / q.den := by
  rw [Rat.abs_def, Rat.divInt_eq_div, Int.cast_natCast, Int.cast_natCast]

theorem ite_natAbs_lt (q : Rat) (n : Nat) :
    (if q.num.natAbs < n * q.den then some q else none) = if |q| < n then some q else none := by
  have hpos : (0 : Rat) < q.den := by exact_mod_cast q.pos
  have hiff : q.num.natAbs < n * q.den ↔ |q| < n := by
    rw [abs_eq_natAbs_div, div_lt_iff₀ hpos]
    norm_cast
  exact if_congr hiff rfl rfl

theorem natAbs_cast (i : Int) : |(i : Rat)| = i.natAbs := by
  rw [← Int.cast_abs, Int.abs_eq_natAbs, Int.cast_natCast]

theorem lt_range {b : Rat} {k : Nat} (h : b ≤ 2 ^ k) (hk : k < 1024) : b < 2 ^ 1024 :=
  h.trans_lt (pow_lt_pow_right₀ one_lt_two hk)

theorem natPow_two_cast (n : Nat) : ((Nat.pow 2 n : Nat) : Rat) = 2 ^ n := by
  rw [Nat.pow_eq, Nat.cast_pow, Nat.cast_ofNat]

def nearestPlaces (q : Rat) : Rat :=
  let e := lastPlace q.num.natAbs q.den
  scaled (if q.num < 0 then -(significand q.num.natAbs q.den e : Int) else significand q.num.natAbs q.den e) e

theorem binary64_apply {q : Rat} (hq : q.num ≠ 0) : binary64.apply q =
    if |nearestPlaces q| < (Nat.pow 2 1024 : Nat) then some (nearestPlaces q) else none :=
  (if_neg hq).trans (ite_natAbs_lt _ _)

theorem binary64_apply_isSome {q : Rat} (hq : q.num ≠ 0) :
    (binary64.apply q).isSome = true ↔ |nearestPlaces q| < (Nat.pow 2 1024 : Nat) := by
  rw [binary64_apply hq]
  split
  · rename_i hlt
    exact iff_of_true rfl hlt
  · rename_i hlt
    exact iff_of_false Bool.false_ne_true hlt

theorem abs_nearestPlaces (q : Rat) : |nearestPlaces q| =
    scaled (significand q.num.natAbs q.den (lastPlace q.num.natAbs q.den)) (lastPlace q.num.natAbs q.den) :=
  abs_scaled_signed _ _ _

theorem abs_nearestPlaces_le (q : Rat) : |nearestPlaces q| ≤ 2 * |q| := by
  rw [abs_nearestPlaces, abs_eq_natAbs_div]
  exact scaled_significand_le q.num.natAbs q.pos _

/-- A number of which twice the magnitude is below the range of doubles is rounded to at most that. -/
theorem exists_binary64_apply {q : Rat} (h : 2 * |q| < 2 ^ 1024) :
    ∃ v, binary64.apply q = some v ∧ |v| ≤ 2 * |q| := by
  by_cases hzero : q.num = 0
  · have hq : q = 0 := Rat.num_eq_zero.mp hzero
    subst hq
    exact ⟨0, rfl, by simp⟩
  · have hfits := (abs_nearestPlaces_le q).trans_lt h
    rw [← natPow_two_cast] at hfits
    exact ⟨_, (binary64_apply hzero).trans (if_pos hfits), abs_nearestPlaces_le q⟩

end Rounding

namespace Double

def Within (bound : Rat) (x : Double) : Prop :=
  ∃ q, x.toRat? = some q ∧ |q| ≤ bound

variable {a b : Rat} {x y : Double}

theorem within_ofExact (negative : Bool) {q : Rat} (hq : |q| ≤ b) (hb : 2 * b < 2 ^ 1024) :
    (ofExact .binary64 negative q).Within (2 * b) := by
  have hdouble : 2 * |q| ≤ 2 * b := by linarith
  obtain ⟨v, hv, hle⟩ := Rounding.exists_binary64_apply (hdouble.trans_lt hb)
  unfold ofExact
  rw [hv]
  dsimp only
  split
  · refine ⟨0, by unfold zero; split <;> rfl, ?_⟩
    simpa using (abs_nonneg q).trans (by linarith [abs_nonneg q] : |q| ≤ 2 * b)
  · exact ⟨v, rfl, hle.trans hdouble⟩

theorem Within.truncate (h : x.Within b) : ∃ i, x.truncate = .ok i := by
  obtain ⟨q, hq, -⟩ := h
  cases x with
  | nan => cases hq
  | infinite negative => cases hq
  | negativeZero => exact ⟨0, rfl⟩
  | finite r => exact ⟨_, rfl⟩

theorem within_ofInt {i : Int} (hi : |(i : Rat)| ≤ b) (hb : 2 * b < 2 ^ 1024) :
    ∃ x, ofInt .binary64 i = .ok x ∧ x.Within (2 * b) := by
  have hdouble : 2 * |(i : Rat)| ≤ 2 * b := by linarith
  obtain ⟨v, hv, hle⟩ := Rounding.exists_binary64_apply (hdouble.trans_lt hb)
  exact ⟨.finite v, by rw [ofInt, hv], v, rfl, hle.trans hdouble⟩

theorem Within.mul (hx : x.Within a) (hy : y.Within b) (hab : 2 * (a * b) < 2 ^ 1024) :
    (Double.mul .binary64 x y).Within (2 * (a * b)) := by
  obtain ⟨p, hp, hpa⟩ := hx
  obtain ⟨q, hq, hqb⟩ := hy
  have hpq : |p * q| ≤ a * b := by
    rw [abs_mul]
    exact mul_le_mul hpa hqb (abs_nonneg q) ((abs_nonneg p).trans hpa)
  unfold Double.mul
  rw [hp, hq]
  exact within_ofExact _ hpq hab

theorem Within.neg (hx : x.Within a) : x.neg.Within a := by
  obtain ⟨p, hp, hpa⟩ := hx
  cases x <;> cases hp
  case negativeZero => exact ⟨0, rfl, hpa⟩
  case finite =>
    unfold Double.neg
    dsimp only
    split
    · rename_i hzero
      exact ⟨0, rfl, by rwa [Rat.num_eq_zero.mp hzero] at hpa⟩
    · exact ⟨-p, rfl, by rwa [abs_neg]⟩

theorem Within.add (hx : x.Within a) (hy : y.Within b) (hab : 2 * (a + b) < 2 ^ 1024) :
    (Double.add .binary64 x y).Within (2 * (a + b)) := by
  obtain ⟨p, hp, hpa⟩ := hx
  obtain ⟨q, hq, hqb⟩ := hy
  have ha : 0 ≤ a := (abs_nonneg p).trans hpa
  have hb : 0 ≤ b := (abs_nonneg q).trans hqb
  cases x <;> cases y <;> cases hp <;> cases hq
  case negativeZero.negativeZero => exact ⟨0, rfl, by rw [abs_zero]; linarith⟩
  case negativeZero.finite => exact ⟨q, rfl, by linarith⟩
  case finite.negativeZero => exact ⟨p, rfl, by linarith⟩
  case finite.finite => exact within_ofExact _ ((abs_add_le p q).trans (add_le_add hpa hqb)) hab

theorem Within.sub (hx : x.Within a) (hy : y.Within b) (hab : 2 * (a + b) < 2 ^ 1024) :
    (Double.sub .binary64 x y).Within (2 * (a + b)) :=
  hx.add hy.neg hab

end Double

namespace Number

variable {r : Rounding} {onWhole : Int → Int → Int} {onReal : Double → Double → Double} {n : Number}
  {x y : Double}

theorem within_toDouble_whole {i : Int} {b : Rat} (hi : |(i : Rat)| ≤ b) (hb : 2 * b < 2 ^ 1024) :
    ∃ x, (whole i).toDouble .binary64 = .ok x ∧ x.Within (2 * b) :=
  Double.within_ofInt hi hb

theorem combine_real_real :
    combine r onWhole onReal (.real x) (.real y) = .ok (.real (onReal x y)) :=
  rfl

theorem combine_real_left (hn : n.toDouble r = .ok y) :
    combine r onWhole onReal (.real x) n = .ok (.real (onReal x y)) := by
  cases n <;> simp_all [combine, toDouble, bind, Except.bind]

theorem combine_real_right (hn : n.toDouble r = .ok x) :
    combine r onWhole onReal n (.real y) = .ok (.real (onReal x y)) := by
  cases n <;> simp_all [combine, toDouble, bind, Except.bind]

end Number

end SchemaInference
