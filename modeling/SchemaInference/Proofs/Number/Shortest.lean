import SchemaInference.Number.Decimal
import SchemaInference.Proofs.Number.Place

/-!
# Shortest decimals

Every point of the neighbourhood of a double is rounded to it, and the grid of seventeen digits has a point
there.  So the search for the shortest decimal ends, and what it finds is rounded to the double again.
-/

set_option autoImplicit false

namespace SchemaInference

namespace Decimal

open Rounding

variable {q x : Rat} {m : Nat} {e : Int}

theorem ten_zpow_pos (e : Int) : (0 : Rat) < 10 ^ e :=
  zpow_pos (by norm_num) e

theorem natPow_ten_cast (n : Nat) : ((Nat.pow 10 n : Nat) : Rat) = 10 ^ n := by
  rw [Nat.pow_eq, Nat.cast_pow, Nat.cast_ofNat]

theorem toRat_eq (d : Decimal) : d.toRat = d.digits * 10 ^ d.exponent := by
  obtain ⟨digits, exponent⟩ := d
  cases exponent with
  | ofNat k =>
    simp only [toRat]
    rw [Int.ofNat_eq_natCast, zpow_natCast, Nat.cast_mul, natPow_ten_cast]
  | negSucc k =>
    simp only [toRat]
    rw [Rat.mkRat_eq_div, zpow_negSucc, Int.cast_natCast, natPow_ten_cast, div_eq_mul_inv]

theorem toRat_stripZeros (fuel : Nat) (d : Decimal) : (stripZeros fuel d).toRat = d.toRat := by
  induction fuel generalizing d with
  | zero => rfl
  | succ fuel ih =>
    rw [stripZeros]
    split
    · rename_i hzero
      obtain ⟨n, hn⟩ := Nat.dvd_of_mod_eq_zero hzero.2
      rw [ih, toRat_eq, toRat_eq, hn, Nat.mul_div_cancel_left n (by norm_num), zpow_add_one₀ (by norm_num)]
      push_cast
      ring
    · rfl

theorem digits_stripZeros_ne_zero (fuel : Nat) {d : Decimal} (h : d.digits ≠ 0) : (stripZeros fuel d).digits ≠ 0 := by
  induction fuel generalizing d with
  | zero => exact h
  | succ fuel ih =>
    rw [stripZeros]
    split
    · rename_i hzero
      exact ih (d := ⟨d.digits / 10, d.exponent + 1⟩) (by dsimp only; omega)
    · exact h

theorem onGrid_pos (num : Nat) {den : Nat} (hden : 0 < den) (e : Int) : 0 < (onGrid num den e).2 := by
  cases e with
  | ofNat k => exact Nat.mul_pos hden (Nat.pow_pos (by norm_num))
  | negSucc k => exact hden

theorem onGrid_eq (num : Nat) {den : Nat} (hden : 0 < den) (e : Int) :
    ((onGrid num den e).1 : Rat) / (onGrid num den e).2 = num / den / 10 ^ e := by
  have hdenpos : (den : Rat) ≠ 0 := by exact_mod_cast hden.ne'
  cases e with
  | ofNat k =>
    simp only [onGrid]
    rw [Int.ofNat_eq_natCast, zpow_natCast, Nat.cast_mul, natPow_ten_cast, div_div]
  | negSucc k =>
    simp only [onGrid]
    rw [zpow_negSucc, Nat.cast_mul, natPow_ten_cast, div_inv_eq_mul, div_mul_eq_mul_div]

theorem digitsOf_bracket {n : Nat} (hn : 0 < n) :
    10 ^ ((digitsOf n).length - 1) ≤ n ∧ n < 10 ^ ((digitsOf n).length - 1 + 1) := by
  have hpos : 0 < (digitsOf n).length := Nat.length_toDigits_pos
  have hiff {k : Nat} (hk : 0 < k) : (digitsOf n).length ≤ k ↔ n < 10 ^ k := Nat.length_toDigits_le_iff (by norm_num) hk
  constructor
  · by_contra hlt
    rw [Nat.not_le] at hlt
    rcases Nat.eq_zero_or_pos ((digitsOf n).length - 1) with hzero | hshort
    · rw [hzero] at hlt
      omega
    · have hle := (hiff hshort).mpr hlt
      omega
  · exact (hiff (by omega)).mp (by omega)

theorem leadingPlace_eq_log {num den : Nat} (hnum : 0 < num) (hden : 0 < den) :
    leadingPlace num den = Int.log 10 (num / den : Rat) := by
  have hfraction : (0 : Rat) < num / den := div_pos (by exact_mod_cast hnum) (by exact_mod_cast hden)
  have hnumlength : 0 < (digitsOf num).length := Nat.length_toDigits_pos
  have hdenlength : 0 < (digitsOf den).length := Nat.length_toDigits_pos
  obtain ⟨hlow, hhigh⟩ := fraction_bracket (by norm_num) hden (digitsOf_bracket hnum) (digitsOf_bracket hden)
  have hguess : (((digitsOf num).length - 1 : Nat) : Int) - ((digitsOf den).length - 1 : Nat) =
      (digitsOf num).length - (digitsOf den).length := by omega
  rw [hguess] at hlow hhigh
  unfold leadingPlace
  dsimp only
  generalize ((digitsOf num).length : Int) - (digitsOf den).length = guess at *
  have hgrid := onGrid_eq num hden guess
  have hgridpos : (0 : Rat) < (onGrid num den guess).2 := by exact_mod_cast onGrid_pos num hden guess
  have hiff : (onGrid num den guess).1 < (onGrid num den guess).2 ↔ (num / den : Rat) < 10 ^ guess := by
    rw [← div_lt_one (ten_zpow_pos guess), ← hgrid, div_lt_one hgridpos]
    exact_mod_cast Iff.rfl
  split
  · rename_i hbelow
    exact (log_eq_of_bracket (by norm_num) hfraction hlow.le (by rw [sub_add_cancel]; exact hiff.mp hbelow)).symm
  · rename_i habove
    exact (log_eq_of_bracket (by norm_num) hfraction (not_lt.mp fun h => habove (hiff.mpr h)) hhigh).symm

theorem low_neighbourhood (h : Placed q m e) (hq : 0 < q) : (neighbourhood q).low =
    if m = 2 ^ 52 ∧ -1074 < e then ((m : Rat) - 1 / 4) * 2 ^ e else ((m : Rat) - 1 / 2) * 2 ^ e := by
  have hhalf : (2 : Rat) ^ (e - 1) = 2 ^ e / 2 := by rw [zpow_sub₀ two_ne_zero, zpow_one]
  have hquarter : (2 : Rat) ^ (e - 2) = 2 ^ e / 4 := by rw [zpow_sub₀ two_ne_zero]; norm_num
  unfold neighbourhood
  dsimp only
  rw [h.lastPlace hq, h.significand hq]
  have hnarrow : (m == Nat.pow 2 52 && decide (-1074 < e)) = true ↔ m = 2 ^ 52 ∧ -1074 < e := by simp
  simp only [hnarrow]
  split
  · rw [scaled_eq, hquarter]
    push_cast
    ring
  · rw [scaled_eq, hhalf]
    push_cast
    ring

theorem high_neighbourhood (h : Placed q m e) (hq : 0 < q) :
    (neighbourhood q).high = ((m : Rat) + 1 / 2) * 2 ^ e := by
  have hhalf : (2 : Rat) ^ (e - 1) = 2 ^ e / 2 := by rw [zpow_sub₀ two_ne_zero, zpow_one]
  unfold neighbourhood
  dsimp only
  rw [h.lastPlace hq, h.significand hq, scaled_eq, hhalf]
  push_cast
  ring

theorem closed_neighbourhood (h : Placed q m e) (hq : 0 < q) : (neighbourhood q).closed = (m % 2 == 0) := by
  unfold neighbourhood
  dsimp only
  rw [h.lastPlace hq, h.significand hq]

theorem bounds_of_contains (h : Placed q m e) (hq : 0 < q) (hx : (neighbourhood q).contains x = true) :
    (neighbourhood q).low ≤ x ∧ x ≤ (neighbourhood q).high ∧
      (m % 2 = 1 → (neighbourhood q).low < x ∧ x < (neighbourhood q).high) := by
  simp only [Neighbourhood.contains, closed_neighbourhood h hq, Bool.or_eq_true, Bool.and_eq_true, decide_eq_true_eq,
    beq_iff_eq] at hx
  have hwide : (neighbourhood q).low ≤ (neighbourhood q).high := by
    have hpos := two_zpow_pos e
    rw [low_neighbourhood h hq, high_neighbourhood h hq]
    split <;> exact mul_le_mul_of_nonneg_right (by linarith) hpos.le
  rcases hx with ⟨hlow, hhigh⟩ | ⟨heven, rfl | rfl⟩
  · exact ⟨hlow.le, hhigh.le, fun _ => ⟨hlow, hhigh⟩⟩
  · exact ⟨le_rfl, hwide, fun hodd => by omega⟩
  · exact ⟨hwide, le_rfl, fun hodd => by omega⟩

theorem Placed.pos (h : Placed q m e) (hq : 0 < q) : 0 < m := by
  rcases Nat.eq_zero_or_pos m with rfl | hm
  · rw [h.eq] at hq
    simp at hq
  · exact hm

/-- Just below a power of two the places are half as wide. -/
theorem nearestPlaces_below (he : -1074 < e) (hlow : ((2 : Rat) ^ 52 - 1 / 4) * 2 ^ e ≤ x) (hbelow : x < 2 ^ 52 * 2 ^ e) :
    0 < x ∧ nearestPlaces x = 2 ^ 52 * 2 ^ e := by
  have hplace : (2 : Rat) ^ e = 2 * 2 ^ (e - 1) := by rw [← two_zpow_succ, sub_add_cancel]
  have hhalf := two_zpow_pos (e - 1)
  have htop52 : (2 : Rat) ^ (52 + (e - 1)) = 2 ^ 52 * 2 ^ (e - 1) := two_zpow_add 52 (e - 1)
  have htop53 : (2 : Rat) ^ (53 + (e - 1)) = 2 ^ 53 * 2 ^ (e - 1) := two_zpow_add 53 (e - 1)
  rw [hplace] at hlow hbelow
  have hx : 0 < x := by nlinarith
  have hlast : lastPlace x.num.natAbs x.den = e - 1 := by
    refine lastPlace_eq hx (by omega) (.inl ?_) ?_
    · rw [htop52]
      nlinarith
    · rw [htop53]
      linarith
  refine ⟨hx, ?_⟩
  rw [nearestPlaces_eq (m := 2 ^ 53) hx hlast (by push_cast; linarith) (by push_cast; linarith) (by norm_num), hplace]
  push_cast
  ring

/-- Rounding takes every point of a neighbourhood to the double that it is about. -/
theorem nearestPlaces_of_contains (h : Placed q m e) (hq : 0 < q) (hx : (neighbourhood q).contains x = true) :
    0 < x ∧ nearestPlaces x = q := by
  obtain ⟨hlow, hhigh, hodd⟩ := bounds_of_contains h hq hx
  rw [low_neighbourhood h hq] at hlow hodd
  rw [high_neighbourhood h hq] at hhigh hodd
  have hpos := two_zpow_pos e
  have hm : (1 : Rat) ≤ m := by exact_mod_cast Placed.pos h hq
  have htop : (m : Rat) + 1 ≤ 2 ^ 53 := by exact_mod_cast h.lt
  have hscale {a b : Rat} (hab : a ≤ b) : a * 2 ^ e ≤ b * 2 ^ e := mul_le_mul_of_nonneg_right hab hpos.le
  by_cases hnarrow : (m = 2 ^ 52 ∧ -1074 < e) ∧ x < m * 2 ^ e
  · obtain ⟨⟨rfl, he⟩, hbelow⟩ := hnarrow
    rw [if_pos ⟨rfl, he⟩] at hlow
    rw [h.eq]
    push_cast at hlow hbelow ⊢
    exact nearestPlaces_below he hlow hbelow
  · have hlow' : ((m : Rat) - 1 / 2) * 2 ^ e ≤ x := by
      split at hlow
      · rename_i hnear
        have hle : m * 2 ^ e ≤ x := not_lt.mp fun hlt => hnarrow ⟨hnear, hlt⟩
        exact (hscale (by linarith)).trans hle
      · exact hlow
    have hx : 0 < x := (mul_pos (by linarith) hpos).trans_le hlow'
    -- All 53 places are full, but where the last place is the lowest there is.
    have hfirst : (2 : Rat) ^ (52 + e) ≤ x ∨ e = -1074 := by
      rcases h.full with hfull | hlowest
      · refine or_iff_not_imp_right.mpr fun he => ?_
        have htop52 : (2 : Rat) ^ (52 + e) = 2 ^ 52 * 2 ^ e := two_zpow_add 52 e
        rw [htop52]
        rcases Nat.eq_or_lt_of_le hfull with rfl | hmore
        · have he' : -1074 < e := lt_of_le_of_ne h.lowest (Ne.symm he)
          have hle := not_lt.mp fun hlt => hnarrow ⟨⟨rfl, he'⟩, hlt⟩
          push_cast at hle
          exact hle
        · have hnext : (2 : Rat) ^ 52 + 1 ≤ m := by exact_mod_cast hmore
          exact (hscale (by linarith)).trans hlow'
      · exact .inr hlowest
    have hlast : lastPlace x.num.natAbs x.den = e := by
      refine lastPlace_eq hx h.lowest hfirst ?_
      have htop53 : (2 : Rat) ^ (53 + e) = 2 ^ 53 * 2 ^ e := two_zpow_add 53 e
      rw [htop53]
      exact hhigh.trans_lt (mul_lt_mul_of_pos_right (by linarith) hpos)
    refine ⟨hx, ?_⟩
    rw [nearestPlaces_eq hx hlast hlow' hhigh fun hmodd => ?_, h.eq]
    have hstrict := hodd hmodd
    rwa [if_neg fun hnear => by omega] at hstrict

theorem mem_candidates {n : Neighbourhood} {d : Decimal} (h : d ∈ candidates q n e) :
    d.digits ≠ 0 ∧ n.contains d.toRat = true := by
  unfold candidates at h
  dsimp only at h
  have hkept := (List.mem_filter.mp h).2
  rwa [Bool.and_eq_true, decide_eq_true_eq] at hkept

theorem search_eq_some {n : Neighbourhood} {d : Decimal} {fuel : Nat} (h : search q n fuel e = some d) :
    d.digits ≠ 0 ∧ n.contains d.toRat = true := by
  induction fuel generalizing e with
  | zero => cases h
  | succ fuel ih =>
    rw [search] at h
    split at h
    · rename_i d' rest hcandidates
      cases h
      exact mem_candidates (hcandidates ▸ List.mem_cons_self)
    · exact ih h

theorem exists_search_eq_some {n : Neighbourhood} {fuel k : Nat} (hk : k < fuel) (h : candidates q n (e - k) ≠ []) :
    ∃ d, search q n fuel e = some d := by
  induction fuel generalizing e k with
  | zero => omega
  | succ fuel ih =>
    rw [search]
    cases hcandidates : candidates q n e with
    | cons d rest => exact ⟨d, rfl⟩
    | nil =>
      cases k with
      | zero => exact absurd (by simpa using hcandidates) h
      | succ k =>
        refine ih (k := k) (by omega) ?_
        rwa [show e - ((k + 1 : Nat) : Int) = e - 1 - k by push_cast; ring] at h

/-- The neighbourhood of a double is wide enough for the grid of its eighteenth digit. -/
theorem low_lt_of_seventeen_digits (h : Placed q m e) (hq : 0 < q) : (neighbourhood q).low < q - q / 10 ^ 17 := by
  have hpos := two_zpow_pos e
  have hm : (0 : Rat) < m := by exact_mod_cast Placed.pos h hq
  have htop : (m : Rat) < 2 ^ 53 := by exact_mod_cast h.lt
  rw [low_neighbourhood h hq, h.eq]
  split
  · rename_i hnarrow
    rw [hnarrow.1]
    push_cast
    linarith
  · rw [show (m : Rat) * 2 ^ e - m * 2 ^ e / 10 ^ 17 = (m - m / 10 ^ 17) * 2 ^ e by ring]
    exact mul_lt_mul_of_pos_right (by linarith) hpos

def gridFloor (q : Rat) (place : Int) : Nat :=
  (onGrid q.num.natAbs q.den place).1 / (onGrid q.num.natAbs q.den place).2

theorem gridFloor_bracket (hq : 0 < q) (place : Int) :
    (gridFloor q place : Rat) * 10 ^ place ≤ q ∧ q < (gridFloor q place + 1) * 10 ^ place := by
  have hstep := ten_zpow_pos place
  have hgrid := onGrid_eq q.num.natAbs q.pos place
  have hgridpos := onGrid_pos q.num.natAbs q.pos place
  rw [natAbs_num_div_den hq] at hgrid
  unfold gridFloor
  generalize (onGrid q.num.natAbs q.den place).1 = a at *
  generalize (onGrid q.num.natAbs q.den place).2 = b at *
  have hbpos : (0 : Rat) < b := by exact_mod_cast hgridpos
  have hunits : q = (a : Rat) / b * 10 ^ place := by rw [hgrid, div_mul_cancel₀ _ hstep.ne']
  have hfloor : ((a / b : Nat) : Rat) ≤ a / b := by
    rw [le_div_iff₀ hbpos]
    exact_mod_cast Nat.div_mul_le_self a b
  have hnext : (a : Rat) / b < (a / b : Nat) + 1 := by
    rw [div_lt_iff₀ hbpos]
    exact_mod_cast Nat.lt_mul_of_div_lt (Nat.lt_succ_self (a / b)) hgridpos
  exact ⟨hunits ▸ mul_le_mul_of_nonneg_right hfloor hstep.le, hunits ▸ mul_lt_mul_of_pos_right hnext hstep⟩

theorem gridFloor_mem_candidates {n : Neighbourhood} {place : Int} (hne : gridFloor q place ≠ 0)
    (h : n.contains (⟨gridFloor q place, place⟩ : Decimal).toRat = true) :
    ⟨gridFloor q place, place⟩ ∈ candidates q n place := by
  unfold candidates
  unfold gridFloor at *
  dsimp only
  generalize (onGrid q.num.natAbs q.den place).1 = a at *
  generalize (onGrid q.num.natAbs q.den place).2 = b at *
  refine List.mem_filter.mpr ⟨?_, by simp only [hne, h, ne_eq, not_false_eq_true, decide_true, Bool.and_self]⟩
  split
  · exact List.mem_cons_self
  · exact List.mem_cons_of_mem _ List.mem_cons_self

theorem candidates_ne_nil (h : Placed q m e) (hq : 0 < q) :
    candidates q (neighbourhood q) (Int.log 10 q - 17) ≠ [] := by
  have hlow := low_lt_of_seventeen_digits h hq
  have hhigh : q < (neighbourhood q).high := by
    rw [high_neighbourhood h hq, h.eq]
    exact mul_lt_mul_of_pos_right (by linarith) (two_zpow_pos e)
  have hlog : (10 : Rat) ^ Int.log 10 q ≤ q := Int.zpow_log_le_self (b := 10) (by norm_num) hq
  have hsplit : (10 : Rat) ^ Int.log 10 q = 10 ^ 17 * 10 ^ (Int.log 10 q - 17) := by
    rw [show (10 : Rat) ^ 17 = 10 ^ (17 : Int) by norm_cast, ← zpow_add₀ (by norm_num)]
    congr 1
    ring
  generalize Int.log 10 q - 17 = place at *
  have hstep := ten_zpow_pos place
  obtain ⟨hbelow, habove⟩ := gridFloor_bracket hq place
  have hdigits : (10 : Rat) ^ 17 < gridFloor q place + 1 :=
    lt_of_mul_lt_mul_right ((hsplit ▸ hlog).trans_lt habove) hstep.le
  have hne : gridFloor q place ≠ 0 := by
    intro hzero
    rw [hzero] at hdigits
    norm_num at hdigits
  refine List.ne_nil_of_mem (gridFloor_mem_candidates hne ?_)
  rw [toRat_eq, Neighbourhood.contains, Bool.or_eq_true, decide_eq_true_eq]
  refine .inl ⟨?_, hbelow.trans_lt hhigh⟩
  -- The grid is finer than the neighbourhood is wide.
  have hgap : (10 : Rat) ^ place ≤ q / 10 ^ 17 := by
    rw [le_div_iff₀ (by norm_num), mul_comm]
    exact hsplit ▸ hlog
  linarith

theorem shortest_spec (h : Placed q m e) (hq : 0 < q) :
    (shortest q).digits ≠ 0 ∧ (neighbourhood q).contains (shortest q).toRat = true := by
  have hgrid : Int.log 10 q + 1 - (18 : Nat) = Int.log 10 q - 17 := by push_cast; ring
  obtain ⟨d, hd⟩ : ∃ d, search q (neighbourhood q) 20 (Int.log 10 q + 1) = some d :=
    exists_search_eq_some (k := 18) (by norm_num) (hgrid ▸ candidates_ne_nil h hq)
  obtain ⟨hdigits, hcontains⟩ := search_eq_some hd
  unfold shortest
  dsimp only
  rw [leadingPlace_eq_log (natAbs_num_pos hq) q.pos, natAbs_num_div_den hq, hd]
  exact ⟨digits_stripZeros_ne_zero 20 hdigits, by rwa [toRat_stripZeros]⟩

theorem half_le_of_contains (h : Placed q m e) (hq : 0 < q) (hx : (neighbourhood q).contains x = true) :
    q / 2 ≤ x ∧ x ≤ 2 * q := by
  obtain ⟨hlow, hhigh, -⟩ := bounds_of_contains h hq hx
  rw [low_neighbourhood h hq] at hlow
  rw [high_neighbourhood h hq] at hhigh
  have hpos := two_zpow_pos e
  have hm : (1 : Rat) ≤ m := by exact_mod_cast Placed.pos h hq
  have hscale {a b : Rat} (hab : a ≤ b) : a * 2 ^ e ≤ b * 2 ^ e := mul_le_mul_of_nonneg_right hab hpos.le
  rw [h.eq]
  constructor
  · have hhalf : (m : Rat) * 2 ^ e / 2 = (m / 2) * 2 ^ e := by ring
    rw [hhalf]
    split at hlow
    · exact (hscale (by linarith)).trans hlow
    · exact (hscale (by linarith)).trans hlow
  · rw [← mul_assoc]
    exact hhigh.trans (hscale (by linarith))

/-- The shortest decimal of a double is rounded to it. -/
theorem binary64_apply_shortest (hq : 0 < q) (h : binary64.apply q = some q) :
    (shortest q).digits ≠ 0 ∧ binary64.apply (shortest q).toRat = some q ∧
      q / 2 ≤ (shortest q).toRat ∧ (shortest q).toRat ≤ 2 * q := by
  obtain ⟨⟨m, e, hplaced⟩, hrange⟩ := exists_placed hq h
  obtain ⟨hdigits, hcontains⟩ := shortest_spec hplaced hq
  obtain ⟨hpos, hnearest⟩ := nearestPlaces_of_contains hplaced hq hcontains
  refine ⟨hdigits, ?_, half_le_of_contains hplaced hq hcontains⟩
  rw [binary64_apply_of_ne_zero hpos.ne', hnearest, abs_of_pos hq, if_pos hrange]

theorem range_of_apply (hq : 0 < q) (h : binary64.apply q = some q) :
    (10 : Rat) ^ (-400 : Int) ≤ q / 2 ∧ 2 * q < 10 ^ (400 : Int) := by
  obtain ⟨⟨m, e, hplaced⟩, hrange⟩ := exists_placed hq h
  constructor
  · have hm : (1 : Rat) ≤ m := by exact_mod_cast Placed.pos hplaced hq
    have hten : (10 : Rat) ^ (-400 : Int) ≤ 2 ^ (-1075 : Int) := by
      have hpow : ((2 : Rat) ^ 43) ^ 25 ≤ (10 ^ 16) ^ 25 := pow_le_pow_left₀ (by norm_num) (by norm_num) 25
      rw [← pow_mul, ← pow_mul, ← zpow_natCast, ← zpow_natCast] at hpow
      rw [zpow_neg, zpow_neg]
      exact inv_anti₀ (zpow_pos two_pos _) hpow
    calc (10 : Rat) ^ (-400 : Int) ≤ 2 ^ (-1075 : Int) := hten
      _ ≤ 2 ^ (e - 1) := zpow_le_zpow_right₀ one_le_two (by have := hplaced.lowest; omega)
      _ = 1 * 2 ^ e / 2 := by rw [zpow_sub₀ two_ne_zero, zpow_one, one_mul]
      _ ≤ m * 2 ^ e / 2 := by
          have hscale : 1 * (2 : Rat) ^ e ≤ m * 2 ^ e := mul_le_mul_of_nonneg_right hm (two_zpow_pos e).le
          linarith
      _ = q / 2 := by rw [hplaced.eq]
  · have hpow : ((2 : Rat) ^ 41) ^ 25 ≤ (10 ^ 16) ^ 25 := pow_le_pow_left₀ (by norm_num) (by norm_num) 25
    have hbound : 2 * range ≤ (10 : Rat) ^ (400 : Int) := by
      rw [← pow_mul, ← pow_mul, ← zpow_natCast 10] at hpow
      rw [range_eq, ← pow_succ']
      exact hpow
    linarith

end Decimal

end SchemaInference
