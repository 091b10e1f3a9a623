import SchemaInference.Proofs.Number.Magnitude
import Mathlib.Data.Int.Log
import Mathlib.Data.Rat.Floor

/-!
# Places of doubles

The last place of a positive number is told by its binary logarithm, and rounding goes to the nearest
multiple of that place, a half to the even one.  So rounding leaves alone what is a multiple, of at most
53 bits, of a place that doubles have, and nothing else of its range.
-/

set_option autoImplicit false

namespace SchemaInference

theorem log_eq_of_bracket {base : Nat} (hbase : 1 < base) {q : Rat} (hq : 0 < q) {place : Int}
    (hlow : (base : Rat) ^ place ≤ q) (hhigh : q < (base : Rat) ^ (place + 1)) : Int.log base q = place := by
  have hle := (Int.zpow_le_iff_le_log hbase hq).mp hlow
  have hlt := (Int.lt_zpow_iff_log_lt hbase hq).mp hhigh
  omega

theorem fraction_bracket {base num den a b : Nat} (hbase : 0 < base) (hden : 0 < den)
    (hnum : base ^ a ≤ num ∧ num < base ^ (a + 1)) (hdenom : base ^ b ≤ den ∧ den < base ^ (b + 1)) :
    (base : Rat) ^ ((a : Int) - b - 1) < num / den ∧ (num / den : Rat) < (base : Rat) ^ ((a : Int) - b + 1) := by
  have hpos : (0 : Rat) < base := by exact_mod_cast hbase
  have hdenpos : (0 : Rat) < den := by exact_mod_cast hden
  have hnumlow : (base : Rat) ^ a ≤ num := by exact_mod_cast hnum.1
  have hnumpos : (0 : Rat) < num := lt_of_lt_of_le (by positivity) hnumlow
  have hnumhigh : (num : Rat) < (base : Rat) ^ (a + 1) := by exact_mod_cast hnum.2
  have hdenlow : (base : Rat) ^ b ≤ den := by exact_mod_cast hdenom.1
  have hdenhigh : (den : Rat) < (base : Rat) ^ (b + 1) := by exact_mod_cast hdenom.2
  have hlow : (base : Rat) ^ ((a : Int) - b - 1) = (base : Rat) ^ a / (base : Rat) ^ (b + 1) := by
    rw [show (a : Int) - b - 1 = (a : Int) - ((b + 1 : Nat) : Int) by push_cast; ring, zpow_sub₀ hpos.ne',
      zpow_natCast, zpow_natCast]
  have hhigh : (base : Rat) ^ ((a : Int) - b + 1) = (base : Rat) ^ (a + 1) / (base : Rat) ^ b := by
    rw [show (a : Int) - b + 1 = ((a + 1 : Nat) : Int) - (b : Int) by push_cast; ring, zpow_sub₀ hpos.ne',
      zpow_natCast, zpow_natCast]
  rw [hlow, hhigh, div_lt_div_iff₀ (by positivity) hdenpos, div_lt_div_iff₀ hdenpos (by positivity)]
  constructor
  · calc (base : Rat) ^ a * den ≤ num * den := by gcongr
      _ < num * (base : Rat) ^ (b + 1) := by gcongr
  · calc (num : Rat) * (base : Rat) ^ b ≤ num * den := by gcongr
      _ < (base : Rat) ^ (a + 1) * den := by gcongr

theorem natAbs_num_div_den {q : Rat} (hq : 0 < q) : (q.num.natAbs / q.den : Rat) = q := by
  rw [← Rounding.abs_eq_natAbs_div, abs_of_pos hq]

theorem natAbs_num_pos {q : Rat} (hq : 0 < q) : 0 < q.num.natAbs :=
  Int.natAbs_pos.mpr (Rat.num_pos.mpr hq).ne'

namespace Rounding

theorem two_zpow_pos (e : Int) : (0 : Rat) < 2 ^ e :=
  zpow_pos two_pos e

theorem two_zpow_succ (e : Int) : (2 : Rat) ^ (e + 1) = 2 * 2 ^ e := by
  rw [zpow_add_one₀ two_ne_zero, mul_comm]

theorem two_zpow_add (k : Nat) (e : Int) : (2 : Rat) ^ ((k : Int) + e) = 2 ^ k * 2 ^ e := by
  rw [zpow_add₀ two_ne_zero, zpow_natCast]

theorem scaled_eq (m e : Int) : scaled m e = m * 2 ^ e := by
  cases e with
  | ofNat k =>
    rw [scaled, Int.ofNat_eq_natCast, zpow_natCast, Int.cast_mul, Int.cast_natCast, natPow_two_cast]
  | negSucc k => rw [scaled, Rat.mkRat_eq_div, zpow_negSucc, div_eq_mul_inv, natPow_two_cast]

theorem lastPlace_eq_log {num den : Nat} (hnum : 0 < num) (hden : 0 < den) :
    lastPlace num den = max (-1074) (Int.log 2 (num / den : Rat) - 52) := by
  have hdenpos : (0 : Rat) < den := by exact_mod_cast hden
  have hfraction : (0 : Rat) < num / den := div_pos (by exact_mod_cast hnum) hdenpos
  obtain ⟨hlow, hhigh⟩ := fraction_bracket two_pos hden
    ⟨Nat.log2_self_le hnum.ne', Nat.lt_log2_self⟩ ⟨Nat.log2_self_le hden.ne', Nat.lt_log2_self⟩
  unfold lastPlace
  dsimp only
  rw [show (num.log2 : Int) - den.log2 - 1 = num.log2 - den.log2 - 53 + 52 by omega] at hlow
  rw [show (num.log2 : Int) - den.log2 + 1 = num.log2 - den.log2 - 53 + 53 + 1 by omega] at hhigh
  generalize (num.log2 : Int) - den.log2 - 53 = guess at *
  have hchosen (wide : Bool) (hwide : wide = true ↔ (2 : Rat) ^ (guess + 53) ≤ num / den) :
      (if wide then guess + 1 else guess) = Int.log 2 (num / den : Rat) - 52 := by
    split
    · rename_i h
      rw [log_eq_of_bracket Nat.one_lt_two hfraction (hwide.mp h) hhigh]
      ring
    · rename_i h
      rw [log_eq_of_bracket Nat.one_lt_two hfraction hlow.le (by simpa [add_assoc] using fun hle => h (hwide.mpr hle))]
      ring
  congr 1
  refine hchosen _ ?_
  rw [le_div_iff₀ hdenpos]
  cases guess with
  | ofNat k =>
    rw [decide_eq_true_eq, Int.ofNat_eq_natCast,
      show (k : Int) + 53 = ((k + 53 : Nat) : Int) by push_cast; ring, zpow_natCast, mul_comm, ← natPow_two_cast]
    exact_mod_cast Iff.rfl
  | negSucc k =>
    have hpos : (0 : Rat) < 2 ^ (k + 1) := by positivity
    rw [decide_eq_true_eq, zpow_add₀ two_ne_zero, zpow_negSucc, mul_assoc, inv_mul_le_iff₀ hpos,
      show (2 : Rat) ^ (53 : Int) = (2 ^ 53 : Nat) by norm_cast, mul_comm, mul_comm (2 ^ (k + 1) : Rat),
      ← natPow_two_cast]
    exact_mod_cast Iff.rfl

theorem nearest_eq {num den m : Nat} (hden : 0 < den) (hlow : 2 * (m * den) ≤ 2 * num + den)
    (hhigh : 2 * num ≤ 2 * (m * den) + den)
    (hodd : m % 2 = 1 → 2 * (m * den) < 2 * num + den ∧ 2 * num < 2 * (m * den) + den) : nearest num den = m := by
  obtain ⟨q, r, hnum, hr, hcases⟩ := nearest_cases num hden
  have horder : m < q ∧ m * den + den ≤ q * den ∨ m = q ∧ m * den = q * den ∨
      m = q + 1 ∧ m * den = q * den + den ∨ q + 1 < m ∧ q * den + den + den ≤ m * den := by
    rcases Nat.lt_trichotomy m q with hlt | rfl | hgt
    · exact .inl ⟨hlt, by simpa [Nat.succ_mul] using Nat.mul_le_mul_right den hlt⟩
    · exact .inr (.inl ⟨rfl, rfl⟩)
    · rcases Nat.eq_or_lt_of_le (Nat.succ_le_of_lt hgt) with rfl | hlt
      · exact .inr (.inr (.inl ⟨rfl, Nat.succ_mul q den⟩))
      · exact .inr (.inr (.inr ⟨hlt, by simpa [Nat.succ_mul] using Nat.mul_le_mul_right den hlt⟩))
  generalize q * den = part at *
  generalize m * den = multiple at *
  omega

theorem nearest_le {num den bound : Nat} (hden : 0 < den) (h : num ≤ bound * den) : nearest num den ≤ bound := by
  obtain ⟨q, r, hnum, hr, hcases⟩ := nearest_cases num hden
  have horder : q + 1 ≤ bound ∨ q = bound ∧ q * den = bound * den ∨ bound * den + den ≤ q * den := by
    rcases Nat.lt_trichotomy q bound with hlt | rfl | hgt
    · exact .inl hlt
    · exact .inr (.inl ⟨rfl, rfl⟩)
    · exact .inr (.inr (by simpa [Nat.succ_mul] using Nat.mul_le_mul_right den hgt))
  generalize q * den = part at *
  generalize bound * den = limit at *
  omega

theorem exists_significand_eq_nearest (num : Nat) {den : Nat} (hden : 0 < den) (e : Int) : ∃ n d : Nat,
    0 < d ∧ significand num den e = nearest n d ∧ (n : Rat) = (num / den) / 2 ^ e * d := by
  have hdenpos : (den : Rat) ≠ 0 := by exact_mod_cast hden.ne'
  cases e with
  | ofNat k =>
    refine ⟨num, den * Nat.pow 2 k, Nat.mul_pos hden (Nat.two_pow_pos k), rfl, ?_⟩
    rw [Int.ofNat_eq_natCast, zpow_natCast, Nat.cast_mul, natPow_two_cast]
    field_simp
  | negSucc k =>
    refine ⟨num * Nat.pow 2 (k + 1), den, hden, rfl, ?_⟩
    rw [zpow_negSucc, Nat.cast_mul, natPow_two_cast]
    field_simp

theorem significand_eq {num den m : Nat} {e : Int} (hden : 0 < den) (hlow : (m : Rat) - 1 / 2 ≤ num / den / 2 ^ e)
    (hhigh : (num / den / 2 ^ e : Rat) ≤ m + 1 / 2)
    (hodd : m % 2 = 1 → (m : Rat) - 1 / 2 < num / den / 2 ^ e ∧ (num / den / 2 ^ e : Rat) < m + 1 / 2) :
    significand num den e = m := by
  obtain ⟨n, d, hd, heq, hn⟩ := exists_significand_eq_nearest num hden e
  have hdpos : (0 : Rat) < d := by exact_mod_cast hd
  rw [heq]
  generalize (num / den / 2 ^ e : Rat) = x at *
  have hle {a b : Rat} (hab : a ≤ b) : a * d ≤ b * d := mul_le_mul_of_nonneg_right hab hdpos.le
  have hlt {a b : Rat} (hab : a < b) : a * d < b * d := mul_lt_mul_of_pos_right hab hdpos
  refine nearest_eq hd ?_ ?_ fun hm => ⟨?_, ?_⟩
  · have h := hle hlow
    rw [← hn] at h
    have hcast : (2 * (m * d) : Rat) ≤ 2 * n + d := by linarith
    exact_mod_cast hcast
  · have h := hle hhigh
    rw [← hn] at h
    have hcast : (2 * n : Rat) ≤ 2 * (m * d) + d := by linarith
    exact_mod_cast hcast
  · have h := hlt (hodd hm).1
    rw [← hn] at h
    have hcast : (2 * (m * d) : Rat) < 2 * n + d := by linarith
    exact_mod_cast hcast
  · have h := hlt (hodd hm).2
    rw [← hn] at h
    have hcast : (2 * n : Rat) < 2 * (m * d) + d := by linarith
    exact_mod_cast hcast

theorem significand_le {num den bound : Nat} {e : Int} (hden : 0 < den)
    (h : (num / den / 2 ^ e : Rat) ≤ bound) : significand num den e ≤ bound := by
  obtain ⟨n, d, hd, heq, hn⟩ := exists_significand_eq_nearest num hden e
  have hdpos : (0 : Rat) < d := by exact_mod_cast hd
  rw [heq]
  refine nearest_le hd ?_
  have hcast : (n : Rat) ≤ bound * d := hn ▸ mul_le_mul_of_nonneg_right h hdpos.le
  exact_mod_cast hcast

/-- The positive number `q` is `m` units of its last place, which is `e`. -/
structure Placed (q : Rat) (m : Nat) (e : Int) : Prop where
  eq : q = m * 2 ^ e
  lt : m < 2 ^ 53
  lowest : -1074 ≤ e
  full : 2 ^ 52 ≤ m ∨ e = -1074

variable {q x : Rat} {m : Nat} {e : Int}

theorem lastPlace_eq (hx : 0 < x) (hlowest : -1074 ≤ e) (hlow : 2 ^ (52 + e) ≤ x ∨ e = -1074)
    (hhigh : x < 2 ^ (53 + e)) : lastPlace x.num.natAbs x.den = e := by
  rw [lastPlace_eq_log (natAbs_num_pos hx) x.pos, natAbs_num_div_den hx]
  have hlog : Int.log 2 x < 53 + e := (Int.lt_zpow_iff_log_lt (b := 2) one_lt_two hx).mp hhigh
  rcases hlow with hlow | rfl
  · have hle : 52 + e ≤ Int.log 2 x := (Int.zpow_le_iff_le_log (b := 2) one_lt_two hx).mp hlow
    omega
  · omega

theorem lt_two_zpow_lastPlace (hx : 0 < x) : x < 2 ^ (53 + lastPlace x.num.natAbs x.den) := by
  refine (Int.lt_zpow_iff_log_lt (b := 2) one_lt_two hx).mpr ?_
  rw [lastPlace_eq_log (natAbs_num_pos hx) x.pos, natAbs_num_div_den hx]
  omega

theorem two_zpow_lastPlace_le (hx : 0 < x) : 2 ^ (52 + lastPlace x.num.natAbs x.den) ≤ x ∨
    lastPlace x.num.natAbs x.den = -1074 := by
  have hlog : 52 + lastPlace x.num.natAbs x.den ≤ Int.log 2 x ∨ lastPlace x.num.natAbs x.den = -1074 := by
    rw [lastPlace_eq_log (natAbs_num_pos hx) x.pos, natAbs_num_div_den hx]
    omega
  exact hlog.imp_left (Int.zpow_le_iff_le_log (b := 2) one_lt_two hx).mpr

theorem neg_le_lastPlace (num den : Nat) : -1074 ≤ lastPlace num den :=
  le_max_left _ _

/-- A number at most half a unit from a multiple of its last place is rounded to that; if it is just half a
unit, to the even one. -/
theorem nearestPlaces_eq (hx : 0 < x) (hplace : lastPlace x.num.natAbs x.den = e)
    (hlow : ((m : Rat) - 1 / 2) * 2 ^ e ≤ x) (hhigh : x ≤ (m + 1 / 2) * 2 ^ e)
    (hodd : m % 2 = 1 → ((m : Rat) - 1 / 2) * 2 ^ e < x ∧ x < (m + 1 / 2) * 2 ^ e) :
    nearestPlaces x = m * 2 ^ e := by
  have hpos := two_zpow_pos e
  have hsign : ¬ x.num < 0 := not_lt.mpr (Rat.num_pos.mpr hx).le
  have hsignificand : significand x.num.natAbs x.den e = m := by
    refine significand_eq x.pos ?_ ?_ fun hm => ?_ <;> rw [natAbs_num_div_den hx]
    · exact (le_div_iff₀ hpos).mpr hlow
    · exact (div_le_iff₀ hpos).mpr hhigh
    · exact ⟨(lt_div_iff₀ hpos).mpr (hodd hm).1, (div_lt_iff₀ hpos).mpr (hodd hm).2⟩
  unfold nearestPlaces
  dsimp only
  rw [hplace, if_neg hsign, hsignificand, scaled_eq, Int.cast_natCast]

theorem Placed.lt_zpow (h : Placed q m e) : q < 2 ^ (53 + e) := by
  rw [h.eq, zpow_add₀ two_ne_zero]
  exact mul_lt_mul_of_pos_right (by exact_mod_cast h.lt) (two_zpow_pos e)

theorem Placed.zpow_le (h : Placed q m e) : 2 ^ (52 + e) ≤ q ∨ e = -1074 := by
  refine h.full.imp_left fun hfull => ?_
  rw [h.eq, zpow_add₀ two_ne_zero]
  exact mul_le_mul_of_nonneg_right (by exact_mod_cast hfull) (two_zpow_pos e).le

theorem Placed.lastPlace (h : Placed q m e) (hq : 0 < q) : lastPlace q.num.natAbs q.den = e :=
  lastPlace_eq hq h.lowest h.zpow_le h.lt_zpow

theorem Placed.significand (h : Placed q m e) (hq : 0 < q) : significand q.num.natAbs q.den e = m := by
  have hunits : (q.num.natAbs / q.den / 2 ^ e : Rat) = m := by
    rw [natAbs_num_div_den hq, h.eq, mul_div_cancel_right₀ _ (two_zpow_pos e).ne']
  refine significand_eq q.pos ?_ ?_ fun _ => ⟨?_, ?_⟩ <;> rw [hunits] <;> linarith

theorem Placed.nearestPlaces (h : Placed q m e) (hq : 0 < q) : nearestPlaces q = q := by
  have hpos := two_zpow_pos e
  have hnear := nearestPlaces_eq hq (h.lastPlace hq) (m := m) (by rw [h.eq]; linarith) (by rw [h.eq]; linarith)
    fun _ => by rw [h.eq]; exact ⟨by linarith, by linarith⟩
  rw [hnear, ← h.eq]

theorem exists_placed_of_eq_mul (hq : 0 < q) (heq : q = m * 2 ^ e) (hm : m < 2 ^ 53) (he : -1074 ≤ e) :
    ∃ m e, Placed q m e := by
  have hlowest := neg_le_lastPlace q.num.natAbs q.den
  have hlt := lt_two_zpow_lastPlace hq
  have hle := two_zpow_lastPlace_le hq
  generalize Rounding.lastPlace q.num.natAbs q.den = place at *
  have hplace : place ≤ e := by
    rcases hle with hle | rfl
    · have hbelow : (2 : Rat) ^ (52 + place) < 2 ^ (53 + e) := by
        refine hle.trans_lt ?_
        rw [heq, zpow_add₀ two_ne_zero]
        exact mul_lt_mul_of_pos_right (by exact_mod_cast hm) (two_zpow_pos e)
      have hexponents := (zpow_lt_zpow_iff_right₀ one_lt_two).mp hbelow
      omega
    · exact he
  obtain ⟨k, rfl⟩ : ∃ k : Nat, e = place + k := ⟨(e - place).toNat, by omega⟩
  have hunits : q = ((m * 2 ^ k : Nat) : Rat) * 2 ^ place := by
    rw [heq, zpow_add₀ two_ne_zero, zpow_natCast]
    push_cast
    ring
  refine ⟨m * 2 ^ k, place, hunits, ?_, hlowest, hle.imp_left fun hle => ?_⟩
  · rw [hunits, zpow_add₀ two_ne_zero] at hlt
    have hcast := lt_of_mul_lt_mul_right hlt (two_zpow_pos place).le
    exact_mod_cast hcast
  · rw [hunits, zpow_add₀ two_ne_zero] at hle
    have hcast := le_of_mul_le_mul_right hle (two_zpow_pos place)
    exact_mod_cast hcast

/-- What rounding gives has its place. -/
theorem exists_placed_nearestPlaces (hx : 0 < x) (hresult : 0 < nearestPlaces x) :
    ∃ m e, Placed (nearestPlaces x) m e := by
  have hlowest := neg_le_lastPlace x.num.natAbs x.den
  have hsign : ¬ x.num < 0 := not_lt.mpr (Rat.num_pos.mpr hx).le
  have heq : nearestPlaces x = Rounding.significand x.num.natAbs x.den (Rounding.lastPlace x.num.natAbs x.den) *
      2 ^ Rounding.lastPlace x.num.natAbs x.den := by
    unfold Rounding.nearestPlaces
    dsimp only
    rw [if_neg hsign, scaled_eq, Int.cast_natCast]
  have hle : Rounding.significand x.num.natAbs x.den (Rounding.lastPlace x.num.natAbs x.den) ≤ 2 ^ 53 := by
    refine significand_le x.pos ?_
    rw [natAbs_num_div_den hx, div_le_iff₀ (two_zpow_pos _)]
    refine (lt_two_zpow_lastPlace hx).le.trans_eq ?_
    rw [zpow_add₀ two_ne_zero]
    norm_cast
  generalize Rounding.significand x.num.natAbs x.den (Rounding.lastPlace x.num.natAbs x.den) = m at *
  generalize Rounding.lastPlace x.num.natAbs x.den = e at *
  rcases Nat.eq_or_lt_of_le hle with rfl | hlt
  · refine exists_placed_of_eq_mul hresult (m := 2 ^ 52) (e := e + 1) ?_ (by norm_num) (by omega)
    rw [heq, two_zpow_succ]
    push_cast
    ring
  · exact exists_placed_of_eq_mul hresult heq hlt hlowest

theorem nearestPlaces_neg (q : Rat) (hq : q ≠ 0) : nearestPlaces (-q) = -nearestPlaces q := by
  have hnum : q.num ≠ 0 := Rat.num_ne_zero.mpr hq
  unfold Rounding.nearestPlaces
  dsimp only
  simp only [Rat.neg_num, Rat.neg_den, Int.natAbs_neg]
  by_cases hneg : q.num < 0
  · rw [if_neg (by omega), if_pos hneg, scaled_neg, neg_neg]
  · rw [if_pos (by omega), if_neg hneg, scaled_neg]

def range : Rat := (Nat.pow 2 1024 : Nat)

theorem range_eq : range = 2 ^ 1024 := by
  unfold range
  generalize 1024 = n
  exact natPow_two_cast n

theorem binary64_apply_of_ne_zero (hq : q ≠ 0) : binary64.apply q =
    if |Rounding.nearestPlaces q| < range then some (Rounding.nearestPlaces q) else none :=
  binary64_apply (Rat.num_ne_zero.mpr hq)

theorem binary64_apply_neg (q : Rat) : binary64.apply (-q) = (binary64.apply q).map fun v => -v := by
  rcases eq_or_ne q 0 with rfl | hq
  · rfl
  · rw [binary64_apply_of_ne_zero hq, binary64_apply_of_ne_zero (neg_ne_zero.mpr hq), nearestPlaces_neg q hq, abs_neg]
    split <;> rfl

theorem Placed.apply (h : Placed q m e) (hq : 0 < q) (hrange : q < range) : binary64.apply q = some q := by
  rw [binary64_apply_of_ne_zero hq.ne', h.nearestPlaces hq, abs_of_pos hq, if_pos hrange]

theorem exists_placed (hq : 0 < q) (h : binary64.apply q = some q) : (∃ m e, Placed q m e) ∧ q < range := by
  rw [binary64_apply_of_ne_zero hq.ne'] at h
  split at h
  · rename_i hrange
    have heq : Rounding.nearestPlaces q = q := Option.some.inj h
    rw [heq, abs_of_pos hq] at hrange
    have hplaced := exists_placed_nearestPlaces hq (hq.trans_eq heq.symm)
    rw [heq] at hplaced
    exact ⟨hplaced, hrange⟩
  · cases h

/-- A result of rounding is left alone when it is rounded again. -/
theorem binary64_apply_apply {v : Rat} (h : binary64.apply q = some v) : binary64.apply v = some v := by
  have hpositive {q v : Rat} (hq : 0 < q) (h : binary64.apply q = some v) : binary64.apply v = some v := by
    rw [binary64_apply_of_ne_zero hq.ne'] at h
    split at h
    · rename_i hrange
      obtain rfl := Option.some.inj h
      have hnonneg : 0 ≤ Rounding.nearestPlaces q := by
        have hsign : ¬ q.num < 0 := not_lt.mpr (Rat.num_pos.mpr hq).le
        unfold Rounding.nearestPlaces
        dsimp only
        rw [if_neg hsign]
        exact scaled_nonneg _ _
      rcases hnonneg.eq_or_lt with hzero | hresult
      · rw [← hzero]
        rfl
      · obtain ⟨m, e, hplaced⟩ := exists_placed_nearestPlaces hq hresult
        rw [abs_of_pos hresult] at hrange
        exact hplaced.apply hresult hrange
    · cases h
  rcases lt_trichotomy q 0 with hneg | rfl | hpos
  · have hopposite : binary64.apply (-q) = some (-v) := by rw [binary64_apply_neg, h]; rfl
    have hpos : 0 < -q := neg_pos.mpr hneg
    have hagain := hpositive hpos hopposite
    rw [binary64_apply_neg] at hagain
    obtain ⟨w, hw, heq⟩ := Option.map_eq_some_iff.mp hagain
    rwa [neg_injective heq] at hw
  · cases h
    rfl
  · exact hpositive hpos h

end Rounding

namespace Double

/-- A double that rounding leaves alone: every one that a machine can hold is. -/
structure Representable (x : Double) : Prop where
  rounded : ∀ q, x = finite q → Rounding.binary64.apply q = some q

theorem representable_finite {q : Rat} : (finite q).Representable ↔ Rounding.binary64.apply q = some q :=
  ⟨fun h => h.rounded q rfl, fun h => ⟨fun _ hq => finite.inj hq ▸ h⟩⟩

theorem representable_nan : nan.Representable :=
  ⟨by rintro q ⟨⟩⟩

theorem representable_infinite (negative : Bool) : (infinite negative).Representable :=
  ⟨by rintro q ⟨⟩⟩

theorem representable_negativeZero : negativeZero.Representable :=
  ⟨by rintro q ⟨⟩⟩

instance : DecidablePred Representable := fun x =>
  match x with
  | nan => .isTrue representable_nan
  | infinite negative => .isTrue (representable_infinite negative)
  | negativeZero => .isTrue representable_negativeZero
  | finite _ => decidable_of_iff' _ representable_finite

theorem representable_ofExact (negative : Bool) (q : Rat) : (ofExact .binary64 negative q).Representable := by
  unfold ofExact
  split
  · exact representable_infinite negative
  · rename_i v hv
    split
    · unfold zero
      split
      · exact representable_negativeZero
      · decide
    · exact representable_finite.mpr (Rounding.binary64_apply_apply hv)

theorem representable_ofRat (q : Rat) : (ofRat .binary64 q).Representable :=
  representable_ofExact _ q

theorem representable_ofInt {i : Int} {x : Double} (h : ofInt .binary64 i = .ok x) : x.Representable := by
  unfold ofInt at h
  split at h
  · cases h
  · rename_i v hv
    cases h
    exact representable_finite.mpr (Rounding.binary64_apply_apply hv)

end Double

end SchemaInference
