import SchemaInference.Number.Double
import Mathlib.Algebra.Order.Field.Rat

set_option autoImplicit false

namespace SchemaInference

namespace Double

theorem toRat?_ofRat_exact (q : Rat) : (ofRat .exact q).toRat? = some q := by
  unfold ofRat ofExact
  rw [Rounding.exact_apply]
  dsimp only
  split
  · rename_i hzero
    have hq : q = 0 := Rat.num_eq_zero.mp hzero
    unfold zero
    split <;> simp [hq]
  · rfl

theorem lt_eq_of_toRat? {x y : Double} {p q : Rat} (hx : x.toRat? = some p) (hy : y.toRat? = some q) :
    lt x y = decide (p < q) := by
  cases x <;> cases y <;> simp_all [lt, toRat?]

theorem le_iff_of_toRat? {x y : Double} {p q : Rat} (hx : x.toRat? = some p) (hy : y.toRat? = some q) :
    le x y = true ↔ p ≤ q := by
  have heq : eq x y = decide (p = q) := by
    cases x <;> cases y <;> simp_all [eq, toRat?]
  rw [le, lt_eq_of_toRat? hx hy, heq, Bool.or_eq_true, decide_eq_true_eq, decide_eq_true_eq]
  exact le_iff_lt_or_eq.symm

/-- Without rounding a share reaches a threshold when the part is at least the threshold times the
whole. -/
theorem le_ofRat_exact_div {x : Double} {p : Rat} (hx : x.toRat? = some p) (part : Nat) {whole : Nat}
    (hwhole : 0 < whole) : le x (.ofRat .exact ((part : Rat) / whole)) = true ↔ p * whole ≤ part := by
  have hpos : (0 : Rat) < whole := by exact_mod_cast hwhole
  rw [le_iff_of_toRat? hx (toRat?_ofRat_exact _), le_div_iff₀ hpos]

end Double

end SchemaInference
