import SchemaInference.Proofs.Number.Comparison
import Mathlib.Data.Rat.Floor

set_option autoImplicit false

namespace SchemaInference

namespace Double

variable {x y : Double} {p q : Rat}

theorem toRat?_ofExact_exact (negative : Bool) (q : Rat) : (ofExact .exact negative q).toRat? = some q := by
  unfold ofExact
  rw [Rounding.exact_apply]
  dsimp only
  split
  · rename_i hzero
    rw [Rat.num_eq_zero.mp hzero]
    cases negative <;> rfl
  · rfl

theorem toRat?_neg (hx : x.toRat? = some p) : x.neg.toRat? = some (-p) := by
  cases x <;> cases hx
  case negativeZero => rfl
  case finite =>
    unfold neg
    dsimp only
    split
    · rename_i hzero
      simp [Rat.num_eq_zero.mp hzero]
    · rfl

theorem toRat?_add_exact (hx : x.toRat? = some p) (hy : y.toRat? = some q) :
    (add .exact x y).toRat? = some (p + q) := by
  cases x <;> cases y <;> cases hx <;> cases hy <;> simp [add, toRat?_ofRat_exact]

theorem toRat?_sub_exact (hx : x.toRat? = some p) (hy : y.toRat? = some q) :
    (sub .exact x y).toRat? = some (p - q) := by
  rw [sub, toRat?_add_exact hx (toRat?_neg hy), sub_eq_add_neg]

theorem toRat?_mul_exact (hx : x.toRat? = some p) (hy : y.toRat? = some q) :
    (mul .exact x y).toRat? = some (p * q) := by
  simp only [mul, hx, hy, toRat?_ofExact_exact]

theorem truncate_of_nonneg (hx : x.toRat? = some p) (hp : 0 ≤ p) : x.truncate = .ok ⌊p⌋ := by
  cases x <;> cases hx
  case negativeZero => simp [truncate]
  case finite =>
    rw [truncate, Int.tdiv_eq_ediv_of_nonneg (Rat.num_nonneg.mpr hp), Rat.floor_def']

end Double

namespace Number

/-- A number is finite and has this value. -/
def Denotes (n : Number) (q : Rat) : Prop :=
  n.widened.toRat? = some q

variable {m n : Number} {p q : Rat}

theorem denotes_whole (i : Int) : (whole i).Denotes i := rfl

theorem Denotes.unique (h : n.Denotes p) (h' : n.Denotes q) : p = q :=
  Option.some.inj (h.symm.trans h')

theorem Denotes.exists_toDouble (h : n.Denotes q) : ∃ x, n.toDouble .exact = .ok x ∧ x.toRat? = some q := by
  cases n with
  | whole i => exact ⟨.finite i, rfl, h⟩
  | real x => exact ⟨x, rfl, h⟩

theorem Denotes.combine {onWhole : Int → Int → Int} {onReal : Double → Double → Double} (op : Rat → Rat → Rat)
    (hwhole : ∀ i j : Int, ((onWhole i j : Int) : Rat) = op i j)
    (hreal : ∀ x y p q, x.toRat? = some p → y.toRat? = some q → (onReal x y).toRat? = some (op p q))
    (hm : m.Denotes p) (hn : n.Denotes q) :
    ∃ z, Number.combine .exact onWhole onReal m n = .ok z ∧ z.Denotes (op p q) := by
  obtain ⟨x, hx, hxp⟩ := hm.exists_toDouble
  obtain ⟨y, hy, hyq⟩ := hn.exists_toDouble
  have hxy := hreal x y p q hxp hyq
  cases m with
  | whole i =>
    cases n with
    | whole j =>
      cases hm.unique (denotes_whole i)
      cases hn.unique (denotes_whole j)
      exact ⟨.whole (onWhole i j), rfl, congrArg some (hwhole i j)⟩
    | real y' => exact ⟨.real (onReal x y), by simp only [Number.combine, hx, hy]; rfl, hxy⟩
  | real x' => exact ⟨.real (onReal x y), by simp only [Number.combine, hx, hy]; rfl, hxy⟩

theorem Denotes.add (hm : m.Denotes p) (hn : n.Denotes q) :
    ∃ z, Number.add .exact m n = .ok z ∧ z.Denotes (p + q) :=
  hm.combine (· + ·) Int.cast_add (fun _ _ _ _ => Double.toRat?_add_exact) hn

theorem Denotes.sub (hm : m.Denotes p) (hn : n.Denotes q) :
    ∃ z, Number.sub .exact m n = .ok z ∧ z.Denotes (p - q) :=
  hm.combine (· - ·) Int.cast_sub (fun _ _ _ _ => Double.toRat?_sub_exact) hn

theorem Denotes.mul (hm : m.Denotes p) (hn : n.Denotes q) :
    ∃ z, Number.mul .exact m n = .ok z ∧ z.Denotes (p * q) :=
  hm.combine (· * ·) Int.cast_mul (fun _ _ _ _ => Double.toRat?_mul_exact) hn

theorem Denotes.lt_iff (hm : m.Denotes p) (hn : n.Denotes q) : Number.lt m n = true ↔ p < q := by
  rw [Number.lt, Double.lt_eq_of_toRat? hm hn, decide_eq_true_eq]

theorem Denotes.least (hm : m.Denotes p) (hn : n.Denotes q) : (Number.least m n).Denotes (min p q) := by
  unfold Number.least
  simp only [hn.lt_iff hm]
  split
  · rename_i hlt
    rwa [min_eq_right hlt.le]
  · rename_i hge
    rwa [min_eq_left (not_lt.mp hge)]

theorem Denotes.greatest (hm : m.Denotes p) (hn : n.Denotes q) : (Number.greatest m n).Denotes (max p q) := by
  unfold Number.greatest
  simp only [hm.lt_iff hn]
  split
  · rename_i hlt
    rwa [max_eq_right hlt.le]
  · rename_i hge
    rwa [max_eq_left (not_lt.mp hge)]

theorem Denotes.truncate (hn : n.Denotes q) (hq : 0 ≤ q) : n.truncate = .ok ⌊q⌋ := by
  cases n with
  | whole i =>
    cases hn.unique (denotes_whole i)
    rw [Int.floor_intCast]
    rfl
  | real x => exact Double.truncate_of_nonneg hn hq

end Number

end SchemaInference
