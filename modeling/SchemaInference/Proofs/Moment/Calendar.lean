import SchemaInference.Moment.Calendar
import SchemaInference.Proofs.Number.Magnitude

set_option autoImplicit false

namespace SchemaInference

namespace Calendar

theorem monthLength_bounds (year month : Int) : 0 ≤ monthLength year month ∧ monthLength year month ≤ 31 := by
  unfold monthLength
  split
  · split <;> omega
  · split <;> omega

theorem daysBeforeMonth_bounds (year month : Int) :
    0 ≤ daysBeforeMonth year month ∧ daysBeforeMonth year month ≤ 31 * (month - 1).toNat := by
  unfold daysBeforeMonth
  induction (month - 1).toNat with
  | zero => simp
  | succ n ih =>
    have hlength := monthLength_bounds year (n + 1)
    rw [List.range_succ, List.foldl_append]
    simp only [List.foldl_cons, List.foldl_nil]
    omega

end Calendar

/-- Whether some clock, of a zone less than a day away, shows a moment. -/
def Moment.InCalendar (m : Moment) : Prop :=
  ∃ date : DateTime, date.isPlaced = true ∧ date.moment = m

namespace Moment

theorem InCalendar.natAbs_lt {m : Moment} (h : m.InCalendar) : m.microseconds.natAbs < 2 ^ 60 := by
  obtain ⟨⟨t, hvalid, offset⟩, hplaced, rfl⟩ := h
  simp only [ClockTime.isValid, Bool.and_eq_true, decide_eq_true_eq] at hvalid
  simp only [DateTime.isPlaced, decide_eq_true_eq] at hplaced
  have hdays := Calendar.daysBeforeMonth_bounds t.year t.month
  have hlength := Calendar.monthLength_bounds t.year t.month
  simp only [DateTime.moment, ClockTime.localSeconds, Calendar.dayNumber]
  omega

theorem exists_millisecondsUntil {start finish : Moment} (hstart : start.InCalendar)
    (hfinish : finish.InCalendar) : ∃ ms, millisecondsUntil .binary64 start finish = .ok ms := by
  have hlt : (finish.microseconds - start.microseconds).natAbs ≤ 2 ^ 61 := by
    have hs := hstart.natAbs_lt
    have hf := hfinish.natAbs_lt
    omega
  have hseconds : |((finish.microseconds - start.microseconds : Int) : Rat) / ((1000000 : Int) : Rat)| ≤ 2 ^ 61 := by
    have hdiff : |((finish.microseconds - start.microseconds : Int) : Rat)| ≤ 2 ^ 61 := by
      rw [Rounding.natAbs_cast]
      exact_mod_cast hlt
    rw [abs_div]
    exact (div_le_self (abs_nonneg _) (by norm_num)).trans hdiff
  have hbound {b : Rat} (h : b ≤ 2 ^ 100) : b < 2 ^ 1024 := Rounding.lt_range h (by omega)
  have hwithin := (Double.within_ofExact (decide (finish.microseconds - start.microseconds < 0) !=
    decide ((1000000 : Int) < 0)) hseconds (hbound (by norm_num))).mul (y := .finite 1000) (b := 1000)
      ⟨1000, rfl, by norm_num⟩ (hbound (by norm_num))
  obtain ⟨ms, hms⟩ := hwithin.truncate
  refine ⟨max 0 ms, ?_⟩
  have hden : (1000000 : Int) ≠ 0 := by decide
  simp only [millisecondsUntil, Double.quotient, if_neg hden, bind, Except.bind, hms]

end Moment

end SchemaInference
