import SchemaInference.Proofs.Number.Numeral
import SchemaInference.Proofs.Number.Shortest
import Mathlib.Data.Bool.AllAny

set_option autoImplicit false

namespace SchemaInference

namespace Numeral

def Ends (tail : List Char) : Prop :=
  ∀ c ∈ tail.head?, c.isDigit = false ∧ c ≠ '.'

theorem valueOf_eq_ofDigitChars (digits : List Char) : valueOf digits = Nat.ofDigitChars 10 digits 0 := rfl

theorem valueOf_digitsOf (n : Nat) : valueOf (Decimal.digitsOf n) = n :=
  Nat.ofDigitChars_ten_toDigits

theorem isDigit_of_mem_digitsOf {n : Nat} {c : Char} (h : c ∈ Decimal.digitsOf n) : c.isDigit = true :=
  Nat.isDigit_of_mem_toDigits (by norm_num) le_rfl h

theorem digitsOf_ne_nil (n : Nat) : Decimal.digitsOf n ≠ [] :=
  Nat.toDigits_ne_nil

theorem valueOf_zeros_append (count : Nat) (digits : List Char) :
    valueOf (List.replicate count '0' ++ digits) = valueOf digits := by
  rw [valueOf_eq_ofDigitChars, Nat.ofDigitChars_append, Nat.ofDigitChars_replicate_zero]
  rfl

theorem isDigit_of_mem_zeros_append {count : Nat} {digits : List Char} (hdigits : ∀ c ∈ digits, c.isDigit = true) :
    ∀ c ∈ List.replicate count '0' ++ digits, c.isDigit = true := by
  intro c hc
  rcases List.mem_append.mp hc with hzero | hc
  · rw [List.eq_of_mem_replicate hzero]
    rfl
  · exact hdigits c hc

theorem takeWhile_digits {digits rest : List Char} (hdigits : ∀ c ∈ digits, c.isDigit = true)
    (hrest : ∀ c ∈ rest.head?, c.isDigit = false) :
    (digits ++ rest).takeWhile Char.isDigit = digits ∧ (digits ++ rest).dropWhile Char.isDigit = rest := by
  have hnone : rest.takeWhile Char.isDigit = [] ∧ rest.dropWhile Char.isDigit = rest := by
    cases rest with
    | nil => exact ⟨rfl, rfl⟩
    | cons c rest =>
      have hc := hrest c rfl
      simp [hc]
  rw [List.takeWhile_append_of_pos hdigits, List.dropWhile_append_of_pos hdigits, hnone.1, hnone.2, List.append_nil]
  exact ⟨rfl, rfl⟩

theorem splitSign_of_decimalOf {cs : List Char} {d : Decimal} (h : decimalOf cs = some d) :
    splitSign cs = (false, cs) := by
  unfold splitSign
  split
  · simp [decimalOf] at h
  · simp [decimalOf] at h
  · rfl

theorem exists_eq_cons_of_decimalOf {cs : List Char} {d : Decimal} (h : decimalOf cs = some d) :
    ∃ c rest, cs = c :: rest ∧ (c.isDigit = true ∨ c = '.') := by
  cases cs with
  | nil => simp [decimalOf] at h
  | cons c rest =>
    refine ⟨c, rest, rfl, or_iff_not_imp_left.mpr fun hdigit => ?_⟩
    by_contra hpoint
    simp [decimalOf, hdigit, hpoint] at h

def exponentOf (places : Nat) (value : Nat) : List Char → Option Decimal
  | [] => some ⟨value, -(places : Int)⟩
  | e :: r =>
    if e = 'e' ∨ e = 'E' then (integerOf r).map fun exponent => ⟨value, exponent - places⟩ else none

theorem decimalOf_whole {digits tail : List Char} (hdigits : ∀ c ∈ digits, c.isDigit = true) (hne : digits ≠ [])
    (htail : Ends tail) : decimalOf (digits ++ tail) = exponentOf 0 (valueOf digits) tail := by
  obtain ⟨hwhole, hrest⟩ := takeWhile_digits hdigits fun c hc => (htail c hc).1
  have hempty : digits.isEmpty = false := by simpa using hne
  unfold decimalOf
  simp only [hwhole, hrest]
  cases tail with
  | nil => simp [exponentOf, hempty]
  | cons c rest =>
    have hpoint : c ≠ '.' := (htail c rfl).2
    simp [exponentOf, hpoint, hempty]

theorem decimalOf_point {digits fraction tail : List Char} (hdigits : ∀ c ∈ digits, c.isDigit = true)
    (hne : digits ≠ []) (hfraction : ∀ c ∈ fraction, c.isDigit = true) (htail : Ends tail) :
    decimalOf (digits ++ '.' :: (fraction ++ tail)) = exponentOf fraction.length (valueOf (digits ++ fraction)) tail := by
  obtain ⟨hwhole, hrest⟩ : (digits ++ '.' :: (fraction ++ tail)).takeWhile Char.isDigit = digits ∧
      (digits ++ '.' :: (fraction ++ tail)).dropWhile Char.isDigit = '.' :: (fraction ++ tail) :=
    takeWhile_digits hdigits (by rintro c ⟨⟩; rfl)
  obtain ⟨hafter, hend⟩ := takeWhile_digits hfraction fun c hc => (htail c hc).1
  have hempty : digits.isEmpty = false := by simpa using hne
  unfold decimalOf
  simp only [hwhole, hrest, hafter, hend, hempty]
  cases tail <;> simp [exponentOf]

theorem integerOf_signed (negative : Bool) {digits : List Char} (hdigits : ∀ c ∈ digits, c.isDigit = true)
    (hne : digits ≠ []) :
    integerOf ((if negative then '-' else '+') :: digits) = some (signed negative (valueOf digits)) := by
  have hempty : digits.isEmpty = false := by simpa using hne
  have hall : digits.all Char.isDigit = true := List.all_eq_true.mpr hdigits
  cases negative <;> simp [integerOf, splitSign, hempty, hall]

end Numeral

namespace Decimal

open Numeral

theorem integerOf_exponentText (e : Int) : integerOf (exponentText e) = some e := by
  have hsign : (if e < 0 then '-' else '+') = (if decide (e < 0) then '-' else '+') := by simp
  unfold exponentText
  dsimp only
  rw [hsign, integerOf_signed _ (isDigit_of_mem_zeros_append fun c => isDigit_of_mem_digitsOf)
    (List.append_ne_nil_of_right_ne_nil _ (digitsOf_ne_nil _)), valueOf_zeros_append, valueOf_digitsOf]
  congr 1
  by_cases he : e < 0
  · simp only [he, decide_true, signed, if_true]
    omega
  · simp only [he, decide_false, signed, Bool.false_eq_true, if_false]
    omega

theorem decimalOf_withPoint {digits tail : List Char} (places : Nat) (hdigits : ∀ c ∈ digits, c.isDigit = true)
    (hne : digits ≠ []) (htail : Ends tail) :
    decimalOf (withPoint digits places ++ tail) = exponentOf places (valueOf digits) tail := by
  unfold withPoint
  split
  · rename_i hzero
    subst hzero
    exact decimalOf_whole hdigits hne htail
  · rename_i hplaces
    dsimp only
    have hpadded : ∀ c ∈ List.replicate (places + 1 - digits.length) '0' ++ digits, c.isDigit = true :=
      isDigit_of_mem_zeros_append hdigits
    have hvalue := valueOf_zeros_append (places + 1 - digits.length) digits
    have hlength : places + 1 ≤ (List.replicate (places + 1 - digits.length) '0' ++ digits).length := by
      rw [List.length_append, List.length_replicate]
      omega
    generalize List.replicate (places + 1 - digits.length) '0' ++ digits = padded at *
    have hbefore : padded.take (padded.length - places) ≠ [] := by
      rw [Ne, List.take_eq_nil_iff]
      rintro (hzero | rfl)
      · omega
      · simp at hlength
    have hafter : (padded.drop (padded.length - places)).length = places := by
      rw [List.length_drop]
      omega
    rw [List.append_assoc, List.cons_append, decimalOf_point (fun c hc => hpadded c (List.mem_of_mem_take hc)) hbefore
      (fun c hc => hpadded c (List.mem_of_mem_drop hc)) htail, hafter, List.take_append_drop, hvalue]

theorem ends_exponent (r : List Char) : Ends ('e' :: r) := by
  rintro c ⟨⟩
  exact ⟨rfl, by decide⟩

theorem decimalOf_scientific (d : Decimal) : decimalOf d.scientific = some d := by
  have hlength : 0 < (digitsOf d.digits).length := List.length_pos_of_ne_nil (digitsOf_ne_nil _)
  unfold scientific
  dsimp only
  rw [decimalOf_withPoint _ (fun c => isDigit_of_mem_digitsOf) (digitsOf_ne_nil _) (ends_exponent _), exponentOf,
    if_pos (.inl rfl), integerOf_exponentText, valueOf_digitsOf, Option.map_some]
  congr 2
  omega

theorem decimalOf_positional (d : Decimal) (fraction : List Char) (hfraction : ∀ c ∈ fraction, c = '0')
    (hwhole : fraction ≠ [] → 0 ≤ d.exponent) :
    ∃ d', decimalOf (d.positional ++ if fraction = [] then [] else '.' :: fraction) = some d' ∧ d'.toRat = d.toRat := by
  obtain ⟨digits, exponent⟩ := d
  have hends : Ends [] := by simp [Ends]
  cases exponent with
  | ofNat k =>
    unfold positional
    dsimp only
    by_cases hnone : fraction = []
    · rw [if_pos hnone, decimalOf_whole (fun c => isDigit_of_mem_digitsOf) (digitsOf_ne_nil _) hends, valueOf_digitsOf]
      refine ⟨_, rfl, ?_⟩
      rw [toRat_eq, toRat_eq]
      push_cast
      simp
    · have hzeros : fraction = List.replicate fraction.length '0' := List.eq_replicate_of_mem hfraction
      have hdigits : ∀ c ∈ fraction, c.isDigit = true := fun c hc => by
        rw [hfraction c hc]
        rfl
      have hread := decimalOf_point (fun c => isDigit_of_mem_digitsOf (n := digits * Nat.pow 10 k)) (digitsOf_ne_nil _)
        hdigits hends
      rw [List.append_nil] at hread
      rw [if_neg hnone, hread]
      refine ⟨_, rfl, ?_⟩
      have hvalue : valueOf (digitsOf (digits * Nat.pow 10 k) ++ fraction) =
          10 ^ fraction.length * (digits * Nat.pow 10 k) := by
        rw [valueOf_eq_ofDigitChars, Nat.ofDigitChars_append, hzeros, Nat.ofDigitChars_replicate_zero,
          ← valueOf_eq_ofDigitChars, valueOf_digitsOf, List.length_replicate]
      rw [toRat_eq, toRat_eq, hvalue]
      have hpos := ten_zpow_pos (fraction.length : Int)
      rw [zpow_neg]
      push_cast
      rw [zpow_natCast] at hpos ⊢
      field_simp
      simp
  | negSucc k =>
    have hnone : fraction = [] := by
      by_contra hne
      have hle := hwhole hne
      simp at hle
    unfold positional
    dsimp only
    rw [if_pos hnone, decimalOf_withPoint _ (fun c => isDigit_of_mem_digitsOf) (digitsOf_ne_nil _) hends, valueOf_digitsOf]
    exact ⟨_, rfl, rfl⟩

/-- A decimal is read back as the same number, however it is laid out. -/
theorem decimalOf_write (l : Layout) (d : Decimal) : ∃ d', decimalOf (l.write d) = some d' ∧ d'.toRat = d.toRat := by
  unfold Layout.write
  split
  · exact ⟨d, decimalOf_scientific d, rfl⟩
  · split
    · rename_i hwhole
      have hexponent : 0 ≤ d.exponent := of_decide_eq_true (Bool.and_eq_true_iff.mp hwhole).2
      exact decimalOf_positional d ['0'] (by simp) fun _ => hexponent
    · simpa using decimalOf_positional d [] (by simp) (by simp)

theorem log_toRat {d : Decimal} (h : d.digits ≠ 0) :
    Int.log 10 d.toRat = (digitsOf d.digits).length + d.exponent - 1 := by
  have hpos : 0 < d.digits := Nat.pos_of_ne_zero h
  have hdigits : (0 : Rat) < d.digits := by exact_mod_cast hpos
  have hlength : 0 < (digitsOf d.digits).length := Nat.length_toDigits_pos
  obtain ⟨hlow, hhigh⟩ := digitsOf_bracket hpos
  have hsplit (k : Nat) : (10 : Rat) ^ ((k : Int) + d.exponent) = 10 ^ k * 10 ^ d.exponent := by
    rw [zpow_add₀ (by norm_num), zpow_natCast]
  have hstep := ten_zpow_pos d.exponent
  rw [toRat_eq]
  refine log_eq_of_bracket (by norm_num) (mul_pos hdigits hstep) ?_ ?_
  · rw [show ((digitsOf d.digits).length : Int) + d.exponent - 1 =
      (((digitsOf d.digits).length - 1 : Nat) : Int) + d.exponent by omega]
    push_cast
    rw [hsplit]
    exact mul_le_mul_of_nonneg_right (by exact_mod_cast hlow) hstep.le
  · rw [show ((digitsOf d.digits).length : Int) + d.exponent - 1 + 1 =
      (((digitsOf d.digits).length - 1 + 1 : Nat) : Int) + d.exponent by omega]
    push_cast
    rw [← Nat.cast_one (R := Int), ← Nat.cast_add, hsplit]
    exact mul_lt_mul_of_pos_right (by exact_mod_cast hhigh) hstep

end Decimal

namespace Double

theorem representable_ofDecimal (negative : Bool) (d : Decimal) : (ofDecimal .binary64 negative d).Representable := by
  unfold ofDecimal
  dsimp only
  split_ifs
  · cases negative
    · decide
    · exact representable_negativeZero
  · exact representable_infinite negative
  · exact representable_ofExact _ _
  · exact representable_ofExact _ _

/-- A decimal that is rounded to a double is taken for it, unless it is far out of range. -/
theorem ofDecimal_eq {d : Decimal} {q : Rat} (hd : d.digits ≠ 0) (hlow : (10 : Rat) ^ (-400 : Int) ≤ d.toRat)
    (hhigh : d.toRat < 10 ^ (400 : Int)) (hq : q ≠ 0) (h : Rounding.binary64.apply d.toRat = some q)
    (negative : Bool) : ofDecimal .binary64 negative d = finite (if negative then -q else q) := by
  have hpos : 0 < d.toRat := (Decimal.ten_zpow_pos _).trans_le hlow
  have hlowlog := (Int.zpow_le_iff_le_log (b := 10) (by norm_num) hpos).mp hlow
  have hhighlog := (Int.lt_zpow_iff_log_lt (b := 10) (by norm_num) hpos).mp hhigh
  rw [Decimal.log_toRat hd] at hlowlog hhighlog
  unfold ofDecimal
  dsimp only
  rw [if_neg (by omega), if_neg (by omega)]
  have happly : Rounding.binary64.apply (if negative then -d.toRat else d.toRat) =
      some (if negative then -q else q) := by
    cases negative with
    | false => simpa only [Bool.false_eq_true, if_false] using h
    | true => simp only [if_true, Rounding.binary64_apply_neg, h, Option.map_some]
  have hne : (if negative then -q else q) ≠ 0 := by
    cases negative with
    | false => exact hq
    | true => exact neg_ne_zero.mpr hq
  rw [ofExact, happly]
  exact if_neg (Rat.num_ne_zero.mpr hne)

def textChars : List Char :=
  ['0', '1', '2', '3', '4', '5', '6', '7', '8', '9', '+', '-', '.', 'e', 'i', 'n', 'f', 'a']

theorem mem_textChars_of_isDigit {c : Char} (h : c.isDigit = true) : c ∈ textChars := by
  have hall : ∀ n < 10, Char.ofNat (48 + n) ∈ textChars := by decide
  have hrange : 48 ≤ c.toNat ∧ c.toNat ≤ 57 := by
    simpa [Char.isDigit, UInt32.le_iff_toNat_le] using h
  have hmem := hall (c.toNat - 48) (by omega)
  rwa [show 48 + (c.toNat - 48) = c.toNat by omega, Char.ofNat_toNat] at hmem

theorem mem_withPoint {digits : List Char} {places : Nat} {c : Char} (h : c ∈ Decimal.withPoint digits places) :
    c ∈ digits ∨ c = '0' ∨ c = '.' := by
  unfold Decimal.withPoint at h
  split at h
  · exact .inl h
  · dsimp only at h
    have hpadded {c : Char} (hc : c ∈ List.replicate (places + 1 - digits.length) '0' ++ digits) :
        c ∈ digits ∨ c = '0' ∨ c = '.' := by
      rcases List.mem_append.mp hc with hzero | hc
      · exact .inr (.inl (List.eq_of_mem_replicate hzero))
      · exact .inl hc
    rcases List.mem_append.mp h with h | h
    · exact hpadded (List.mem_of_mem_take h)
    · rcases List.mem_cons.mp h with rfl | h
      · exact .inr (.inr rfl)
      · exact hpadded (List.mem_of_mem_drop h)

theorem mem_textChars_of_mem_write {l : Decimal.Layout} {d : Decimal} {c : Char} (h : c ∈ l.write d) :
    c ∈ textChars := by
  have hdigits {n : Nat} {c : Char} (h : c ∈ Decimal.digitsOf n) : c ∈ textChars :=
    mem_textChars_of_isDigit (Numeral.isDigit_of_mem_digitsOf h)
  have hpoint {n places : Nat} {c : Char} (h : c ∈ Decimal.withPoint (Decimal.digitsOf n) places) : c ∈ textChars := by
    rcases mem_withPoint h with h | rfl | rfl
    · exact hdigits h
    · decide
    · decide
  have hpositional {c : Char} (h : c ∈ d.positional) : c ∈ textChars := by
    unfold Decimal.positional at h
    split at h
    · exact hdigits h
    · exact hpoint h
  have hexponent {e : Int} {c : Char} (h : c ∈ Decimal.exponentText e) : c ∈ textChars := by
    unfold Decimal.exponentText at h
    rcases List.mem_cons.mp h with rfl | h
    · split <;> decide
    · rcases List.mem_append.mp h with hzero | h
      · rw [List.eq_of_mem_replicate hzero]
        decide
      · exact hdigits h
  unfold Decimal.Layout.write at h
  split at h
  · unfold Decimal.scientific at h
    rcases List.mem_append.mp h with h | h
    · exact hpoint h
    · rcases List.mem_cons.mp h with rfl | h
      · decide
      · exact hexponent h
  · split at h
    · rcases List.mem_append.mp h with h | h
      · exact hpositional h
      · rcases List.mem_cons.mp h with rfl | h
        · decide
        · rw [List.mem_singleton.mp h]
          decide
    · exact hpositional h

theorem joined_plainDigits {cs : List Char} (h : ∀ c ∈ cs, c ∈ textChars) :
    Numeral.joined false (Numeral.plainDigits (String.ofList cs)) = some cs := by
  have hchars : ∀ c ∈ textChars, Text.isWhite c = false ∧ Numeral.plain c = c ∧ c ≠ '_' :=
    List.all_iff_forall_prop.mp (by decide)
  have hdrop (cs : List Char) (hcs : ∀ c ∈ cs, c ∈ textChars) : cs.dropWhile Text.isWhite = cs := by
    cases cs with
    | nil => rfl
    | cons c rest => simp [(hchars c (hcs c List.mem_cons_self)).1]
  have hplain : Numeral.plainDigits (String.ofList cs) = cs := by
    unfold Numeral.plainDigits Text.trimBy
    rw [String.toList_ofList, hdrop _ h, hdrop _ fun c hc => h c (List.mem_reverse.mp hc), List.reverse_reverse]
    exact (List.map_congr_left fun c hc => (hchars c (h c hc)).2.1).trans (List.map_id cs)
  rw [hplain, Numeral.joined_eq_self fun hmem => (hchars _ (h _ hmem)).2.2 rfl]

theorem readDouble?_magnitude {q : Rat} (hq : 0 < q) (h : Rounding.binary64.apply q = some q) (negative : Bool) :
    Numeral.readDouble? .binary64
        (String.ofList ((if negative then ['-'] else []) ++ Decimal.plain.write (Decimal.shortest q))) =
      some (finite (if negative then -q else q)) := by
  obtain ⟨hdigits, happly, hhalf, htwice⟩ := Decimal.binary64_apply_shortest hq h
  obtain ⟨hlow, hhigh⟩ := Decimal.range_of_apply hq h
  obtain ⟨d, hread, hvalue⟩ := Decimal.decimalOf_write Decimal.plain (Decimal.shortest q)
  have hd : d.digits ≠ 0 := by
    intro hzero
    have hpos : 0 < d.toRat := by
      rw [hvalue]
      exact (half_pos hq).trans_le hhalf
    rw [Decimal.toRat_eq, hzero] at hpos
    simp at hpos
  rw [← hvalue] at happly hhalf htwice
  have hof := ofDecimal_eq hd (hlow.trans hhalf) (htwice.trans_lt hhigh) hq.ne' happly negative
  have hchars : ∀ c ∈ (if negative then ['-'] else []) ++ Decimal.plain.write (Decimal.shortest q), c ∈ textChars := by
    intro c hc
    rcases List.mem_append.mp hc with hsign | hc
    · cases negative with
      | false => cases hsign
      | true =>
        rw [List.mem_singleton.mp hsign]
        decide
    · exact mem_textChars_of_mem_write hc
  have hsplit : Numeral.splitSign ((if negative then ['-'] else []) ++ Decimal.plain.write (Decimal.shortest q)) =
      (negative, Decimal.plain.write (Decimal.shortest q)) := by
    cases negative with
    | false => exact Numeral.splitSign_of_decimalOf hread
    | true => rfl
  rw [Numeral.readDouble?, joined_plainDigits hchars, Option.bind_some, hsplit]
  dsimp only
  rw [hread]
  exact congrArg some hof

/-- The text of a double is read back as the double. -/
theorem readDouble?_text {x : Double} (hx : x.Representable) : Numeral.readDouble? .binary64 x.text = some x := by
  cases x with
  | nan => decide +kernel
  | infinite negative => cases negative <;> decide +kernel
  | negativeZero => decide +kernel
  | finite q =>
    rcases lt_trichotomy q 0 with hneg | rfl | hpos
    · have hopposite : 0 < -q := neg_pos.mpr hneg
      have happly : Rounding.binary64.apply (-q) = some (-q) := by
        rw [Rounding.binary64_apply_neg, representable_finite.mp hx]
        rfl
      have hnum : q.num < 0 := Rat.num_neg.mpr hneg
      have htext : (finite q).text = String.ofList ('-' :: Decimal.plain.write (Decimal.shortest (-q))) := by
        rw [text, written, if_neg hnum.ne, if_pos hnum]
      rw [htext]
      simpa using readDouble?_magnitude hopposite happly true
    · decide +kernel
    · have hnum : 0 < q.num := Rat.num_pos.mpr hpos
      have htext : (finite q).text = String.ofList (Decimal.plain.write (Decimal.shortest q)) := by
        rw [text, written, if_neg hnum.ne', if_neg hnum.not_gt]
      rw [htext]
      simpa using readDouble?_magnitude hpos (representable_finite.mp hx) false

end Double

end SchemaInference
