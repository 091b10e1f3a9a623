import SchemaInference.Json.Reader
import SchemaInference.Proofs.Number.Reading
import SchemaInference.Proofs.Text.Wide
import Mathlib.Tactic.IntervalCases

set_option autoImplicit false

namespace SchemaInference

namespace Json

def hexStep (value : Option Nat) (c : Char) : Option Nat :=
  value.bind fun n =>
    if c.isDigit then some (16 * n + (c.toNat - 48))
    else
      let letter := c.toLower.toNat
      if 97 ≤ letter ∧ letter ≤ 102 then some (16 * n + (letter - 87)) else none

theorem hexValue?_eq_foldl (cs : List Char) : hexValue? cs = cs.foldl hexStep (some 0) := rfl

theorem hexStep_digitChar (n : Nat) {d : Nat} (hd : d < 16) : hexStep (some n) (Nat.digitChar d) = some (16 * n + d) := by
  unfold hexStep
  interval_cases d <;> rfl

theorem foldl_hexStep_toDigits (n : Nat) : (Nat.toDigits 16 n).foldl hexStep (some 0) = some n := by
  induction n using Nat.strong_induction_on with
  | _ n ih =>
    rw [Nat.toDigits_eq_if (by norm_num)]
    split
    · rename_i hn
      rw [List.foldl_cons, List.foldl_nil, hexStep_digitChar 0 hn, Nat.mul_zero, Nat.zero_add]
    · rename_i hn
      rw [List.foldl_append, ih (n / 16) (by omega), List.foldl_cons, List.foldl_nil,
        hexStep_digitChar _ (Nat.mod_lt n (by norm_num)), Nat.div_add_mod]

theorem hexValue?_hexPadded (width n : Nat) : hexValue? (Text.hexPadded width n) = some n := by
  have hzeros (count : Nat) : (List.replicate count '0').foldl hexStep (some 0) = some 0 := by
    induction count with
    | zero => rfl
    | succ count ih => exact ih
  unfold Text.hexPadded
  dsimp only
  rw [hexValue?_eq_foldl, List.foldl_append, hzeros, foldl_hexStep_toDigits]

theorem exists_hexPadded_eq {n : Nat} (hn : n < 0x10000) : ∃ a b c d, Text.hexPadded 4 n = [a, b, c, d] := by
  have hlength : (Text.hexPadded 4 n).length = 4 := by
    have hle : (Nat.toDigits 16 n).length ≤ 4 := (Nat.length_toDigits_le_iff (by norm_num) (by norm_num)).mpr hn
    unfold Text.hexPadded
    rw [List.length_append, List.length_replicate]
    omega
  generalize Text.hexPadded 4 n = cs at hlength
  match cs with
  | [a, b, c, d] => exact ⟨a, b, c, d, rfl⟩

theorem readUnits_unitEscape (read : WideText) (rest : List Char) {unit : Nat} (hunit : unit < 0x10000) :
    readUnits read (unitEscape unit ++ rest) = readUnits (.ofCode unit :: read) rest := by
  obtain ⟨a, b, c, d, hdigits⟩ := exists_hexPadded_eq hunit
  have hvalue := hexValue?_hexPadded 4 unit
  rw [unitEscape, hdigits, List.cons_append, List.cons_append, List.cons_append, List.cons_append, List.cons_append,
    List.cons_append, List.nil_append, readUnits, ← hdigits, hvalue]

theorem readUnits_plain (read : WideText) (rest : List Char) {c : Char} (hquote : c ≠ '"') (hbackslash : c ≠ '\\') :
    readUnits read (c :: rest) = readUnits (.char c :: read) rest := by
  refine readUnits.eq_5 read c rest hquote ?_ ?_
  · exact fun _ _ _ _ _ h => absurd h hbackslash
  · exact fun _ _ h => absurd h hbackslash

theorem readUnits_escaped (read : WideText) (rest : List Char) {letter c : Char} (hletter : letter ≠ 'u')
    (hescape : plainEscape? letter = some c) :
    readUnits read ('\\' :: letter :: rest) = readUnits (.char c :: read) rest := by
  rw [readUnits.eq_4 read letter rest fun _ _ _ _ _ h => absurd h hletter, hescape]

theorem readUnits_escapedChar (read : WideText) (rest : List Char) {c : Char} (hc : c.toNat < 0x10000) :
    readUnits read (escapedChar c ++ rest) = readUnits (.char c :: read) rest := by
  have hcode {n : Nat} (h : c.toNat = n) : c = Char.ofNat n := by rw [← h, Char.ofNat_toNat]
  unfold escapedChar
  dsimp only
  split_ifs with hquote hbackslash hnewline hreturn htab hbackspace hformfeed hplain
  · subst hquote
    exact readUnits_escaped read rest (by decide) (by decide)
  · subst hbackslash
    exact readUnits_escaped read rest (by decide) (by decide)
  · subst hnewline
    exact readUnits_escaped read rest (by decide) (by decide)
  · subst hreturn
    exact readUnits_escaped read rest (by decide) (by decide)
  · subst htab
    exact readUnits_escaped read rest (by decide) (by decide)
  · rw [hcode hbackspace]
    exact readUnits_escaped read rest (by decide) (by decide)
  · rw [hcode hformfeed]
    exact readUnits_escaped read rest (by decide) (by decide)
  · exact readUnits_plain read rest hquote hbackslash
  · rw [readUnits_unitEscape read rest hc]
    exact congrArg (fun p => readUnits (p :: read) rest) (CodePoint.ofCode_code (.char c))

theorem readUnits_escapedUnit (read : WideText) (rest : List Char) {p : CodePoint} (hp : p.units = [p]) :
    readUnits read (escapedUnit p ++ rest) = readUnits (p :: read) rest := by
  have hcode := CodePoint.code_lt_of_units hp
  cases p with
  | char c => exact readUnits_escapedChar read rest hcode
  | lone unit => rw [escapedUnit, readUnits_unitEscape read rest hcode, CodePoint.ofCode_code]

theorem readUnits_flatMap_escapedUnit (read : WideText) {s : WideText} (hs : ∀ p ∈ s, p.units = [p])
    (rest : List Char) :
    readUnits read (s.flatMap escapedUnit ++ '"' :: rest) = some (read.reverse ++ s, rest) := by
  induction s generalizing read with
  | nil => rw [List.flatMap_nil, List.nil_append, List.append_nil, readUnits]
  | cons p s ih =>
    obtain ⟨hp, hs⟩ := List.forall_mem_cons.mp hs
    rw [List.flatMap_cons, List.append_assoc, readUnits_escapedUnit read _ hp, ih _ hs, List.reverse_cons,
      List.append_assoc, List.singleton_append]

/-- A quoted text tells its units, and where it ends. -/
theorem quoted_append_inj {s t : WideText} {rest rest' : List Char}
    (h : (quoted s).toList ++ rest = (quoted t).toList ++ rest') : s.units = t.units ∧ rest = rest' := by
  have hread (s : WideText) (rest : List Char) :
      readUnits [] (((quoted s).toList ++ rest).tail) = some (s.units, rest) := by
    rw [quoted, String.toList_ofList]
    simp only [List.cons_append, List.append_assoc, List.tail_cons, List.nil_append]
    rw [readUnits_flatMap_escapedUnit [] fun p => WideText.units_of_mem, List.reverse_nil, List.nil_append]
  have hboth := hread s rest
  rw [h, hread t rest'] at hboth
  have hpair := Option.some.inj hboth
  exact ⟨(congrArg Prod.fst hpair).symm, (congrArg Prod.snd hpair).symm⟩

end Json

/-- A whole number, or a double that rounding leaves alone. -/
def Number.Representable : Number → Prop
  | whole _ => True
  | real x => x.Representable

namespace Json

theorem numberText_finite (q : Rat) : numberText (.real (.finite q)) = (Double.finite q).text := rfl

theorem readDouble?_numberText {x : Double} (hx : x.Representable) :
    Numeral.readDouble? .binary64 (numberText (.real x)) = some x := by
  cases x with
  | nan => decide +kernel
  | infinite negative => cases negative <;> decide +kernel
  | negativeZero => exact Double.readDouble?_text hx
  | finite q => exact Double.readDouble?_text hx

theorem integerOf_numberText (i : Int) : Numeral.integerOf (numberText (.whole i)).toList = some i := by
  change Numeral.integerOf (toString i).toList = some i
  rw [Int.toString_eq_repr, Int.repr_eq_if]
  split
  · rename_i hi
    have hends : Numeral.Ends [] := by simp [Numeral.Ends]
    have hread := Numeral.decimalOf_whole (fun c => Numeral.isDigit_of_mem_digitsOf) (Numeral.digitsOf_ne_nil i.toNat)
      hends
    rw [List.append_nil] at hread
    have hsplit := Numeral.splitSign_of_decimalOf hread
    have hall : (Decimal.digitsOf i.toNat).all Char.isDigit = true :=
      List.all_eq_true.mpr fun c => Numeral.isDigit_of_mem_digitsOf
    have hempty : (Decimal.digitsOf i.toNat).isEmpty = false := by simpa using Numeral.digitsOf_ne_nil i.toNat
    rw [Nat.toList_repr]
    change Numeral.integerOf (Decimal.digitsOf i.toNat) = some i
    unfold Numeral.integerOf
    rw [hsplit]
    simp only [hall, hempty, Numeral.valueOf_digitsOf, Numeral.signed, Bool.not_true, Bool.or_self, Bool.false_eq_true,
      if_false]
    congr 1
    omega
  · rename_i hi
    rw [String.toList_append, Nat.toList_repr]
    refine (Numeral.integerOf_signed true (fun c => Numeral.isDigit_of_mem_digitsOf)
      (Numeral.digitsOf_ne_nil (-i).toNat)).trans ?_
    rw [Numeral.valueOf_digitsOf, Numeral.signed, if_pos rfl]
    congr 1
    omega

theorem mem_numberText_whole {i : Int} {c : Char} (h : c ∈ (numberText (.whole i)).toList) :
    c.isDigit = true ∨ c = '-' := by
  have hdigits {n : Nat} (h : c ∈ n.repr.toList) : c.isDigit = true := by
    rw [Nat.toList_repr] at h
    exact Numeral.isDigit_of_mem_digitsOf h
  change c ∈ (toString i).toList at h
  rw [Int.toString_eq_repr, Int.repr_eq_if] at h
  split at h
  · exact .inl (hdigits h)
  · rw [String.toList_append] at h
    rcases List.mem_append.mp h with hsign | h
    · exact .inr (List.mem_singleton.mp hsign)
    · exact .inl (hdigits h)

theorem mem_text_magnitude {x : Double} {sign : List Char} {d : Decimal} {c : Char}
    (htext : x.text = String.ofList (sign ++ Decimal.plain.write d)) (h : c ∈ Decimal.plain.write d) :
    c ∈ x.text.toList := by
  rw [htext, String.toList_ofList]
  exact List.mem_append_right _ h

/-- The text of a finite double that is not zero: the sign, and the shortest decimal of the magnitude. -/
theorem exists_text_eq {q : Rat} (hq : q ≠ 0) : ∃ sign d, (sign = [] ∨ sign = ['-']) ∧
    (Double.finite q).text = String.ofList (sign ++ Decimal.plain.write d) := by
  have hnum : q.num ≠ 0 := Rat.num_ne_zero.mpr hq
  by_cases hneg : q.num < 0
  · refine ⟨['-'], Decimal.shortest (-q), .inr rfl, ?_⟩
    rw [Double.text, Double.written, if_neg hnum, if_pos hneg]
    rfl
  · refine ⟨[], Decimal.shortest q, .inl rfl, ?_⟩
    rw [Double.text, Double.written, if_neg hnum, if_neg hneg]
    rfl

theorem exists_mark (x : Double) : ∃ c ∈ (numberText (.real x)).toList, c ∈ ['.', 'e', 'N', 'I'] := by
  have hwrite (d : Decimal) : ∃ c ∈ Decimal.plain.write d, c ∈ ['.', 'e', 'N', 'I'] := by
    unfold Decimal.Layout.write
    split
    · exact ⟨'e', by simp [Decimal.scientific], by decide⟩
    · split
      · exact ⟨'.', by simp, by decide⟩
      · rename_i hwhole
        refine ⟨'.', ?_, by decide⟩
        obtain ⟨digits, exponent⟩ := d
        cases exponent with
        | ofNat k => exact absurd (by simp [Decimal.plain]) hwhole
        | negSucc k => simp [Decimal.positional, Decimal.withPoint]
  cases x with
  | nan => exact ⟨'N', by decide, by decide⟩
  | infinite negative => cases negative <;> exact ⟨'I', by decide, by decide⟩
  | negativeZero => exact ⟨'.', by decide, by decide⟩
  | finite q =>
    rw [numberText_finite]
    rcases eq_or_ne q 0 with rfl | hq
    · exact ⟨'.', by decide, by decide⟩
    · obtain ⟨sign, d, -, htext⟩ := exists_text_eq hq
      obtain ⟨c, hc, hmark⟩ := hwrite d
      exact ⟨c, mem_text_magnitude htext hc, hmark⟩

theorem notMem_of_isDigit {cs : List Char} (hcs : cs.all (fun b => !b.isDigit) = true) {c : Char}
    (h : c.isDigit = true) : c ∉ cs := by
  intro hmem
  have hno := List.all_eq_true.mp hcs c hmem
  rw [h] at hno
  cases hno

theorem numberText_inj {m n : Number} (hm : m.Representable) (hn : n.Representable)
    (h : numberText m = numberText n) : m = n := by
  have hapart (i : Int) (x : Double) : numberText (.whole i) ≠ numberText (.real x) := by
    intro heq
    obtain ⟨c, hc, hmark⟩ := exists_mark x
    rw [← heq] at hc
    rcases mem_numberText_whole hc with hdigit | rfl
    · exact notMem_of_isDigit (by decide) hdigit hmark
    · exact absurd hmark (by decide)
  cases m with
  | whole i =>
    cases n with
    | whole j =>
      have hread := integerOf_numberText i
      rw [h, integerOf_numberText] at hread
      exact congrArg Number.whole (Option.some.inj hread).symm
    | real y => exact absurd h (hapart i y)
  | real x =>
    cases n with
    | whole j => exact absurd h.symm (hapart j x)
    | real y =>
      have hread := readDouble?_numberText hm
      rw [h, readDouble?_numberText hn] at hread
      exact congrArg Number.real (Option.some.inj hread).symm

def numberChars : List Char :=
  Double.textChars ++ ['N', 'I', 't', 'y']

theorem mem_numberChars {n : Number} {c : Char} (h : c ∈ (numberText n).toList) : c ∈ numberChars := by
  have hsome {cs : List Char} (hcs : cs ⊆ numberChars) (hc : c ∈ cs) : c ∈ numberChars := hcs hc
  cases n with
  | whole i =>
    rcases mem_numberText_whole h with hdigit | rfl
    · exact List.mem_append_left _ (Double.mem_textChars_of_isDigit hdigit)
    · decide
  | real x =>
    cases x with
    | nan => exact hsome (by decide) h
    | infinite negative => cases negative <;> exact hsome (by decide) h
    | negativeZero => exact hsome (by decide) h
    | finite q =>
      rw [numberText_finite] at h
      rcases eq_or_ne q 0 with rfl | hq
      · exact hsome (by decide) h
      · obtain ⟨sign, d, hsign, htext⟩ := exists_text_eq hq
        rw [htext, String.toList_ofList] at h
        refine List.mem_append_left _ ?_
        rcases List.mem_append.mp h with h | h
        · rcases hsign with rfl | rfl
          · cases h
          · rw [List.mem_singleton.mp h]
            decide
        · exact Double.mem_textChars_of_mem_write h

theorem exists_numberText_eq_cons (n : Number) : ∃ c rest, (numberText n).toList = c :: rest ∧
    c ∉ ['n', 't', 'f', '"', '[', ']', '\x7b', '\x7d'] := by
  have hdigit {c : Char} (h : c.isDigit = true) : c ∉ ['n', 't', 'f', '"', '[', ']', '\x7b', '\x7d'] :=
    notMem_of_isDigit (by decide) h
  cases n with
  | whole i =>
    cases htext : (numberText (.whole i)).toList with
    | nil =>
      have hempty : numberText (.whole i) = "" := String.toList_eq_nil_iff.mp htext
      have hread : Int.repr i = "" := hempty
      rw [Int.repr_eq_if] at hread
      split at hread
      · exact absurd hread Nat.repr_ne_empty
      · simp at hread
    | cons c rest =>
      refine ⟨c, rest, rfl, ?_⟩
      have hc : c ∈ (numberText (.whole i)).toList := htext ▸ List.mem_cons_self
      rcases mem_numberText_whole hc with h | rfl
      · exact hdigit h
      · decide
  | real x =>
    cases x with
    | nan => exact ⟨'N', _, rfl, by decide⟩
    | infinite negative =>
      cases negative
      · exact ⟨'I', _, rfl, by decide⟩
      · exact ⟨'-', _, rfl, by decide⟩
    | negativeZero => exact ⟨'-', _, rfl, by decide⟩
    | finite q =>
      rw [numberText_finite]
      rcases eq_or_ne q 0 with rfl | hq
      · exact ⟨'0', _, rfl, by decide⟩
      · obtain ⟨sign, d, hsign, htext⟩ := exists_text_eq hq
        rw [htext, String.toList_ofList]
        rcases hsign with rfl | rfl
        · obtain ⟨d', hread, -⟩ := Decimal.decimalOf_write Decimal.plain d
          obtain ⟨c, rest, hwrite, hc⟩ := Numeral.exists_eq_cons_of_decimalOf hread
          refine ⟨c, rest, hwrite, ?_⟩
          rcases hc with h | rfl
          · exact hdigit h
          · decide
        · exact ⟨'-', _, rfl, by decide⟩

end Json

end SchemaInference
