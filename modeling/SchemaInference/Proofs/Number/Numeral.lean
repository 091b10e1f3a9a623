import SchemaInference.Number.Numeral

set_option autoImplicit false

namespace SchemaInference

namespace Text

def blankCodes : List Nat :=
  [9, 10, 11, 12, 13, 28, 29, 30, 31, 32, 133, 160, 5760, 8192, 8193, 8194, 8195, 8196, 8197, 8198, 8199, 8200,
    8201, 8202, 8232, 8233, 8239, 8287, 12288]

theorem toNat_mem_of_isBlank {c : Char} (h : isBlank c = true) : c.toNat ∈ blankCodes := by
  simp only [isBlank, CharSet.contains, CharSet.holds, blanks, CharSet.holds.go] at h
  simp only [blankCodes, List.mem_cons, List.not_mem_nil]
  grind

theorem isWhite_of_isDigitLike {c : Char} (h : isDigitLike c = true) : isWhite c = false := by
  have hblanks : ∀ n ∈ blankCodes, isDigitLike (Char.ofNat n) = false := by decide
  cases hblank : isBlank c with
  | false => simp [isWhite, hblank]
  | true =>
    have hc := hblanks c.toNat (toNat_mem_of_isBlank hblank)
    rw [Char.ofNat_toNat, h] at hc
    cases hc

theorem digitValue?_lt {c : Char} {v : Nat} (h : digitValue? c = some v) : v < 10 := by
  unfold digitValue? at h
  dsimp only at h
  split at h
  · split at h
    · cases h; omega
    · cases h
  · obtain ⟨z, hz, rfl⟩ := Option.map_eq_some_iff.mp h
    have hrange := List.find?_some hz
    simp only [Bool.and_eq_true, decide_eq_true_eq] at hrange
    omega

theorem isDecimalDigit_of_isDigit {c : Char} (h : c.isDigit = true) : isDecimalDigit c = true := by
  have hrange : 48 ≤ c.toNat ∧ c.toNat ≤ 57 := by
    simpa [Char.isDigit, UInt32.le_iff_toNat_le] using h
  unfold isDecimalDigit digitValue?
  dsimp only
  rw [if_pos (by omega), if_pos hrange]
  rfl

end Text

namespace Numeral

def plain (c : Char) : Char :=
  match Text.digitValue? c with
  | some v => Char.ofNat (48 + v)
  | none => c

theorem isDigit_plain (c : Char) : (plain c).isDigit = Text.isDecimalDigit c := by
  have hdigits : ∀ v < 10, (Char.ofNat (48 + v)).isDigit = true := by decide
  unfold plain Text.isDecimalDigit
  cases hvalue : Text.digitValue? c with
  | some v => exact hdigits v (Text.digitValue?_lt hvalue)
  | none =>
    refine Bool.eq_false_iff.mpr fun h => ?_
    have hdecimal := Text.isDecimalDigit_of_isDigit h
    simp [Text.isDecimalDigit, hvalue] at hdecimal

theorem plain_ne {c other : Char} (h : Text.isDigitLike c = true) (hdigit : other.isDigit = false)
    (hother : Text.isDigitLike other = false) : plain c ≠ other := by
  intro heq
  have hdecimal := isDigit_plain c
  rw [heq, hdigit] at hdecimal
  unfold plain at heq
  cases hvalue : Text.digitValue? c with
  | some v => simp [Text.isDecimalDigit, hvalue] at hdecimal
  | none =>
    rw [hvalue] at heq
    subst heq
    simp [h] at hother

theorem plainDigits_eq {s : String} (h : ∀ c ∈ s.toList, Text.isDigitLike c = true) :
    plainDigits s = s.toList.map plain := by
  have hdrop (cs : List Char) (hcs : ∀ c ∈ cs, Text.isDigitLike c = true) : cs.dropWhile Text.isWhite = cs := by
    cases cs with
    | nil => rfl
    | cons c rest => simp [Text.isWhite_of_isDigitLike (hcs c List.mem_cons_self)]
  have htrim : Text.trimBy Text.isWhite s.toList = s.toList := by
    unfold Text.trimBy
    rw [hdrop _ h, hdrop _ fun c hc => h c (List.mem_reverse.mp hc), List.reverse_reverse]
  rw [plainDigits, htrim]
  rfl

theorem joined_eq_self {cs : List Char} (h : '_' ∉ cs) (afterDigit : Bool) : joined afterDigit cs = some cs := by
  induction cs generalizing afterDigit with
  | nil => rfl
  | cons c rest ih =>
    obtain ⟨hc, hrest⟩ : '_' ≠ c ∧ '_' ∉ rest := by simpa using h
    rw [joined, if_neg (Ne.symm hc), ih hrest]
    · rfl
    · exact fun _ _ hunderscore _ => hc hunderscore.symm

theorem integerOf_isSome {cs : List Char} (hne : cs ≠ []) (hplus : '+' ∉ cs) (hminus : '-' ∉ cs) :
    (integerOf cs).isSome = cs.all Char.isDigit := by
  cases cs with
  | nil => exact absurd rfl hne
  | cons c rest =>
    have hsign : splitSign (c :: rest) = (false, c :: rest) := by
      unfold splitSign
      split
      · simp_all
      · simp_all
      · rfl
    unfold integerOf
    rw [hsign]
    cases hall : (c :: rest).all Char.isDigit <;> simp [hall]

theorem readInteger?_isSome {s : String} (hne : s ≠ "") (h : ∀ c ∈ s.toList, Text.isDigitLike c = true) :
    (readInteger? s).isSome = s.toList.all Text.isDecimalDigit := by
  have hnot {other : Char} (hdigit : other.isDigit = false) (hother : Text.isDigitLike other = false) :
      other ∉ s.toList.map plain := by
    intro hmem
    obtain ⟨c, hc, heq⟩ := List.mem_map.mp hmem
    exact plain_ne (h c hc) hdigit hother heq
  have hne' : s.toList.map plain ≠ [] := by
    simpa using hne
  rw [readInteger?, plainDigits_eq h, joined_eq_self (hnot (by decide) (by decide))]
  change (integerOf (s.toList.map plain)).isSome = _
  rw [integerOf_isSome hne' (hnot (by decide) (by decide)) (hnot (by decide) (by decide)), List.all_map]
  exact congrArg s.toList.all (funext isDigit_plain)

end Numeral

end SchemaInference
