import SchemaInference.Text.Case

set_option autoImplicit false

namespace SchemaInference

namespace Text

/-- Texts that are one but for the case of the letters from A to Z. -/
def SameButForCase (s t : String) : Prop :=
  s.toList.map Char.toLower = t.toList.map Char.toLower

instance (s t : String) : Decidable (SameButForCase s t) :=
  inferInstanceAs (Decidable (_ = _))

theorem lowerSequence_toLower (c : Char) : lowerSequence c.toLower = lowerSequence c := by
  by_cases hcapital : c.val ≥ 'A'.val ∧ c.val ≤ 'Z'.val
  · have hcapitals : ∀ k < 26, lowerSequence (Char.ofNat (65 + k)).toLower = lowerSequence (Char.ofNat (65 + k)) := by
      decide +kernel
    simp only [ge_iff_le, UInt32.le_iff_toNat_le] at hcapital
    have hcode : 65 + (c.toNat - 65) = c.toNat := Nat.add_sub_cancel' hcapital.1
    have hc := hcapitals (c.toNat - 65) (Nat.sub_lt_left_of_lt_add hcapital.1 (Nat.lt_succ_of_le hcapital.2))
    rwa [hcode, Char.ofNat_toNat] at hc
  · have hc : c.toLower = c := dif_neg hcapital
    rw [hc]

theorem SameButForCase.lower_eq {s t : String} (h : SameButForCase s t) : lower s = lower t := by
  have hlower (cs : List Char) : (cs.map Char.toLower).flatMap lowerSequence = cs.flatMap lowerSequence := by
    simp only [List.flatMap_map, lowerSequence_toLower]
  rw [lower, lower, ← hlower s.toList, h, hlower]

end Text

end SchemaInference
