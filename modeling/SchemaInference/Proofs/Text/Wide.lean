import SchemaInference.Text.Wide
import Mathlib.Data.List.Basic

set_option autoImplicit false

namespace SchemaInference

theorem toNat_lt_surrogates (c : Char) : c.toNat < 0xd800 ∨ 0xdfff < c.toNat ∧ c.toNat < 0x110000 :=
  c.valid

namespace CodePoint

theorem ofCode_code (p : CodePoint) : ofCode p.code = p := by
  cases p with
  | char c =>
    have hvalid := toNat_lt_surrogates c
    rw [code, ofCode, if_neg (by omega), Char.ofNat_toNat]
  | lone unit =>
    rw [code, ofCode, if_pos (by omega), Nat.add_sub_cancel_left, Fin.ofNat_val_eq_self]

theorem units_char_of_lt {c : Char} (h : c.toNat < 0x10000) : (char c).units = [char c] :=
  if_pos h

theorem exists_units_char_eq {c : Char} (h : 0x10000 ≤ c.toNat) :
    ∃ first second, (char c).units = [lone first, lone second] ∧ first.val < 0x400 ∧ pair? first second = some c := by
  have hvalid := toNat_lt_surrogates c
  have hfirst : (Fin.ofNat 0x800 ((c.toNat - 0x10000) / 0x400)).val = (c.toNat - 0x10000) / 0x400 :=
    Nat.mod_eq_of_lt (by omega)
  have hsecond : (Fin.ofNat 0x800 (0x400 + (c.toNat - 0x10000) % 0x400)).val = 0x400 + (c.toNat - 0x10000) % 0x400 :=
    Nat.mod_eq_of_lt (by omega)
  refine ⟨_, _, if_neg (by omega), by omega, ?_⟩
  unfold pair?
  rw [hfirst, hsecond, if_pos (by omega)]
  have hcode : 0x10000 + (c.toNat - 0x10000) / 0x400 * 0x400 + (0x400 + (c.toNat - 0x10000) % 0x400 - 0x400) = c.toNat := by
    omega
  rw [hcode, Char.ofNat_toNat]

theorem pair?_eq_none {first second : Fin 0x800} (h : second.val < 0x400) : pair? first second = none :=
  if_neg (by omega)

theorem code_lt_of_units {p : CodePoint} (h : p.units = [p]) : p.code < 0x10000 := by
  cases p with
  | lone unit =>
    rw [code]
    omega
  | char c =>
    by_contra hc
    obtain ⟨first, second, hunits, -, -⟩ := exists_units_char_eq (Nat.not_lt.mp hc)
    rw [hunits] at h
    cases h

theorem units_of_mem_units {p q : CodePoint} (h : q ∈ p.units) : q.units = [q] := by
  cases p with
  | lone unit =>
    rw [List.mem_singleton.mp h]
    rfl
  | char c =>
    by_cases hc : c.toNat < 0x10000
    · rw [units_char_of_lt hc] at h
      rw [List.mem_singleton.mp h]
      exact units_char_of_lt hc
    · obtain ⟨first, second, hunits, -, -⟩ := exists_units_char_eq (Nat.not_lt.mp hc)
      rw [hunits] at h
      rcases List.mem_cons.mp h with rfl | h
      · rfl
      · rw [List.mem_singleton.mp h]
        rfl

end CodePoint

namespace WideText

theorem units_cons (p : CodePoint) (s : WideText) : units (p :: s) = p.units ++ units s :=
  List.flatMap_cons

theorem joined_char_cons (c : Char) (s : WideText) : joined (.char c :: s) = .char c :: joined s := by
  rw [joined.eq_2]
  simp

theorem joined_lone_char (unit : Fin 0x800) (c : Char) (s : WideText) :
    joined (.lone unit :: .char c :: s) = .lone unit :: joined (.char c :: s) := by
  rw [joined.eq_2]
  simp

theorem joined_pair {first second : Fin 0x800} {c : Char} (h : CodePoint.pair? first second = some c) (s : WideText) :
    joined (.lone first :: .lone second :: s) = .char c :: joined s := by
  rw [joined.eq_1, h]

theorem joined_apart {first second : Fin 0x800} (h : CodePoint.pair? first second = none) (s : WideText) :
    joined (.lone first :: .lone second :: s) = .lone first :: joined (.lone second :: s) := by
  rw [joined.eq_1, h]

theorem joined_lone_units (unit : Fin 0x800) (c : Char) (s : WideText) :
    joined (.lone unit :: (CodePoint.units (.char c) ++ s)) = .lone unit :: joined (CodePoint.units (.char c) ++ s) := by
  by_cases hc : c.toNat < 0x10000
  · rw [CodePoint.units_char_of_lt hc]
    exact joined_lone_char unit c s
  · obtain ⟨first, second, hunits, hfirst, -⟩ := CodePoint.exists_units_char_eq (Nat.not_lt.mp hc)
    rw [hunits]
    exact joined_apart (CodePoint.pair?_eq_none hfirst) _

theorem joined_char_units (c : Char) (s : WideText) :
    joined (CodePoint.units (.char c) ++ s) = .char c :: joined s := by
  by_cases hc : c.toNat < 0x10000
  · rw [CodePoint.units_char_of_lt hc]
    exact joined_char_cons c s
  · obtain ⟨first, second, hunits, -, hpair⟩ := CodePoint.exists_units_char_eq (Nat.not_lt.mp hc)
    rw [hunits]
    exact joined_pair hpair s

/-- The halves of a character come together again, and so do no others than those that stood side by side. -/
theorem joined_units (s : WideText) : joined (units s) = joined s := by
  induction s using joined.induct with
  | case1 first second rest c hpair ih =>
    rw [joined_pair hpair, ← ih]
    exact joined_pair hpair _
  | case2 first second rest hpair ih =>
    rw [joined_apart hpair, ← ih]
    exact joined_apart hpair _
  | case3 p rest hno ih =>
    cases p with
    | char c => rw [units_cons, joined_char_units, ih, joined_char_cons]
    | lone unit =>
      cases rest with
      | nil => rfl
      | cons q rest =>
        cases q with
        | lone second => exact absurd rfl (hno unit second rest rfl)
        | char c =>
          rw [units_cons, units_cons] at *
          rw [joined_lone_char, ← ih]
          exact joined_lone_units unit c _
  | case4 => rfl

/-- Where no two halves stand side by side that make a character, the units tell the text. -/
theorem eq_of_units_eq {s t : WideText} (hs : s.joined = s) (ht : t.joined = t) (h : s.units = t.units) : s = t := by
  rw [← hs, ← ht, ← joined_units s, ← joined_units t, h]

theorem joined_ofString (s : String) : joined (ofString s) = ofString s := by
  have hchars (cs : List Char) : joined (cs.map CodePoint.char) = cs.map CodePoint.char := by
    induction cs with
    | nil => rfl
    | cons c cs ih => rw [List.map_cons, joined_char_cons, ih]
  exact hchars s.toList

theorem shown_ofString (s : String) : shown (ofString s) = s := by
  rw [shown, ofString, List.map_map]
  exact (congrArg String.ofList (List.map_id _)).trans String.ofList_toList

theorem ofString_inj {s t : String} (h : ofString s = ofString t) : s = t :=
  String.toList_inj.mp (List.map_injective_iff.mpr (fun _ _ => CodePoint.char.inj) h)

theorem ofString_inj_of_units {s t : String} (h : units (ofString s) = units (ofString t)) : s = t :=
  ofString_inj (eq_of_units_eq (joined_ofString s) (joined_ofString t) h)

theorem units_of_mem {s : WideText} {q : CodePoint} (h : q ∈ s.units) : q.units = [q] := by
  obtain ⟨p, -, hp⟩ := List.mem_flatMap.mp h
  exact CodePoint.units_of_mem_units hp

theorem units_units (s : WideText) : s.units.units = s.units :=
  (List.flatMap_congr fun _ => units_of_mem).trans (List.flatMap_singleton' _)

end WideText

end SchemaInference
