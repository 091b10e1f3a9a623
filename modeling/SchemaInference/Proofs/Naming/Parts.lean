import SchemaInference.Proofs.Naming.Resemblance

set_option autoImplicit false

namespace SchemaInference

namespace Text

theorem isUpper_iff_toNat {c : Char} : c.isUpper = true ↔ 65 ≤ c.toNat ∧ c.toNat ≤ 90 := by
  change decide (c.val ≥ 'A'.val ∧ c.val ≤ 'Z'.val) = true ↔ _
  rw [decide_eq_true_iff, ge_iff_le, UInt32.le_iff_toNat_le, UInt32.le_iff_toNat_le]
  rfl

theorem isLower_iff_toNat {c : Char} : c.isLower = true ↔ 97 ≤ c.toNat ∧ c.toNat ≤ 122 := by
  change (decide (c.val ≥ 'a'.val) && decide (c.val ≤ 'z'.val)) = true ↔ _
  rw [Bool.and_eq_true, decide_eq_true_iff, decide_eq_true_iff, ge_iff_le, UInt32.le_iff_toNat_le,
    UInt32.le_iff_toNat_le]
  rfl

theorem toNat_ofNat_of_isValidChar {n : Nat} (h : n.isValidChar) : (Char.ofNat n).toNat = n := by
  have hofNat : Char.ofNat n = Char.ofNatAux n h := dif_pos h
  rw [hofNat]
  rfl

/-- The code of a capital of the alphabet, or of a character beyond ASCII. -/
def IsRaised (code : Int) : Prop :=
  65 ≤ code ∧ code ≤ 90 ∨ 128 ≤ code ∧ code < 0xd800 ∨ 0xe000 ≤ code ∧ code < 0x110000

instance (code : Int) : Decidable (IsRaised code) :=
  inferInstanceAs (Decidable (_ ∨ _ ∨ _))

theorem IsRaised.of_ofNat {code : Int} (h : IsRaised code) :
    (Char.ofNat code.toNat).isUpper = true ∨ 128 ≤ (Char.ofNat code.toNat).toNat := by
  have hvalid : code.toNat.isValidChar := by
    unfold IsRaised at h
    unfold Nat.isValidChar
    omega
  rw [isUpper_iff_toNat, toNat_ofNat_of_isValidChar hvalid]
  unfold IsRaised at h
  omega

theorem isRaised_of_covers : ∀ run ∈ upperRuns, ∀ code : Nat, run.covers code = true →
    IsRaised (code + run.distance) := by
  have hends : ∀ run ∈ upperRuns, 65 ≤ run.first + run.distance ∧ run.last + run.distance ≤ 90 ∨
      128 ≤ run.first + run.distance ∧ run.last + run.distance < 0xd800 ∨
      0xe000 ≤ run.first + run.distance ∧ run.last + run.distance < 0x110000 := by
    decide +kernel
  intro run hrun code hcovers
  simp only [CaseRun.covers, Bool.and_eq_true, decide_eq_true_eq] at hcovers
  have hrun := hends run hrun
  unfold IsRaised
  omega

theorem eq_of_mem_upperSequence {x c : Char} (hascii : x.toNat < 128) (hupper : x.isUpper = false)
    (h : x ∈ upperSequence c) : x = c ∧ x.isLower = false := by
  have hraised : ∀ code : Int, IsRaised code → x ≠ Char.ofNat code.toNat := by
    rintro code hcode rfl
    obtain hcapital | hbeyond := hcode.of_ofNat
    · simp [hcapital] at hupper
    · omega
  have hsequences : ∀ entry ∈ upperSequences, ∀ code ∈ entry.2, IsRaised (code : Nat) := by decide +kernel
  unfold upperSequence at h
  split at h
  · rename_i codes hcodes
    obtain ⟨before, after, hsplit, -⟩ := List.lookup_eq_some_iff.mp hcodes
    obtain ⟨code, hcode, rfl⟩ := List.mem_map.mp h
    exact absurd rfl (hraised code (hsequences (c.toNat, codes) (by simp [hsplit]) code hcode))
  · have h := List.mem_singleton.mp h
    unfold shifted at h
    split at h
    · rename_i run hrun
      have hcovers : run.covers c.toNat = true := List.find?_some (p := (CaseRun.covers · c.toNat)) hrun
      exact absurd h (hraised _ (isRaised_of_covers run (List.mem_of_find?_eq_some hrun) c.toNat hcovers))
    · rename_i hnone
      obtain rfl : x = c := h.trans (Char.ofNat_toNat c)
      refine ⟨rfl, ?_⟩
      -- A small letter of the alphabet is in the first run.
      rw [← Bool.not_eq_true, isLower_iff_toNat]
      intro hlower
      have hfirst := List.find?_eq_none.mp hnone ⟨97, 122, 1, -32⟩ List.mem_cons_self
      simp only [CaseRun.covers, Nat.mod_one, beq_self_eq_true, Bool.and_true, Bool.and_eq_true,
        decide_eq_true_eq] at hfirst
      exact hfirst hlower

end Text

namespace Word

variable {word : String} {x : Char}

theorem mem_of_mem_capitalize (hascii : x.toNat < 128) (hupper : x.isUpper = false)
    (h : x ∈ (capitalize word).toList) : x ∈ word.toList := by
  unfold capitalize at h
  split at h
  · simp at h
  · rename_i c rest hword
    rw [hword, List.mem_cons]
    rw [String.toList_ofList, List.mem_append] at h
    exact h.imp_left fun hraised => (Text.eq_of_mem_upperSequence hascii hupper hraised).1

theorem mem_of_mem_singularize (h : x ∈ (singularize word).toList) : x ∈ word.toList := by
  unfold singularize at h
  split at h
  · rw [String.toList_ofList] at h
    exact List.dropLast_subset _ h
  · exact h

theorem mem_of_mem_initials (h : x ∈ (initials word).toList) : x ∈ word.toList := by
  unfold initials at h
  dsimp only at h
  split at h
  · rw [String.toList_ofList] at h
    exact List.mem_of_mem_take h
  · rw [String.toList_ofList] at h
    exact List.mem_of_mem_filter h

theorem mem_of_mem_abbreviate (h : x ∈ (abbreviate word).toList) : x ∈ word.toList := by
  unfold abbreviate at h
  split at h
  · simp at h
  · rename_i first rest hword
    dsimp only at h
    split at h
    · exact h
    · rw [hword, List.mem_cons]
      split at h
      all_goals
        rw [String.toList_ofList, List.mem_cons] at h
        refine h.imp_right fun hmem => ?_
      · exact List.mem_of_mem_take hmem
      · exact List.mem_of_mem_filter (List.mem_of_mem_take hmem)

def IsCapitalized (word : String) : Prop :=
  ∀ c ∈ word.toList.head?, c.isLower = false

-- The instance is named, since the search may find one that goes through all characters.
instance (word : String) : Decidable (IsCapitalized word) :=
  Option.decidableForallMem word.toList.head?

theorem IsCapitalized.append {next : String} (h : IsCapitalized word) (hnext : IsCapitalized next) :
    IsCapitalized (word ++ next) := by
  intro c hc
  rw [String.toList_append, List.head?_append] at hc
  cases hhead : word.toList.head? with
  | none => exact hnext c (by simpa [hhead] using hc)
  | some first => exact h c (by simpa [hhead] using hc)

theorem isCapitalized_capitalize (word : String) : IsCapitalized (capitalize word) := by
  intro c hc
  unfold capitalize at hc
  split at hc
  · cases hc
  · rename_i first rest _
    rw [String.toList_ofList, List.head?_append_of_ne_nil _ (Text.upperSequence_ne_nil first)] at hc
    by_contra hlower
    rw [Bool.not_eq_false] at hlower
    have hcode := Text.isLower_iff_toNat.mp hlower
    have hupper : c.isUpper = false := by
      rw [← Bool.not_eq_true, Text.isUpper_iff_toNat]
      omega
    have hsmall := (Text.eq_of_mem_upperSequence (by omega) hupper (List.mem_of_head? hc)).2
    rw [hlower] at hsmall
    cases hsmall

theorem IsCapitalized.abbreviate (h : IsCapitalized word) : IsCapitalized (abbreviate word) := by
  unfold IsCapitalized
  rwa [head?_abbreviate]

end Word

namespace NamingStrategy

variable {strategy : NamingStrategy}

/-- What a built-in strategy keeps of the parent's name. -/
def keptPart (strategy : NamingStrategy) (parent : String) (depth : Nat) (isArray : Bool) : String :=
  match strategy with
  | hierarchical => parent
  | flat => if isArray && decide (2 < depth) then Word.initials parent else ""
  | short =>
    if 3 < depth then Word.abbreviate parent
    else if 1 < depth then Word.initials parent
    else parent
  | template _ => ""

/-- What a built-in strategy adds for the field. -/
def ownPart (strategy : NamingStrategy) (field : String) (depth : Nat) (isArray : Bool) : String :=
  let word := Word.capitalize (if isArray then Word.singularize field else field)
  match strategy with
  | short => if 3 < depth then Word.abbreviate word else word
  | _ => word

theorem generate_eq_append (hbuiltin : ∀ t, strategy ≠ template t) (parent field : String) (depth : Nat)
    (isArray : Bool) : strategy.generate parent field depth isArray =
      strategy.keptPart parent depth isArray ++ strategy.ownPart field depth isArray := by
  cases strategy with
  | hierarchical => rfl
  | flat =>
    simp only [generate, typeName, keptPart, ownPart]
    split <;> simp
  | short =>
    simp only [generate, typeName, keptPart, ownPart]
    split
    · rfl
    · split <;> rfl
  | template t => exact absurd rfl (hbuiltin t)

theorem isCapitalized_ownPart (strategy : NamingStrategy) (field : String) (depth : Nat) (isArray : Bool) :
    Word.IsCapitalized (strategy.ownPart field depth isArray) := by
  have hword := Word.isCapitalized_capitalize (if isArray then Word.singularize field else field)
  cases strategy with
  | hierarchical | flat | template => exact hword
  | short =>
    unfold ownPart
    dsimp only
    split
    · exact hword.abbreviate
    · exact hword

theorem mem_of_mem_keptPart {parent : String} {depth : Nat} {isArray : Bool} {x : Char}
    (h : x ∈ (strategy.keptPart parent depth isArray).toList) : x ∈ parent.toList := by
  cases strategy with
  | hierarchical => exact h
  | flat =>
    unfold keptPart at h
    dsimp only at h
    split at h
    · exact Word.mem_of_mem_initials h
    · simp at h
  | short =>
    unfold keptPart at h
    dsimp only at h
    split at h
    · exact Word.mem_of_mem_abbreviate h
    · split at h
      · exact Word.mem_of_mem_initials h
      · exact h
  | template => simp [keptPart] at h

theorem mem_of_mem_ownPart {field : String} {depth : Nat} {isArray : Bool} {x : Char} (hascii : x.toNat < 128)
    (hupper : x.isUpper = false) (h : x ∈ (strategy.ownPart field depth isArray).toList) : x ∈ field.toList := by
  have hfield : x ∈ (Word.capitalize (if isArray then Word.singularize field else field)).toList →
      x ∈ field.toList := by
    intro hword
    have hmem := Word.mem_of_mem_capitalize hascii hupper hword
    split at hmem
    · exact Word.mem_of_mem_singularize hmem
    · exact hmem
  cases strategy with
  | hierarchical | flat | template => exact hfield h
  | short =>
    unfold ownPart at h
    dsimp only at h
    split at h
    · exact hfield (Word.mem_of_mem_abbreviate h)
    · exact hfield h

end NamingStrategy

namespace NameRegistry

theorem mem_numbered {name : String} {n : Nat} {x : Char} (h : x ∈ (numbered name n).toList) :
    x ∈ name.toList ∨ x = '_' ∨ x.isDigit = true := by
  unfold numbered at h
  rw [String.toList_append, String.toList_append, List.mem_append, List.mem_append] at h
  obtain (hname | hunderscore) | hdigit := h
  · exact .inl hname
  · exact .inr (.inl (by simpa using hunderscore))
  · refine .inr (.inr ?_)
    change x ∈ n.repr.toList at hdigit
    rw [Nat.toList_repr] at hdigit
    exact Nat.isDigit_of_mem_toDigits (by decide) (by decide) hdigit

theorem underscore_mem_numbered (name : String) (n : Nat) : '_' ∈ (numbered name n).toList := by
  simp [numbered]

end NameRegistry

end SchemaInference
