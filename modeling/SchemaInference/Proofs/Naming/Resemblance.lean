import SchemaInference.Proofs.Naming.Registry
import SchemaInference.Naming.Strategy

/-!
# Names that resemble one another

The name of a nested type depends on its parent's name, and that on the order in which names were handed
out.  But a repeated name differs only in a number at its end, and of the parent's name a built-in strategy
keeps the first character, and above the depth where it abbreviates also the capitals.  So two names that a
place may get always begin with the same character, and none is empty where the field's is not.
-/

set_option autoImplicit false

namespace SchemaInference

theorem Text.upperSequence_ne_nil (c : Char) : upperSequence c ≠ [] := by
  have hsequences : ∀ entry ∈ upperSequences, entry.2 ≠ [] := by decide
  unfold upperSequence
  split
  · rename_i codes hcodes
    obtain ⟨before, after, hsplit, -⟩ := List.lookup_eq_some_iff.mp hcodes
    simpa using hsequences (c.toNat, codes) (by simp [hsplit])
  · simp

namespace Word

def capitals (name : String) : List Char :=
  name.toList.filter Char.isUpper

theorem head?_eq_none_iff {word : String} : word.toList.head? = none ↔ word = "" := by
  rw [List.head?_eq_none_iff, String.toList_eq_nil_iff]

theorem capitalize_ne_empty {word : String} (h : word ≠ "") : capitalize word ≠ "" := by
  unfold capitalize
  split
  · rename_i hnil
    exact absurd (String.toList_eq_nil_iff.mp hnil) h
  · rename_i c rest _
    simp [← String.toList_eq_nil_iff, Text.upperSequence_ne_nil c]

theorem singularize_ne_empty {word : String} (h : word ≠ "") : singularize word ≠ "" := by
  unfold singularize
  split
  · rename_i hplural
    simp only [looksPlural, Bool.and_eq_true, decide_eq_true_eq] at hplural
    have hlength : 2 < word.toList.length := hplural.1.1
    intro hempty
    have hnil := congrArg List.length (String.toList_eq_nil_iff.mpr hempty)
    rw [String.toList_ofList, List.length_dropLast] at hnil
    simp only [List.length_nil] at hnil
    omega
  · exact h

theorem head?_abbreviate (word : String) : (abbreviate word).toList.head? = word.toList.head? := by
  unfold abbreviate
  split
  · rename_i hnil
    rw [hnil]
    rfl
  · rename_i first rest hword
    dsimp only
    split
    · rw [hword]
    · split <;> simp [hword]

theorem abbreviate_ne_empty {word : String} (h : word ≠ "") : abbreviate word ≠ "" := by
  rw [ne_eq, ← head?_eq_none_iff, head?_abbreviate, head?_eq_none_iff]
  exact h

theorem initials_ne_empty {name : String} (h : name ≠ "") : initials name ≠ "" := by
  have hcs : name.toList ≠ [] := by rwa [ne_eq, String.toList_eq_nil_iff]
  unfold initials
  dsimp only
  split
  · simp [← String.toList_eq_nil_iff, hcs]
  · rename_i hcapitals
    simpa [← String.toList_eq_nil_iff] using hcapitals

theorem initials_eq {name name' : String} (hhead : name.toList.head? = name'.toList.head?)
    (hcapitals : capitals name = capitals name') : initials name = initials name' := by
  have htake : name.toList.take 1 = name'.toList.take 1 := by
    rw [List.take_one, List.take_one, hhead]
  unfold capitals at hcapitals
  simp only [initials, hcapitals, htake]

end Word

namespace NamingStrategy

def Abbreviates : NamingStrategy → Nat → Prop
  | short, depth => 3 < depth
  | _, _ => False

/-- Two names of types of the same depth that begin alike and have the same capitals, as far as the
strategy looks at these. -/
structure Resembles (strategy : NamingStrategy) (depth : Nat) (name name' : String) : Prop where
  head : name.toList.head? = name'.toList.head?
  capitals : ¬ strategy.Abbreviates depth → Word.capitals name = Word.capitals name'

variable {strategy : NamingStrategy} {depth : Nat} {name name' parent parent' field : String}

theorem Resembles.refl (strategy : NamingStrategy) (depth : Nat) (name : String) :
    strategy.Resembles depth name name :=
  ⟨rfl, fun _ => rfl⟩

theorem Resembles.initials_eq (h : strategy.Resembles depth name name') (hfull : ¬ strategy.Abbreviates depth) :
    Word.initials name = Word.initials name' :=
  Word.initials_eq h.head (h.capitals hfull)

theorem Resembles.append (h : strategy.Resembles depth name name') (hfull : ¬ strategy.Abbreviates depth)
    (word : String) (deeper : Nat) : strategy.Resembles deeper (name ++ word) (name' ++ word) where
  head := by rw [String.toList_append, String.toList_append, List.head?_append, List.head?_append, h.head]
  capitals _ := by
    have hcapitals := h.capitals hfull
    unfold Word.capitals at hcapitals ⊢
    rw [String.toList_append, String.toList_append, List.filter_append, List.filter_append, hcapitals]

theorem Resembles.ne_empty (h : strategy.Resembles depth name name') (hname : name ≠ "") : name' ≠ "" := by
  rwa [ne_eq, ← Word.head?_eq_none_iff, ← h.head, Word.head?_eq_none_iff]

theorem append_ne_empty {word : String} (h : word ≠ "") (name : String) : name ++ word ≠ "" := by
  rw [ne_eq, String.append_eq_empty_iff]
  exact fun hempty => h hempty.2

theorem typeName_ne_empty (hbuiltin : ∀ t, strategy ≠ template t) (hfield : field ≠ "") (parent : String)
    (depth : Nat) (isArray : Bool) : strategy.typeName parent field depth isArray ≠ "" := by
  have hcapital := Word.capitalize_ne_empty hfield
  cases strategy with
  | hierarchical => exact append_ne_empty hcapital _
  | flat =>
    unfold typeName
    dsimp only
    split
    · exact append_ne_empty hcapital _
    · exact hcapital
  | short =>
    unfold typeName
    dsimp only
    split
    · exact append_ne_empty (Word.abbreviate_ne_empty hcapital) _
    · split <;> exact append_ne_empty hcapital _
  | template t => exact absurd rfl (hbuiltin t)

def KeepsParent (strategy : NamingStrategy) : Prop :=
  strategy = hierarchical ∨ strategy = short

theorem KeepsParent.generate_ne_empty (h : strategy.KeepsParent) (hparent : parent ≠ "") (field : String)
    (depth : Nat) (isArray : Bool) : strategy.generate parent field depth isArray ≠ "" := by
  have happend : ∀ {word : String} (more : String), word ≠ "" → word ++ more ≠ "" := by
    intro word more hword hempty
    exact hword (String.append_eq_empty_iff.mp hempty).1
  obtain rfl | rfl := h
  · exact happend _ hparent
  · simp only [generate, typeName]
    split
    · exact happend _ (Word.abbreviate_ne_empty hparent)
    · split
      · exact happend _ (Word.initials_ne_empty hparent)
      · exact happend _ hparent

theorem typeName_resembles (hbuiltin : ∀ t, strategy ≠ template t) (h : strategy.Resembles depth parent parent')
    (field : String) (isArray : Bool) : strategy.Resembles (depth + 1)
      (strategy.typeName parent field (depth + 1) isArray) (strategy.typeName parent' field (depth + 1) isArray) := by
  cases strategy with
  | hierarchical => exact h.append id _ _
  | flat =>
    simp only [typeName, h.initials_eq id]
    exact .refl _ _ _
  | short =>
    unfold typeName
    dsimp only
    split
    · rename_i hdeep
      refine ⟨?_, fun hfull => absurd hdeep hfull⟩
      rw [String.toList_append, String.toList_append, List.head?_append, List.head?_append,
        Word.head?_abbreviate parent, Word.head?_abbreviate parent', h.head]
    · rename_i hshallow
      have hfull : ¬ short.Abbreviates depth := fun hdeep => hshallow (Nat.lt_succ_of_lt hdeep)
      split
      · rw [h.initials_eq hfull]
        exact .refl _ _ _
      · exact h.append hfull _ _
  | template t => exact absurd rfl (hbuiltin t)

theorem generate_ne_empty (hbuiltin : ∀ t, strategy ≠ template t) (hfield : field ≠ "") (parent : String)
    (depth : Nat) (isArray : Bool) : strategy.generate parent field depth isArray ≠ "" := by
  have hword : (if isArray then Word.singularize field else field) ≠ "" := by
    split
    · exact Word.singularize_ne_empty hfield
    · exact hfield
  have hname := typeName_ne_empty hbuiltin hword parent depth isArray
  cases strategy with
  | hierarchical | flat | short => exact hname
  | template t => exact absurd rfl (hbuiltin t)

theorem generate_resembles (hbuiltin : ∀ t, strategy ≠ template t) (h : strategy.Resembles depth parent parent')
    (field : String) (isArray : Bool) : strategy.Resembles (depth + 1)
      (strategy.generate parent field (depth + 1) isArray) (strategy.generate parent' field (depth + 1) isArray) := by
  have hname := typeName_resembles hbuiltin h (if isArray then Word.singularize field else field) isArray
  cases strategy with
  | hierarchical | flat | short => exact hname
  | template t => exact absurd rfl (hbuiltin t)

end NamingStrategy

namespace NameRegistry

theorem isUpper_of_isDigit {c : Char} (h : c.isDigit = true) : c.isUpper = false := by
  cases hupper : c.isUpper with
  | false => rfl
  | true =>
    obtain ⟨-, hdigit⟩ := Bool.and_eq_true_iff.mp h
    obtain ⟨hletter, -⟩ : c.val ≥ 'A'.val ∧ c.val ≤ 'Z'.val := of_decide_eq_true hupper
    have hle : 'A'.val ≤ '9'.val := UInt32.le_trans hletter (of_decide_eq_true hdigit)
    exact absurd hle (by decide)

theorem capitals_number (n : Nat) : Word.capitals (toString n) = [] := by
  change (n.repr.toList.filter Char.isUpper) = []
  rw [List.filter_eq_nil_iff, Nat.toList_repr]
  intro c hc
  simp [isUpper_of_isDigit (Nat.isDigit_of_mem_toDigits (by decide) (by decide) hc)]

/-- A name that is handed out is the name asked for, with an ending that holds no capital. -/
theorem exists_register_eq (r : NameRegistry) (name : String) :
    ∃ ending, (r.register name).1 = name ++ ending ∧ Word.capitals ending = [] := by
  obtain hself | ⟨-, n, hnumbered⟩ := r.register_eq_self_or_numbered name
  · exact ⟨"", by simp [hself], rfl⟩
  · refine ⟨"_" ++ toString n, hnumbered.trans String.append_assoc, ?_⟩
    have hnumber := capitals_number n
    unfold Word.capitals at hnumber ⊢
    rw [String.toList_append, List.filter_append, hnumber]
    rfl

variable {strategy : NamingStrategy} {depth : Nat} {name name' : String}

theorem register_ne_empty (r : NameRegistry) (hname : name ≠ "") : (r.register name).1 ≠ "" := by
  obtain ⟨ending, heq, -⟩ := r.exists_register_eq name
  rw [heq, ne_eq, String.append_eq_empty_iff]
  exact fun hempty => hname hempty.1

theorem register_resembles (r r' : NameRegistry) (h : strategy.Resembles depth name name') (hname : name ≠ "") :
    strategy.Resembles depth (r.register name).1 (r'.register name').1 := by
  obtain ⟨ending, heq, hending⟩ := r.exists_register_eq name
  obtain ⟨ending', heq', hending'⟩ := r'.exists_register_eq name'
  have hhead : ∀ {word : String} (ending : String), word ≠ "" →
      (word ++ ending).toList.head? = word.toList.head? := by
    intro word ending hword
    rw [String.toList_append, List.head?_append_of_ne_nil]
    rwa [ne_eq, String.toList_eq_nil_iff]
  rw [heq, heq']
  refine ⟨by rw [hhead _ hname, hhead _ (h.ne_empty hname), h.head], fun hfull => ?_⟩
  have hcapitals := h.capitals hfull
  unfold Word.capitals at hcapitals hending hending' ⊢
  rw [String.toList_append, String.toList_append, List.filter_append, List.filter_append, hending, hending',
    hcapitals]

end NameRegistry

end SchemaInference
