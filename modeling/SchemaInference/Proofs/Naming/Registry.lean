import SchemaInference.Naming.Registry
import Mathlib.Data.List.Perm.Subperm
import Mathlib.Data.List.Nodup

set_option autoImplicit false

namespace SchemaInference

namespace NameRegistry

variable (r : NameRegistry)

def names : List String :=
  r.counts.map (·.1)

theorem contains_iff (name : String) : r.contains name = true ↔ name ∈ r.names := by
  simp [contains, names]

@[simp] theorem names_empty : empty.names = [] := rfl

@[simp] theorem names_add (name : String) : (r.add name).names = r.names ++ [name] := by
  simp [add, names]

@[simp] theorem names_setCount (name : String) (n : Nat) : (r.setCount name n).names = r.names := by
  simp only [names, setCount, List.map_map]
  apply List.map_congr_left
  intro entry _
  simp only [Function.comp_apply]
  split
  · rename_i h
    exact h.symm
  · rfl

theorem count?_eq_none_iff (name : String) : r.count? name = none ↔ name ∉ r.names := by
  simp [count?, names, List.lookup_eq_none_iff]
  grind

theorem numbered_injective (name : String) : Function.Injective (numbered name) := by
  intro i j h
  have htext : i.repr = j.repr := (String.append_right_inj (name ++ "_")).mp h
  have hdigits : Nat.toDigits 10 i = Nat.toDigits 10 j := by
    rw [← Nat.toList_repr, ← Nat.toList_repr, htext]
  rw [← Nat.ofDigitChars_ten_toDigits (n := i), hdigits, Nat.ofDigitChars_ten_toDigits]

theorem firstFree_free_or_taken (name : String) (fuel n : Nat) :
    numbered name (r.firstFree name fuel n) ∉ r.names ∨ ∀ i < fuel, numbered name (n + i) ∈ r.names := by
  induction fuel generalizing n with
  | zero => right; omega
  | succ fuel ih =>
    unfold firstFree
    split
    · rename_i htaken
      rw [contains_iff] at htaken
      refine (ih (n + 1)).imp_right fun hall i hi => ?_
      cases i with
      | zero => exact htaken
      | succ i =>
        have hnext := hall i (by omega)
        rwa [Nat.add_assoc, Nat.add_comm 1 i] at hnext
    · rename_i hfree
      rw [contains_iff] at hfree
      exact .inl hfree

theorem not_all_taken (name : String) (n fuel : Nat) (hfuel : r.names.length < fuel) :
    ¬ ∀ i < fuel, numbered name (n + i) ∈ r.names := by
  intro hall
  have hnodup : ((List.range fuel).map fun i => numbered name (n + i)).Nodup := by
    refine List.nodup_range.map fun i j h => ?_
    exact Nat.add_left_cancel (numbered_injective name h)
  have hsubset : ((List.range fuel).map fun i => numbered name (n + i)) ⊆ r.names := by
    intro x hx
    obtain ⟨i, hi, rfl⟩ := List.mem_map.mp hx
    exact hall i (List.mem_range.mp hi)
  have hlength := (List.subperm_of_subset hnodup hsubset).length_le
  simp only [List.length_map, List.length_range] at hlength
  omega

theorem firstFree_free (name : String) (n : Nat) :
    numbered name (r.firstFree name (r.counts.length + 1) n) ∉ r.names := by
  refine (firstFree_free_or_taken r name _ n).resolve_right (not_all_taken r name n _ ?_)
  simp [names]

theorem register_not_mem (name : String) : (r.register name).1 ∉ r.names := by
  unfold register
  split
  · rename_i hnew
    exact (count?_eq_none_iff r name).mp hnew
  · exact firstFree_free r name _

theorem names_register (name : String) :
    (r.register name).2.names = r.names ++ [(r.register name).1] := by
  unfold register
  split <;> simp

theorem nodup_register (hr : r.names.Nodup) (name : String) : (r.register name).2.names.Nodup := by
  rw [names_register, ← List.concat_eq_append]
  exact hr.concat (register_not_mem r name)

/-- A name is handed out as it was asked for, or was known and gets a number. -/
theorem register_eq_self_or_numbered (r : NameRegistry) (name : String) :
    (r.register name).1 = name ∨ name ∈ r.names ∧ ∃ n, (r.register name).1 = numbered name n := by
  unfold register
  split
  · exact .inl rfl
  · rename_i last hlast
    refine .inr ⟨?_, _, rfl⟩
    by_contra hnew
    rw [(count?_eq_none_iff r name).mpr hnew] at hlast
    cases hlast

theorem register_empty (name : String) : empty.register name = (name, empty.add name) := rfl

end NameRegistry

end SchemaInference
