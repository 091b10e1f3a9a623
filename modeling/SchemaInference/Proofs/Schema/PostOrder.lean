import SchemaInference.Proofs.Schema.Plans
import Mathlib.Data.List.Infix
import Mathlib.Data.List.Nodup

set_option autoImplicit false

namespace SchemaInference

theorem prefix_dropLast {α : Type} {short long : List α} (h : short <+: long) (hne : short ≠ long) :
    short <+: long.dropLast := by
  obtain ⟨rest, rfl⟩ := h
  have hrest : rest ≠ [] := by
    rintro rfl
    exact hne (List.append_nil short).symm
  rw [List.dropLast_append_of_ne_nil hrest]
  exact List.prefix_append short _

/-- All paths that extend a path of the list come directly before it. -/
def PostOrdered (paths : List (List String)) : Prop :=
  ∀ before path after, paths = before ++ path :: after →
    ∃ others own, before = others ++ own ∧ (∀ p ∈ own, path <+: p) ∧ ∀ p ∈ others ++ after, ¬ path <+: p

namespace PostOrdered

theorem nil : PostOrdered [] := by
  intro before path after h
  simp at h

variable {below later : List (List String)} {base : List String}

theorem append_cons (hbelow : PostOrdered below) (hlater : PostOrdered later)
    (hin : ∀ p ∈ below, base <+: p ∧ p ≠ base) (hout : ∀ p ∈ later, ¬ base <+: p ∧ ¬ p <+: base) :
    PostOrdered (below ++ base :: later) := by
  have hapart : ∀ p ∈ below, ∀ q ∈ later, ¬ p <+: q ∧ ¬ q <+: p := by
    intro p hp q hq
    constructor
    · intro hpq
      exact (hout q hq).1 ((hin p hp).1.trans hpq)
    · intro hqp
      obtain hle | hle := List.prefix_or_prefix_of_prefix (hin p hp).1 hqp
      · exact (hout q hq).1 hle
      · exact (hout q hq).2 hle
  have hnotabove : ∀ p ∈ below, ¬ p <+: base := fun p hp hpb =>
    (hin p hp).2 (hpb.eq_of_length_le (hin p hp).1.length_le)
  intro before path after h
  rw [List.append_eq_append_iff] at h
  obtain ⟨rest, rfl, h⟩ | ⟨rest, rfl, h⟩ := h
  · rw [List.cons_eq_append_iff] at h
    obtain ⟨rfl, h⟩ | ⟨rest, rfl, rfl⟩ := h
    · -- the path is the base
      obtain ⟨rfl, rfl⟩ := List.cons.inj h
      refine ⟨[], below, by simp, fun p hp => (hin p hp).1, ?_⟩
      intro p hp
      exact (hout p (by simpa using hp)).1
    · -- the path comes later
      obtain ⟨others, own, rfl, hown, hothers⟩ := hlater rest path after rfl
      have hpath : path ∈ others ++ own ++ path :: after := by simp
      refine ⟨below ++ base :: others, own, by simp, hown, ?_⟩
      intro p hp
      simp only [List.append_assoc, List.cons_append, List.mem_append, List.mem_cons] at hp
      obtain hp | rfl | hp := hp
      · exact (hapart p hp path hpath).2
      · exact (hout path hpath).2
      · exact hothers p (List.mem_append.mpr hp)
  · rw [List.cons_eq_append_iff] at h
    obtain ⟨rfl, h⟩ | ⟨rest, rfl, rfl⟩ := h
    · -- the path is the base
      obtain ⟨rfl, rfl⟩ := List.cons.inj h
      rw [List.append_nil] at hin
      refine ⟨[], before, by simp, fun p hp => (hin p hp).1, ?_⟩
      intro p hp
      exact (hout p (by simpa using hp)).1
    · -- the path lies below the base
      obtain ⟨others, own, rfl, hown, hothers⟩ := hbelow before path rest rfl
      have hpath : path ∈ others ++ own ++ path :: rest := by simp
      refine ⟨others, own, rfl, hown, ?_⟩
      intro p hp
      simp only [List.mem_append, List.mem_cons] at hp
      obtain hp | hp | rfl | hp := hp
      · exact hothers p (List.mem_append_left _ hp)
      · exact hothers p (List.mem_append_right _ hp)
      · exact hnotabove path hpath
      · exact (hapart path hpath p hp).1

end PostOrdered

theorem concat_prefix_concat {path : List String} {a b : String} : path ++ [a] <+: path ++ [b] ↔ a = b := by
  rw [List.prefix_append_right_inj]
  simp

namespace Derives

variable {r : Rounding} {s : Settings} {strategy : NamingStrategy} {parent : String} {depth : Nat}
  {path : List String} {fields nested rest : FieldMap} {names after : NameRegistry} {plans : List NestedPlan}

theorem strictly_below {key : String}
    (h : Derives r s strategy parent depth (path ++ [key]) nested names plans after) :
    ∀ p ∈ plans.map (·.path), path ++ [key] <+: p ∧ p ≠ path ++ [key] := by
  intro p hp
  obtain ⟨plan, hplan, rfl⟩ := List.mem_map.mp hp
  obtain ⟨next, -, hnext⟩ := h.exists_mem_names hplan
  refine ⟨(List.prefix_append _ _).trans hnext, fun heq => ?_⟩
  have hlength := hnext.length_le
  rw [heq, List.length_append, List.length_singleton] at hlength
  omega

theorem apart {key : String} (h : Derives r s strategy parent depth path rest names plans after)
    (hkey : key ∉ rest.names) : ∀ p ∈ plans.map (·.path), ¬ path ++ [key] <+: p ∧ ¬ p <+: path ++ [key] := by
  intro p hp
  obtain ⟨plan, hplan, rfl⟩ := List.mem_map.mp hp
  obtain ⟨other, hother, hpath⟩ := h.exists_mem_names hplan
  have hne : key ≠ other := fun heq => hkey (heq ▸ hother)
  constructor
  · intro hkeyed
    obtain hle | hle := List.prefix_or_prefix_of_prefix hkeyed hpath
    · exact hne (concat_prefix_concat.mp hle)
    · exact hne (concat_prefix_concat.mp hle).symm
  · intro hle
    exact hne (concat_prefix_concat.mp (hpath.trans hle)).symm

theorem postOrdered (h : Derives r s strategy parent depth path fields names plans after)
    (hfields : fields.Distinct) : PostOrdered (plans.map (·.path)) := by
  induction h with
  | exhausted => exact .nil
  | capped => exact .nil
  | skipped _ _ _ ih => exact ih hfields.2.2
  | promoted _ _ _ hbelow hlater ihbelow ihlater =>
    rw [List.map_append, List.map_cons]
    exact (ihbelow hfields.2.1).append_cons (ihlater hfields.2.2) hbelow.strictly_below
      (hlater.apart hfields.1)

theorem paths_nodup (h : Derives r s strategy parent depth path fields names plans after)
    (hfields : fields.Distinct) : (plans.map (·.path)).Nodup := by
  induction h with
  | exhausted => exact List.nodup_nil
  | capped => exact List.nodup_nil
  | skipped _ _ _ ih => exact ih hfields.2.2
  | promoted _ _ _ hbelow hlater ihbelow ihlater =>
    have hin := hbelow.strictly_below
    have hout := hlater.apart hfields.1
    rw [List.map_append, List.map_cons, List.nodup_append, List.nodup_cons]
    refine ⟨ihbelow hfields.2.1, ⟨?_, ihlater hfields.2.2⟩, ?_⟩
    · intro hmem
      exact (hout _ hmem).1 List.prefix_rfl
    · intro p hp q hq heq
      subst heq
      obtain rfl | hq := List.mem_cons.mp hq
      · exact (hin _ hp).2 rfl
      · exact (hout p hq).1 (hin p hp).1

end Derives

end SchemaInference
