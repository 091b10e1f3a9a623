import SchemaInference.Proofs.Naming.Registry
import Mathlib.Order.Bounds.Defs

set_option autoImplicit false

namespace SchemaInference

namespace NameRegistry

/-- What a name gets when some names are taken: itself if it is free, and else the least number from two on
that makes it free. -/
inductive Answers (taken : Set String) (name : String) : String → Prop
  | unchanged (hfree : name ∉ taken) : Answers taken name name
  | repeated {k : Nat} (htaken : name ∈ taken)
    (hleast : IsLeast {k | 2 ≤ k ∧ numbered name k ∉ taken} k) : Answers taken name (numbered name k)

inductive SearchEnds (r : NameRegistry) (name : String) : Nat → Nat → Prop
  | free {n : Nat} (hfree : numbered name n ∉ r.names) : SearchEnds r name n n
  | taken {n k : Nat} (htaken : numbered name n ∈ r.names) (hnext : SearchEnds r name (n + 1) k) :
    SearchEnds r name n k

variable {r : NameRegistry} {name : String}

theorem searchEnds_firstFree_of_free {fuel n : Nat} (hfree : numbered name (r.firstFree name fuel n) ∉ r.names) :
    r.SearchEnds name n (r.firstFree name fuel n) := by
  induction fuel generalizing n with
  | zero => exact .free hfree
  | succ fuel ih =>
    unfold firstFree at hfree ⊢
    split at hfree
    · rename_i htaken
      rw [if_pos htaken]
      exact .taken ((r.contains_iff _).mp htaken) (ih hfree)
    · rename_i htaken
      rw [if_neg htaken]
      exact .free hfree

/-- The search of the registry never comes to its bound. -/
theorem searchEnds_firstFree (r : NameRegistry) (name : String) (n : Nat) :
    r.SearchEnds name n (r.firstFree name (r.counts.length + 1) n) :=
  searchEnds_firstFree_of_free (r.firstFree_free name n)

theorem SearchEnds.isLeast {n k : Nat} (h : r.SearchEnds name n k) :
    IsLeast {k | n ≤ k ∧ numbered name k ∉ r.names} k := by
  induction h with
  | free hfree => exact ⟨⟨Nat.le_refl _, hfree⟩, fun i hi => hi.1⟩
  | @taken n k htaken _ ih =>
    refine ⟨⟨Nat.le_of_succ_le ih.1.1, ih.1.2⟩, fun i hi => ih.2 ⟨?_, hi.2⟩⟩
    refine Nat.lt_of_le_of_ne hi.1 fun heq => ?_
    exact hi.2 (heq ▸ htaken)

theorem count?_setCount (r : NameRegistry) (name key : String) (n : Nat) :
    (r.setCount name n).count? key = if key = name then (r.count? key).map fun _ => n else r.count? key := by
  simp only [count?, setCount]
  induction r.counts with
  | nil => simp
  | cons entry rest ih =>
    rw [List.map_cons, List.lookup_cons, List.lookup_cons, ih]
    by_cases hkey : key = name
    · subst hkey
      by_cases hentry : entry.1 = key
      · simp [hentry]
      · have hne : (key == entry.1) = false := beq_eq_false_iff_ne.mpr (Ne.symm hentry)
        simp [hentry, hne]
    · have hne : (key == name) = false := beq_eq_false_iff_ne.mpr hkey
      by_cases hentry : entry.1 = name
      · simp [hentry, hkey, hne]
      · simp [hentry, hkey]

theorem count?_of_count?_add {key : String} {last : Nat} (h : (r.add name).count? key = some last) :
    r.count? key = some last ∨ last = 1 := by
  rw [count?, add, List.lookup_append, Option.or_eq_some_iff] at h
  obtain h | ⟨-, h⟩ := h
  · exact .inl h
  · rw [List.lookup_cons] at h
    split at h
    · exact .inr (Option.some.inj h).symm
    · cases h

/-- Numbers start with one, and all from two to the one that a name got last are taken. -/
structure Gapless (r : NameRegistry) : Prop where
  pos : ∀ name last, r.count? name = some last → 1 ≤ last
  taken : ∀ name last, r.count? name = some last → ∀ i, 2 ≤ i → i ≤ last → numbered name i ∈ r.names

theorem gapless_empty : empty.Gapless where
  pos _ _ h := by cases h
  taken _ _ h := by cases h

theorem Gapless.add (h : r.Gapless) (name : String) : (r.add name).Gapless where
  pos key last hlast := by
    obtain hold | rfl := count?_of_count?_add hlast
    · exact h.pos key last hold
    · exact Nat.le_refl 1
  taken key last hlast i htwo hi := by
    obtain hold | rfl := count?_of_count?_add hlast
    · rw [names_add]
      exact List.mem_append_left _ (h.taken key last hold i htwo hi)
    · omega

theorem Gapless.number (h : r.Gapless) {last n : Nat} (hlast : r.count? name = some last)
    (hn : r.SearchEnds name (last + 1) n) : ((r.setCount name n).add (numbered name n)).Gapless := by
  have hcount : ∀ key count, ((r.setCount name n).add (numbered name n)).count? key = some count →
      (key = name ∧ count = n) ∨ r.count? key = some count ∨ count = 1 := by
    intro key count hcount
    obtain hset | hone := count?_of_count?_add hcount
    · rw [count?_setCount] at hset
      split at hset
      · rename_i hkey
        obtain ⟨_, -, hn⟩ := Option.map_eq_some_iff.mp hset
        exact .inl ⟨hkey, hn.symm⟩
      · exact .inr (.inl hset)
    · exact .inr (.inr hone)
  constructor
  · intro key count hkey
    obtain ⟨-, rfl⟩ | hold | rfl := hcount key count hkey
    · exact Nat.le_trans (Nat.le_add_left 1 last) hn.isLeast.1.1
    · exact h.pos key count hold
    · exact Nat.le_refl 1
  · intro key count hkey i htwo hi
    rw [names_add, names_setCount, List.mem_append, List.mem_singleton]
    obtain ⟨rfl, rfl⟩ | hold | rfl := hcount key count hkey
    · by_contra hfree
      rw [not_or] at hfree
      have hpassed : last < i := by
        by_contra hle
        exact hfree.1 (h.taken key last hlast i htwo (Nat.not_lt.mp hle))
      have hend : count ≤ i := hn.isLeast.2 ⟨hpassed, hfree.1⟩
      exact hfree.2 (congrArg (numbered key) (Nat.le_antisymm hi hend))
    · exact .inl (h.taken key count hold i htwo hi)
    · omega

theorem register_of_count? {last : Nat} (hlast : r.count? name = some last) :
    r.register name = (numbered name (r.firstFree name (r.counts.length + 1) (last + 1)),
      (r.setCount name (r.firstFree name (r.counts.length + 1) (last + 1))).add
        (numbered name (r.firstFree name (r.counts.length + 1) (last + 1)))) := by
  rw [register, hlast]

theorem Gapless.register (h : r.Gapless) (name : String) : (r.register name).2.Gapless := by
  cases hlast : r.count? name with
  | none =>
    rw [NameRegistry.register, hlast]
    exact h.add name
  | some last =>
    rw [register_of_count? hlast]
    exact h.number hlast (searchEnds_firstFree r name (last + 1))

theorem Gapless.register_answers (h : r.Gapless) (name : String) :
    Answers {text | text ∈ r.names} name (r.register name).1 := by
  cases hlast : r.count? name with
  | none =>
    rw [NameRegistry.register, hlast]
    exact .unchanged ((r.count?_eq_none_iff name).mp hlast)
  | some last =>
    rw [register_of_count? hlast]
    have htaken : name ∈ r.names := by
      by_contra hnot
      rw [(r.count?_eq_none_iff name).mpr hnot] at hlast
      cases hlast
    obtain ⟨⟨hle, hfree⟩, hleast⟩ := (searchEnds_firstFree r name (last + 1)).isLeast
    have hpos := h.pos name last hlast
    refine .repeated htaken ⟨⟨by omega, hfree⟩, fun i hi => hleast ⟨?_, hi.2⟩⟩
    -- A free number from two on lies behind the one used last.
    by_contra hle
    exact hi.2 (h.taken name last hlast i hi.1 (Nat.not_lt.mp hle))

def registerAll : List String → NameRegistry → List String × NameRegistry
  | [], r => ([], r)
  | name :: rest, r =>
    let (given, next) := r.register name
    let (later, last) := registerAll rest next
    (given :: later, last)

theorem registerAll_append (before after : List String) (r : NameRegistry) :
    registerAll (before ++ after) r =
      ((registerAll before r).1 ++ (registerAll after (registerAll before r).2).1,
        (registerAll after (registerAll before r).2).2) := by
  induction before generalizing r with
  | nil => rfl
  | cons name before ih => simp only [List.cons_append, registerAll, ih]

theorem names_registerAll (requests : List String) (r : NameRegistry) :
    (registerAll requests r).2.names = r.names ++ (registerAll requests r).1 := by
  induction requests generalizing r with
  | nil => exact (List.append_nil r.names).symm
  | cons name rest ih => simp only [registerAll, ih, names_register, List.append_assoc, List.singleton_append]

theorem Gapless.registerAll (h : r.Gapless) (requests : List String) :
    (registerAll requests r).2.Gapless := by
  induction requests generalizing r with
  | nil => exact h
  | cons name rest ih => exact ih (h.register name)

theorem nodup_registerAll (hr : r.names.Nodup) (requests : List String) :
    (registerAll requests r).2.names.Nodup := by
  induction requests generalizing r with
  | nil => exact hr
  | cons name rest ih => exact ih (r.nodup_register hr name)

theorem length_registerAll (requests : List String) (r : NameRegistry) :
    (registerAll requests r).1.length = requests.length := by
  induction requests generalizing r with
  | nil => rfl
  | cons name rest ih => exact congrArg (· + 1) (ih _)

/-- The names handed out are different, and are those that the registry knows.  Every request, at any time,
gets what the names handed out before it leave; a search that it takes ends by itself. -/
theorem registerAll_answers (requests : List String) :
    (registerAll requests empty).1.length = requests.length ∧ (registerAll requests empty).1.Nodup ∧
      (∀ before name after, requests = before ++ name :: after →
        ∃ text later, (registerAll requests empty).1 = (registerAll before empty).1 ++ text :: later ∧
          Answers {t | t ∈ (registerAll before empty).1} name text ∧
          ∀ last, (registerAll before empty).2.count? name = some last →
            ∃ k, (registerAll before empty).2.SearchEnds name (last + 1) k ∧ text = numbered name k) ∧
      ∀ name, (registerAll requests empty).2.contains name = true ↔ name ∈ (registerAll requests empty).1 := by
  have hnames : ∀ requests, (registerAll requests empty).2.names = (registerAll requests empty).1 := by
    intro requests
    rw [names_registerAll, names_empty, List.nil_append]
  refine ⟨length_registerAll requests empty, ?_, ?_, ?_⟩
  · have hempty : empty.names.Nodup := List.nodup_nil
    rw [← hnames]
    exact nodup_registerAll hempty requests
  · rintro before name after rfl
    refine ⟨_, _, congrArg Prod.fst (registerAll_append before (name :: after) empty), ?_, ?_⟩
    · rw [← hnames]
      exact (gapless_empty.registerAll before).register_answers name
    · intro last hlast
      exact ⟨_, searchEnds_firstFree _ name (last + 1), congrArg Prod.fst (register_of_count? hlast)⟩
  · intro name
    rw [contains_iff, hnames]

example : (registerAll ["Box", "Box_2", "Box", "Box_2"] empty).1 = ["Box", "Box_2", "Box_3", "Box_2_2"] := by
  decide +kernel

end NameRegistry

end SchemaInference
