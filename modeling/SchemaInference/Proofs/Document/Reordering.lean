import SchemaInference.Field.Tag
import Mathlib.Logic.Equiv.Defs

set_option autoImplicit false

namespace SchemaInference

section Related

variable {α β γ δ : Type} {related : α → β → Prop} {a : Option α} {b : Option β}

theorem isSome_eq_of_rel (h : Option.Rel related a b) : a.isSome = b.isSome := by
  cases h <;> rfl

theorem exists_of_rel_some {x : α} (h : Option.Rel related (some x) b) : ∃ y, b = some y ∧ related x y := by
  cases h with
  | some hxy => exact ⟨_, rfl, hxy⟩

theorem rel_map {further : γ → δ → Prop} {f : α → γ} {f' : β → δ} (h : Option.Rel related a b)
    (hf : ∀ x y, related x y → further (f x) (f' y)) : Option.Rel further (a.map f) (b.map f') := by
  cases h with
  | none => exact .none
  | some hxy => exact .some (hf _ _ hxy)

theorem map_eq_of_rel {f : α → γ} {f' : β → γ} (h : Option.Rel related a b)
    (hf : ∀ x y, related x y → f x = f' y) : a.map f = b.map f' := by
  cases h with
  | none => rfl
  | some hxy => exact congrArg some (hf _ _ hxy)

theorem rel_swap {other : β → α → Prop} (h : Option.Rel related a b) (hswap : ∀ x y, related x y → other y x) :
    Option.Rel other b a := by
  cases h with
  | none => exact .none
  | some hxy => exact .some (hswap _ _ hxy)

theorem rel_refl {same : α → α → Prop} (hrefl : ∀ x, same x x) (a : Option α) : Option.Rel same a a := by
  cases a with
  | none => exact .none
  | some x => exact .some (hrefl x)

theorem rel_trans {same : α → α → Prop} {a b c : Option α} (h : Option.Rel same a b) (h' : Option.Rel same b c)
    (htrans : ∀ x y z, same x y → same y z → same x z) : Option.Rel same a c := by
  cases h with
  | none => exact h'
  | some hxy =>
    cases h' with
    | some hyz => exact .some (htrans _ _ _ hxy hyz)

end Related

def Item.renumber (ρ : Equiv.Perm Nat) : Item → Item
  | scalar s => scalar s
  | node id => node (ρ id)

/-- The second container is the first one with its items renumbered; the keys of a mapping may stand in
another order. -/
inductive Node.Reorders (ρ : Equiv.Perm Nat) : Node → Node → Prop
  | sequence (fixed : Bool) (items : List Item) :
    Reorders ρ (.sequence fixed items) (.sequence fixed (items.map (·.renumber ρ)))
  | mapping {entries entries' : List (Value × Item)}
    (h : entries'.Perm (entries.map fun e => (e.1, e.2.renumber ρ))) :
    Reorders ρ (.mapping entries) (.mapping entries')

/-- The second graph has the containers of the first under other numbers, with reordered keys. -/
structure Graph.Reorders (ρ : Equiv.Perm Nat) (g g' : Graph) : Prop where
  size_eq : g'.nodes.size = g.nodes.size
  nodes : ∀ id, Option.Rel (Node.Reorders ρ) g.nodes[id]? g'.nodes[ρ id]?

variable {ρ : Equiv.Perm Nat} {g g' : Graph}

@[simp] theorem Item.number?_renumber (item : Item) : (item.renumber ρ).number? = item.number? := by
  cases item <;> rfl

namespace Graph.Reorders

theorem container? (h : Reorders ρ g g') (item : Item) :
    Option.Rel (Node.Reorders ρ) (g.container? item) (g'.container? (item.renumber ρ)) := by
  cases item with
  | scalar s => exact .none
  | node id => exact h.nodes id

theorem items? (h : Reorders ρ g g') (item : Item) :
    g'.items? (item.renumber ρ) = (g.items? item).map (List.map (·.renumber ρ)) := by
  have hnode := h.container? item
  unfold Graph.items?
  generalize g.container? item = node at hnode ⊢
  generalize g'.container? (item.renumber ρ) = node' at hnode ⊢
  cases hnode with
  | none => rfl
  | some hnode => cases hnode <;> rfl

theorem entries? (h : Reorders ρ g g') (item : Item) :
    Option.Rel (fun entries entries' => entries'.Perm (entries.map fun e => (e.1, e.2.renumber ρ)))
      (g.entries? item) (g'.entries? (item.renumber ρ)) := by
  have hnode := h.container? item
  unfold Graph.entries?
  generalize g.container? item = node at hnode ⊢
  generalize g'.container? (item.renumber ρ) = node' at hnode ⊢
  cases hnode with
  | none => exact .none
  | some hnode =>
    cases hnode with
    | sequence => exact .none
    | mapping hentries => exact .some hentries

theorem isMapping (h : Reorders ρ g g') (item : Item) :
    g'.isMapping (item.renumber ρ) = g.isMapping item :=
  (isSome_eq_of_rel (h.entries? item)).symm

theorem tag (h : Reorders ρ g g') (item : Item) : g'.tag (item.renumber ρ) = g.tag item := by
  cases item with
  | scalar s => rfl
  | node id =>
    have hmapping := h.isMapping (.node id)
    simp only [Item.renumber] at hmapping
    simp only [Graph.tag, Item.renumber, hmapping]

end Graph.Reorders

end SchemaInference
