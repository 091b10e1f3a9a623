import SchemaInference.Proofs.Json.Texts
import SchemaInference.Settings.Load

/-!
# What a validation is relied on for

Two laws are all that is known of a validation.  It keeps what is of the declared type and inside its bounds,
and takes the default of what is missing; and what it makes of any options is of the declared types, inside
their bounds and accepted by the validators.
-/

set_option autoImplicit false

namespace SchemaInference

namespace Options

theorem set_of_notMem {options : Options} {name : String} {value : OptionValue}
    (h : name ∉ options.map (·.1)) : options.set name value = options ++ [(name, value)] := by
  induction options with
  | nil => rfl
  | cons o rest ih =>
    rw [List.map_cons, List.mem_cons, not_or] at h
    rw [set, if_neg (Ne.symm h.1), ih h.2, List.cons_append]

theorem mem_set {options : Options} {name : String} {value : OptionValue} {o : String × OptionValue}
    (h : o ∈ options.set name value) : o ∈ options ∨ o.2 = value := by
  induction options with
  | nil => exact .inr (congrArg Prod.snd (List.mem_singleton.mp h))
  | cons first rest ih =>
    rw [set] at h
    split at h
    · rcases List.mem_cons.mp h with rfl | hrest
      · exact .inr rfl
      · exact .inl (List.mem_cons_of_mem _ hrest)
    · rcases List.mem_cons.mp h with rfl | hrest
      · exact .inl List.mem_cons_self
      · exact (ih hrest).imp_left (List.mem_cons_of_mem _)

theorem renamed_eq_self {options : Options} {rename : String → String} (hdistinct : (options.map (·.1)).Nodup)
    (hnames : ∀ o ∈ options, rename o.1 = o.1) : options.renamed rename = options := by
  have hfold (done rest : Options) (hdistinct : ((done ++ rest).map (·.1)).Nodup)
      (hnames : ∀ o ∈ rest, rename o.1 = o.1) :
      rest.foldl (fun acc o => set acc (rename o.1) o.2) done = done ++ rest := by
    induction rest generalizing done with
    | nil => exact (List.append_nil done).symm
    | cons o rest ih =>
      have hnew : o.1 ∉ done.map (·.1) := by
        rw [List.map_append, List.map_cons] at hdistinct
        intro h
        exact List.disjoint_of_nodup_append hdistinct h List.mem_cons_self
      have hassoc : done ++ [(o.1, o.2)] ++ rest = done ++ o :: rest := by simp
      rw [List.foldl_cons, hnames o List.mem_cons_self, set_of_notMem hnew, ih _ (hassoc ▸ hdistinct)
        fun o ho => hnames o (List.mem_cons_of_mem _ ho), hassoc]
  exact hfold [] options hdistinct hnames

theorem mem_renamed {options : Options} {rename : String → String} {o : String × OptionValue}
    (h : o ∈ options.renamed rename) : ∃ o' ∈ options, o.2 = o'.2 := by
  have hfold (rest acc : Options) (h : o ∈ rest.foldl (fun acc o => set acc (rename o.1) o.2) acc) :
      o ∈ acc ∨ ∃ o' ∈ rest, o.2 = o'.2 := by
    induction rest generalizing acc with
    | nil => exact .inl h
    | cons first rest ih =>
      rcases ih _ h with hacc | ⟨o', ho', hvalue⟩
      · rcases mem_set hacc with hacc | hvalue
        · exact .inl hacc
        · exact .inr ⟨first, List.mem_cons_self, hvalue⟩
      · exact .inr ⟨o', List.mem_cons_of_mem _ ho', hvalue⟩
  rcases hfold options [] h with hnil | hmem
  · cases hnil
  · exact hmem

end Options

def OptionValue.Representable : OptionValue → Prop
  | number n => n.Representable
  | list items => ∀ v, v ∈ items → v.Representable
  | mapping entries => ∀ name v, (name, v) ∈ entries → v.Representable
  | _ => True
termination_by v => sizeOf v
decreasing_by
  · rename_i hv
    have hitem := List.sizeOf_lt_of_mem hv
    rw [list.sizeOf_spec]
    omega
  · rename_i hv
    have hentry := List.sizeOf_lt_of_mem hv
    rw [Prod.mk.sizeOf_spec] at hentry
    rw [mapping.sizeOf_spec]
    omega

namespace Options

def Representable (options : Options) : Prop :=
  ∀ o ∈ options, o.2.Representable

theorem Representable.normalized {options : Options} (h : options.Representable) : options.normalized.Representable := by
  intro o ho
  obtain ⟨o', ho', hvalue⟩ := mem_renamed ho
  exact hvalue ▸ h o' ho'

theorem mem_of_get? {options : Options} {name : String} {v : OptionValue} (h : options.get? name = some v) :
    (name, v) ∈ options := by
  induction options with
  | nil => cases h
  | cons o rest ih =>
    rw [get?, List.lookup_cons] at h
    split at h
    · rename_i hname
      cases h
      rw [beq_iff_eq] at hname
      exact hname ▸ List.mem_cons_self
    · exact List.mem_cons_of_mem _ (ih h)

end Options

def Double.Between (least most : Option Nat) (x : Double) : Prop :=
  (∀ bound ∈ most, Double.le x (.finite bound) = true) ∧ ∀ bound ∈ least, Double.le (.finite bound) x = true

def GivenPattern.option : GivenPattern → OptionValue
  | text source => .text source
  | read source => .pattern source

mutual

/-- An option of the declared type and inside its bounds, with the value that it stands for. -/
def FieldKind.Keeps : {α : Type} → FieldKind α → OptionValue → α → Prop
  | _, .integer, v, i => v = .number (.whole i)
  | _, .natural bound, v, n => v = .number (.whole n) ∧ bound.Holds n
  | _, .double least most, v, x => v = .number (.real x) ∧ x.isFinite = true ∧ x.Between least most
  | _, .truth, v, b => v = .bool b
  | _, .choice all name, v, a => v = .text (name a) ∧ a ∈ all ∧ ∀ b ∈ all, name b = name a → b = a
  | _, .function, v, t => v = .function t
  | _, .pattern, v, p => v = p.option
  | _, .optional kind, v, a => v = .null ∧ a = none ∨ v ≠ .null ∧ ∃ b, kind.Keeps v b ∧ a = some b
  | _, .list item, v, as => ∃ items, v = .list items ∧ List.Forall₂ (fun v a => item.Keeps v a) items as
  | _, .checked kind validator, v, b => ∃ a, kind.Keeps v a ∧ validator a = .ok b
  | _, .record _ fields, v, a =>
    ∃ entries, v = .mapping entries ∧ (∀ o ∈ entries, o.1 ∈ fields.names) ∧ fields.Keeps entries a

def Fields.Keeps : {α : Type} → Fields α → Options → α → Prop
  | _, .made a, _, a' => a' = a
  | _, .field earlier name kind standard, options, a => ∃ f b, earlier.Keeps options f ∧ a = f b ∧
    match options.get? name with
    | some v => kind.Keeps v b
    | none => b = standard

end

mutual

/-- A value that the declared type has inside its bounds. -/
def FieldKind.Allows : {α : Type} → FieldKind α → α → Prop
  | _, .integer, _ => True
  | _, .natural bound, n => bound.Holds n
  | _, .double least most, x => x.Representable ∧ x.Between least most
  | _, .truth, _ => True
  | _, .choice all _, a => a ∈ all
  | _, .function, _ => True
  | _, .pattern, _ => True
  | _, .optional kind, a => ∀ b ∈ a, kind.Allows b
  | _, .list item, as => ∀ a ∈ as, item.Allows a
  | _, .checked kind validator, b => ∃ a, kind.Allows a ∧ validator a = .ok b
  | _, .record _ fields, a => fields.Allows a

def Fields.Allows : {α : Type} → Fields α → α → Prop
  | _, .made a, a' => a' = a
  | _, .field earlier _ kind standard, a => ∃ f b, earlier.Allows f ∧ a = f b ∧ (b = standard ∨ kind.Allows b)

end

structure Validation.Lawful (V : Validation) : Prop where
  /-- Options of the declared types and inside their bounds are kept. -/
  keeps {α : Type} (fields : Fields α) (validator : α → Except Refusal Unit) (options : Options) (a : α) :
    (∀ o ∈ options, o.1 ∈ fields.names) → fields.Keeps options a → validator a = .ok () →
      V.build fields validator options = .ok a
  /-- What is made of options is as declared. -/
  allows {α : Type} (fields : Fields α) (validator : α → Except Refusal Unit) (options : Options) (a : α) :
    options.Representable → V.build fields validator options = .ok a → fields.Allows a ∧ validator a = .ok ()

end SchemaInference
