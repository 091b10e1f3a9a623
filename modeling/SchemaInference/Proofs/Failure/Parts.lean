import SchemaInference.Failure.Classification
import Mathlib.Data.List.Basic

set_option autoImplicit false

namespace SchemaInference

theorem findSome?_congr {α β : Type} {f g : α → Option β} {items : List α} (h : ∀ x ∈ items, f x = g x) :
    items.findSome? f = items.findSome? g := by
  rw [← List.head?_filterMap, ← List.head?_filterMap, List.filterMap_congr h]

namespace Value

def under? (v : Value) (name : String) : Option Value :=
  match v with
  | mapping entries => lookup? entries name
  | object _ _ _ _ attributes => attributes.lookup name
  | _ => none

theorem part?_eq (v : Value) (name : String) : v.part? name = (v.under? name).filter fun p => !p.isNull := by
  cases v <;> rfl

def exchanged (name : String) (part : Value) (entry : Value × Value) : Value × Value :=
  match entry with
  | (text key, old) => (text key, if key = name then part else old)
  | entry => entry

def withPart (v : Value) (name : String) (part : Value) : Value :=
  match v with
  | mapping entries => mapping (entries.map (exchanged name part))
  | object typeName classes shown amount attributes =>
    object typeName classes shown amount (attributes.map fun a => (a.1, if a.1 = name then part else a.2))
  | v => v

section Exchange

variable {v old part : Value} {name other : String} {names : List String}

theorem lookup?_map_exchanged (entries : List (Value × Value)) : lookup? (entries.map (exchanged name part)) other =
    (lookup? entries other).map fun p => if other = name then part else p := by
  induction entries using lookup?.induct other with
  | case1 => rfl
  | case2 p rest => simp only [List.map_cons, exchanged, lookup?, if_true, Option.map_some]
  | case3 p rest key h ih => simp only [List.map_cons, exchanged, lookup?, h, if_false, ih]
  | case4 entry rest h ih =>
    have hentry : exchanged name part entry = entry := by
      unfold exchanged
      split
      · exact absurd rfl (h _ _)
      · rfl
    rw [List.map_cons, hentry, lookup?.eq_3 _ _ _ h, lookup?.eq_3 _ _ _ h, ih]

theorem lookup_map_exchanged (attributes : List (String × Value)) :
    (attributes.map fun a => (a.1, if a.1 = name then part else a.2)).lookup other =
      (attributes.lookup other).map fun p => if other = name then part else p := by
  induction attributes with
  | nil => rfl
  | cons a rest ih =>
    rw [List.map_cons, List.lookup_cons, List.lookup_cons, ih]
    cases h : other == a.1 with
    | true => simp [beq_iff_eq.mp h]
    | false => rfl

theorem under?_withPart : (v.withPart name part).under? other =
    (v.under? other).map fun p => if other = name then part else p := by
  cases v with
  | mapping entries => exact lookup?_map_exchanged entries
  | object typeName classes shown amount attributes => exact lookup_map_exchanged attributes
  | scalar _ | list _ | tuple _ => rfl

theorem part?_withPart_self (hold : v.part? name = some old) (hpart : part.isNull = false) :
    (v.withPart name part).part? name = some part := by
  rw [part?_eq] at hold
  obtain ⟨hunder, -⟩ := Option.filter_eq_some_iff.mp hold
  simp [part?_eq, under?_withPart, hunder, hpart]

theorem part?_withPart_of_ne (hother : other ≠ name) : (v.withPart name part).part? other = v.part? other := by
  rw [part?_eq, part?_eq, under?_withPart]
  simp [hother]

theorem firstPart?_withPart_of_notMem (hname : name ∉ names) :
    (v.withPart name part).firstPart? names = v.firstPart? names :=
  findSome?_congr fun _ hother => part?_withPart_of_ne fun h => hname (h ▸ hother)

theorem firstPart?_withPart (names : List String) (hold : v.part? name = some old) (hpart : part.isNull = false) :
    (v.withPart name part).firstPart? names = v.firstPart? names ∨
      v.firstPart? names = some old ∧ (v.withPart name part).firstPart? names = some part := by
  induction names with
  | nil => exact .inl rfl
  | cons first rest ih =>
    simp only [firstPart?, List.findSome?_cons] at ih ⊢
    by_cases hfirst : first = name
    · subst hfirst
      rw [hold, part?_withPart_self hold hpart]
      exact .inr ⟨rfl, rfl⟩
    · rw [part?_withPart_of_ne hfirst]
      cases v.part? first with
      | some p => exact .inl rfl
      | none => exact ih

theorem isNull_of_part? (h : v.part? name = some old) : old.isNull = false := by
  rw [part?_eq] at h
  simpa using (Option.filter_eq_some_iff.mp h).2

theorem isNull_withPart : (v.withPart name part).isNull = v.isNull := by
  cases v <;> rfl

theorem typeName_withPart : (v.withPart name part).typeName = v.typeName := by
  cases v <;> rfl

end Exchange

end Value

namespace Failure

variable {v part : Value} {name : String}

theorem messageOf_withPart (hname : "message" ≠ name) : messageOf (v.withPart name part) = messageOf v := by
  cases v with
  | mapping entries =>
    have hmessage : Value.lookup? (entries.map (Value.exchanged name part)) "message" =
        Value.lookup? entries "message" := by
      simp only [Value.lookup?_map_exchanged, hname, if_false, Option.map_id']
    simp only [Value.withPart, messageOf, hmessage]
  | object typeName classes shown amount attributes => rfl
  | scalar _ | list _ | tuple _ => rfl

theorem kindWithoutStatus_withPart (hname : "retryable" ≠ name) (message : String) :
    kindWithoutStatus (v.withPart name part) message = kindWithoutStatus v message := by
  have hretryable : (v.withPart name part).part? "retryable" = v.part? "retryable" :=
    Value.part?_withPart_of_ne hname
  unfold kindWithoutStatus
  rw [hretryable]
  rcases v.part? "retryable" with _ | (_ | _ | _ | _ | _) | _ | _ | _ | _ <;> cases v <;> rfl

/-- An error is classified as before, by what is known of its request and its message, unless it is its word on a
retry that is exchanged. -/
theorem ofMetadata_withPart (hretryable : "retryable" ≠ name) (metadata : FailureMetadata)
    (component message : String) :
    ofMetadata metadata component message (v.withPart name part) = ofMetadata metadata component message v := by
  simp only [ofMetadata, kindOf, kindWithoutStatus_withPart hretryable, Value.typeName_withPart]

end Failure

end SchemaInference
