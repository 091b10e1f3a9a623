import SchemaInference.Proofs.Schema.Plans

set_option autoImplicit false

namespace SchemaInference

structure PromotedPlace where
  path : List String
  depth : Nat
  frequency : Nat
  isArray : Bool
  fields : FieldMap

def NestedPlan.place (plan : NestedPlan) : PromotedPlace :=
  ⟨plan.path, plan.depth, plan.frequency, plan.isArray, plan.fields⟩

inductive Visit
  | preOrder
  | postOrder

namespace Visit

def arrange (visit : Visit) (here : PromotedPlace) (below : List PromotedPlace) : List PromotedPlace :=
  match visit with
  | preOrder => here :: below
  | postOrder => below ++ [here]

variable {visit : Visit} {here place : PromotedPlace} {below : List PromotedPlace}

@[simp] theorem mem_arrange : place ∈ visit.arrange here below ↔ place = here ∨ place ∈ below := by
  cases visit <;> simp [arrange, or_comm]

theorem filter_arrange {keep : PromotedPlace → Bool} (h : keep here = true) :
    (visit.arrange here below).filter keep = visit.arrange here (below.filter keep) := by
  cases visit <;> simp [arrange, h]

end Visit

namespace Settings

/-- The promoted places of the fields of a type, which has the given depth and path; those of one type are in the
order of its fields. -/
def places (r : Rounding) (s : Settings) (visit : Visit) (depth : Nat) (path : List String) :
    FieldMap → List PromotedPlace
  | .empty => []
  | .field name stats nested rest =>
    if s.maxDepth ≤ depth then []
    else
      match s.promotion? r name stats nested (depth + 1) with
      | none => places r s visit depth path rest
      | some p =>
        visit.arrange ⟨path ++ [name], depth + 1, p.scope, p.isArray, nested⟩
          (places r s visit (depth + 1) (path ++ [name]) nested) ++ places r s visit depth path rest

variable {r : Rounding} {s : Settings} {visit : Visit} {depth : Nat} {path : List String} {name : String}
  {stats : FieldStats} {nested rest fields : FieldMap}

theorem places_capped (h : s.maxDepth ≤ depth) : s.places r visit depth path fields = [] := by
  cases fields with
  | empty => rfl
  | field name stats nested rest => rw [places, if_pos h]

theorem places_skipped (hdepth : depth < s.maxDepth)
    (hp : s.promotion? r name stats nested (depth + 1) = none) :
    s.places r visit depth path (.field name stats nested rest) = s.places r visit depth path rest := by
  rw [places, if_neg (Nat.not_le.mpr hdepth), hp]

theorem places_promoted {p : Promotion} (hdepth : depth < s.maxDepth)
    (hp : s.promotion? r name stats nested (depth + 1) = some p) :
    s.places r visit depth path (.field name stats nested rest) =
      visit.arrange ⟨path ++ [name], depth + 1, p.scope, p.isArray, nested⟩
        (s.places r visit (depth + 1) (path ++ [name]) nested) ++ s.places r visit depth path rest := by
  rw [places, if_neg (Nat.not_le.mpr hdepth), hp]

theorem depth_lt_of_mem_places {place : PromotedPlace} (h : place ∈ s.places r visit depth path fields) :
    depth < place.depth := by
  induction fields generalizing depth path with
  | empty => simp [places] at h
  | field name stats nested rest ihnested ihrest =>
    by_cases hdepth : s.maxDepth ≤ depth
    · simp [places_capped hdepth] at h
    · rw [Nat.not_le] at hdepth
      cases hp : s.promotion? r name stats nested (depth + 1) with
      | none =>
        rw [places_skipped hdepth hp] at h
        exact ihrest h
      | some p =>
        rw [places_promoted hdepth hp, List.mem_append, Visit.mem_arrange] at h
        obtain (rfl | h) | h := h
        · exact Nat.lt_succ_self depth
        · exact Nat.lt_of_succ_lt (ihnested h)
        · exact ihrest h

end Settings

variable {r : Rounding} {s : Settings} {strategy : NamingStrategy} {parent : String} {depth : Nat}
  {path : List String} {fields : FieldMap} {names after : NameRegistry} {plans : List NestedPlan}

/-- Plans stand at the promoted places, in post-order. -/
theorem Derives.map_place (h : Derives r s strategy parent depth path fields names plans after) :
    plans.map (·.place) = s.places r .postOrder depth path fields := by
  induction h with
  | exhausted => rfl
  | capped parent path fields names hdepth => exact (Settings.places_capped hdepth).symm
  | skipped hdepth hpromotion _ ih => rw [Settings.places_skipped hdepth hpromotion, ih]
  | promoted hdepth hpromotion _ _ _ ihbelow ihlater =>
    rw [Settings.places_promoted hdepth hpromotion, List.map_append, List.map_cons, ihbelow, ihlater]
    simp [Visit.arrange, NestedPlan.place]

end SchemaInference
