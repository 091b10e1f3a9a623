import SchemaInference.Proofs.Settings.Validation
import SchemaInference.Settings.Lenient

set_option autoImplicit false

namespace SchemaInference

namespace Findings

variable {α β : Type}

theorem ofCheck_eq_found_iff {place : List String} {check : Checked α} {a : α} :
    ofCheck place check = found a ↔ check = .ok a := by
  cases check <;> simp [ofCheck]

theorem ofValidator_eq_found_iff {place : List String} {answer : Except Refusal α} {a : α} :
    ofValidator place answer = found a ↔ answer = .ok a := by
  match answer with
  | .ok b => simp [ofValidator]
  | .error (.message text) => simp [ofValidator]
  | .error (.raised e) => simp [ofValidator]

theorem map_eq_found_iff {f : α → β} {a : Findings α} {b : β} : a.map f = found b ↔ ∃ x, a = found x ∧ f x = b := by
  cases a <;> simp [map]

theorem ap_eq_found_iff {f : Findings (α → β)} {a : Findings α} {b : β} :
    f.ap a = found b ↔ ∃ g x, f = found g ∧ a = found x ∧ g x = b := by
  cases f <;> cases a <;> simp [ap, map]

theorem followedBy_eq_found_iff {a : Findings α} {next : α → Findings β} {b : β} :
    a.followedBy next = found b ↔ ∃ x, a = found x ∧ next x = found b := by
  cases a <;> simp [followedBy]

theorem withoutOthers_eq_found_iff {a : Findings α} {options : Options} {known place : List String}
    {fault : OptionFault} {x : α} :
    a.withoutOthers options known place fault = found x ↔ a = found x ∧ ∀ o ∈ options, o.1 ∈ known := by
  have hnone : (options.filter fun o => !known.contains o.1) = [] ↔ ∀ o ∈ options, o.1 ∈ known := by
    simp [List.filter_eq_nil_iff]
  rw [← hnone]
  unfold withoutOthers
  cases options.filter fun o => !known.contains o.1 with
  | nil => simp
  | cons o rest => simp [ap_eq_found_iff]

theorem outcome_eq_ok_iff {a : Findings α} {x : α} : a.outcome = .ok x ↔ a = found x := by
  cases a <;> simp [outcome]

theorem each_of_forall₂ {place : List String} {check : List String → OptionValue → Findings α} (i : Nat)
    {items : List OptionValue} {as : List α}
    (h : List.Forall₂ (fun v a => ∀ place, check place v = found a) items as) :
    each place check i items = found as := by
  induction h generalizing i with
  | nil => rfl
  | cons hv _ ih =>
    rw [each, hv, ih]
    rfl

theorem exists_of_mem_each {place : List String} {check : List String → OptionValue → Findings α} {i : Nat}
    {items : List OptionValue} {as : List α} (h : each place check i items = found as) {a : α} (ha : a ∈ as) :
    ∃ v ∈ items, ∃ place, check place v = found a := by
  induction items generalizing i as with
  | nil =>
    cases h
    cases ha
  | cons v items ih =>
    rw [each, ap_eq_found_iff] at h
    obtain ⟨g, rest, hfirst, hrest, rfl⟩ := h
    obtain ⟨first, hv, rfl⟩ := map_eq_found_iff.mp hfirst
    rcases List.mem_cons.mp ha with rfl | ha
    · exact ⟨v, List.mem_cons_self, _, hv⟩
    · obtain ⟨v', hmem, hv'⟩ := ih hrest ha
      exact ⟨v', List.mem_cons_of_mem v hmem, hv'⟩

end Findings

namespace Check

theorem within_eq_ok_iff {least most : Option Nat} {x y : Double} :
    within least most x = .ok y ↔ x = y ∧ x.Between least most := by
  unfold within Double.Between
  cases most with
  | none =>
    cases least with
    | none => simp
    | some low => by_cases hlow : Double.le (.finite low) x = true <;> simp [Option.filter, hlow]
  | some high =>
    by_cases hhigh : Double.le x (.finite high) = true
    · cases least with
      | none => simp [Option.filter, hhigh]
      | some low => by_cases hlow : Double.le (.finite low) x = true <;> simp [Option.filter, hhigh, hlow]
    · simp [Option.filter, hhigh]

theorem bounded_of_holds {n : Nat} {bound : LowerBound} (h : bound.Holds n) : bounded n bound = .ok n := by
  cases bound with
  | above least =>
    change least < n at h
    rw [bounded, if_neg (by omega), Int.toNat_natCast]
  | atLeast least =>
    change least ≤ n at h
    rw [bounded, if_neg (by omega), Int.toNat_natCast]

theorem holds_of_bounded {v : OptionValue} {n : Nat} {bound : LowerBound}
    (h : (integer v >>= fun i => bounded i bound) = .ok n) : bound.Holds n := by
  cases hv : integer v with
  | error fault =>
    rw [hv] at h
    cases h
  | ok i =>
    rw [hv] at h
    change bounded i bound = .ok n at h
    cases bound with
    | above least =>
      rw [bounded] at h
      split at h
      · cases h
      · cases h
        change least < i.toNat
        omega
    | atLeast least =>
      rw [bounded] at h
      split at h
      · cases h
      · cases h
        change least ≤ i.toNat
        omega

theorem double_within_eq_ok_iff {least most : Option Nat} {v : OptionValue} {x : Double} :
    (double v >>= within least most) = .ok x ↔ double v = .ok x ∧ x.Between least most := by
  cases double v with
  | error fault => simp [bind, Except.bind]
  | ok y =>
    change within least most y = .ok x ↔ _
    rw [within_eq_ok_iff, Except.ok.injEq]
    exact and_congr_right fun h => by rw [h]

theorem representable_plainDouble? {cs : List Char} {x : Double} (h : plainDouble? cs = some x) : x.Representable := by
  unfold plainDouble? at h
  dsimp only at h
  split at h
  · cases h
    exact Double.representable_ofDecimal _ _
  · unfold Numeral.namedOf at h
    dsimp only at h
    split_ifs at h
    · cases h
      exact Double.representable_infinite _
    · cases h
      exact Double.representable_nan

theorem representable_double {v : OptionValue} {x : Double} (hv : v.Representable) (h : double v = .ok x) :
    x.Representable := by
  unfold double at h
  split at h
  · rename_i b
    cases h
    cases b <;> decide +kernel
  · split at h
    · rename_i i y hy
      cases h
      exact Double.representable_ofInt hy
    · cases h
  · cases h
    rw [OptionValue.Representable] at hv
    exact hv
  · split at h
    · rename_i y hy
      cases h
      exact representable_plainDouble? hy
    · split at h
      · rename_i y hy
        cases h
        obtain ⟨cs, -, hcs⟩ := Option.bind_eq_some_iff.mp hy
        exact representable_plainDouble? hcs
      · cases h
  · cases h

theorem choice_of_mem {α : Type} {all : List α} {name : α → String} {a : α} (ha : a ∈ all)
    (honly : ∀ b ∈ all, name b = name a → b = a) : choice all name (.text (name a)) = .ok a := by
  have hfind : (all.find? fun b => name b == WideText.shown (name a)) = some a := by
    rw [WideText.shown_ofString]
    cases hfound : all.find? fun b => name b == name a with
    | none => exact absurd (beq_self_eq_true (name a)) (List.find?_eq_none.mp hfound a ha)
    | some b => rw [honly b (List.mem_of_find?_eq_some hfound) (by simpa using List.find?_some hfound)]
  rw [choice, hfind]

theorem mem_of_choice {α : Type} {all : List α} {name : α → String} {v : OptionValue} {a : α}
    (h : choice all name v = .ok a) : a ∈ all := by
  unfold choice at h
  split at h
  · split at h
    · rename_i b hfound
      cases h
      exact List.mem_of_find?_eq_some hfound
    · cases h
  · cases h

end Check

namespace FieldKind

variable {α : Type} {place : List String} {v : OptionValue}

theorem check_optional (kind : FieldKind α) (hv : v ≠ .null) :
    (optional kind).check place v = (kind.check place v).map some := by
  cases v with
  | null => exact absurd rfl hv
  | _ => rfl

theorem items_of_check_list {item : FieldKind α} {as : List α} (h : (list item).check place v = .found as) :
    ∃ items, v = .list items ∧ ∀ a ∈ as, ∃ v ∈ items, ∃ place, item.check place v = .found a := by
  cases v with
  | list items => exact ⟨items, rfl, fun a => Findings.exists_of_mem_each h⟩
  | _ => cases h

theorem entries_of_check_record {typeName : String} {fields : Fields α} {a : α}
    (h : (record typeName fields).check place v = .found a) :
    ∃ entries, v = .mapping entries ∧ fields.gather place entries = .found a := by
  cases v with
  | mapping entries => exact ⟨entries, rfl, (Findings.withoutOthers_eq_found_iff.mp h).1⟩
  | _ => cases h

end FieldKind

mutual

theorem FieldKind.check_of_keeps : {α : Type} → (kind : FieldKind α) → (place : List String) → {v : OptionValue} →
    {a : α} → kind.Keeps v a → kind.check place v = .found a
  | _, .integer, place, v, i, h => by
    cases h
    rfl
  | _, .natural bound, place, v, n, h => by
    obtain ⟨rfl, hbound⟩ := h
    exact Findings.ofCheck_eq_found_iff.mpr (Check.bounded_of_holds hbound)
  | _, .double least most, place, v, x, h => by
    obtain ⟨rfl, -, hbounds⟩ := h
    exact Findings.ofCheck_eq_found_iff.mpr (Check.within_eq_ok_iff.mpr ⟨rfl, hbounds⟩)
  | _, .truth, place, v, b, h => by
    cases h
    rfl
  | _, .choice all name, place, v, a, h => by
    obtain ⟨rfl, ha, honly⟩ := h
    exact Findings.ofCheck_eq_found_iff.mpr (Check.choice_of_mem ha honly)
  | _, .function, place, v, t, h => by
    cases h
    rfl
  | _, .pattern, place, v, p, h => by
    cases p <;> cases h <;> rfl
  | _, .optional kind, place, v, a, h => by
    rcases h with ⟨rfl, rfl⟩ | ⟨hv, b, hb, rfl⟩
    · rfl
    · rw [FieldKind.check_optional kind hv, FieldKind.check_of_keeps kind place hb]
      rfl
  | _, .list item, place, v, as, h => by
    obtain ⟨items, rfl, hall⟩ := h
    exact Findings.each_of_forall₂ 0 (hall.imp fun v a hv place => FieldKind.check_of_keeps item place hv)
  | _, .checked kind validator, place, v, b, h => by
    obtain ⟨a, ha, hb⟩ := h
    rw [FieldKind.check, FieldKind.check_of_keeps kind place ha]
    exact Findings.ofValidator_eq_found_iff.mpr hb
  | _, .record typeName fields, place, v, a, h => by
    obtain ⟨entries, rfl, hnames, hfields⟩ := h
    exact Findings.withoutOthers_eq_found_iff.mpr ⟨Fields.gather_of_keeps fields place hfields, hnames⟩

theorem Fields.gather_of_keeps : {α : Type} → (fields : Fields α) → (place : List String) → {options : Options} →
    {a : α} → fields.Keeps options a → fields.gather place options = .found a
  | _, .made b, place, options, a, h => by
    cases h
    rfl
  | _, .field earlier name kind standard, place, options, a, h => by
    obtain ⟨f, b, hearlier, rfl, hfield⟩ := h
    rw [Fields.gather, Fields.gather_of_keeps earlier place hearlier]
    cases hv : options.get? name with
    | none =>
      rw [hv] at hfield
      cases hfield
      rfl
    | some v =>
      rw [hv] at hfield
      dsimp only
      rw [FieldKind.check_of_keeps kind _ hfield]
      rfl

end

mutual

theorem FieldKind.allows_of_check : {α : Type} → (kind : FieldKind α) → {place : List String} → {v : OptionValue} →
    {a : α} → v.Representable → kind.check place v = .found a → kind.Allows a
  | _, .integer, _, _, _, _, _ => trivial
  | _, .natural bound, place, v, n, hv, h => Check.holds_of_bounded (Findings.ofCheck_eq_found_iff.mp h)
  | _, .double least most, place, v, x, hv, h => by
    obtain ⟨hx, hbounds⟩ := Check.double_within_eq_ok_iff.mp (Findings.ofCheck_eq_found_iff.mp h)
    exact ⟨Check.representable_double hv hx, hbounds⟩
  | _, .truth, _, _, _, _, _ => trivial
  | _, .choice all name, place, v, a, hv, h => Check.mem_of_choice (Findings.ofCheck_eq_found_iff.mp h)
  | _, .function, _, _, _, _, _ => trivial
  | _, .pattern, _, _, _, _, _ => trivial
  | _, .optional kind, place, v, a, hv, h => by
    by_cases hnull : v = .null
    · subst hnull
      cases h
      intro b hb
      cases hb
    · rw [FieldKind.check_optional kind hnull] at h
      obtain ⟨b, hb, rfl⟩ := Findings.map_eq_found_iff.mp h
      intro b' hb'
      cases hb'
      exact FieldKind.allows_of_check kind hv hb
  | _, .list item, place, v, as, hv, h => by
    obtain ⟨items, rfl, hall⟩ := FieldKind.items_of_check_list h
    rw [OptionValue.Representable] at hv
    intro a ha
    obtain ⟨v, hmem, place, hcheck⟩ := hall a ha
    exact FieldKind.allows_of_check item (hv v hmem) hcheck
  | _, .checked kind validator, place, v, b, hv, h => by
    obtain ⟨a, ha, hb⟩ := Findings.followedBy_eq_found_iff.mp h
    exact ⟨a, FieldKind.allows_of_check kind hv ha, Findings.ofValidator_eq_found_iff.mp hb⟩
  | _, .record typeName fields, place, v, a, hv, h => by
    obtain ⟨entries, rfl, hgather⟩ := FieldKind.entries_of_check_record h
    rw [OptionValue.Representable] at hv
    exact Fields.allows_of_gather fields (fun o ho => hv o.1 o.2 ho) hgather

theorem Fields.allows_of_gather : {α : Type} → (fields : Fields α) → {place : List String} → {options : Options} →
    {a : α} → options.Representable → fields.gather place options = .found a → fields.Allows a
  | _, .made b, place, options, a, _, h => by
    cases h
    rfl
  | _, .field earlier name kind standard, place, options, a, hoptions, h => by
    obtain ⟨f, b, hf, hb, rfl⟩ := Findings.ap_eq_found_iff.mp h
    refine ⟨f, b, Fields.allows_of_gather earlier hoptions hf, rfl, ?_⟩
    split at hb
    · rename_i v hv
      exact .inr (FieldKind.allows_of_check kind (hoptions (name, v) (Options.mem_of_get? hv)) hb)
    · cases hb
      exact .inl rfl

end

theorem Validation.lawful_lenient : Validation.lenient.Lawful where
  keeps fields validator options a hnames hkeeps hvalidator := by
    refine Findings.outcome_eq_ok_iff.mpr (Findings.followedBy_eq_found_iff.mpr ⟨a, ?_, ?_⟩)
    · exact Findings.withoutOthers_eq_found_iff.mpr ⟨Fields.gather_of_keeps fields [] hkeeps, hnames⟩
    · rw [hvalidator]
      rfl
  allows fields validator options a hoptions h := by
    obtain ⟨b, hb, hvalidator⟩ := Findings.followedBy_eq_found_iff.mp (Findings.outcome_eq_ok_iff.mp h)
    obtain ⟨hgather, -⟩ := Findings.withoutOthers_eq_found_iff.mp hb
    obtain ⟨answer, hanswer, rfl⟩ := Findings.map_eq_found_iff.mp hvalidator
    exact ⟨Fields.allows_of_gather fields hoptions hgather, Findings.ofValidator_eq_found_iff.mp hanswer⟩

end SchemaInference
