import SchemaInference.Proofs.Json.Texts

/-!
# What a JSON text tells

Two values with one text on one line are the same value but for the order of members, which is put aside by
sorting the members of every object.  An item ends where a separator or a closing bracket stands, and its
first character tells its kind.
-/

set_option autoImplicit false

namespace SchemaInference

namespace Json

def nameLe {α : Type} (a b : String × α) : Bool :=
  !decide (b.1 < a.1)

mutual

/-- The value with its texts in units and the members of every object in order of their names. -/
def canonical : Json → Json
  | null => null
  | bool b => bool b
  | number n => number n
  | text s => text s.units
  | list items => list (canonicalItems items)
  | object members => object ((canonicalMembers members).mergeSort nameLe)

def canonicalItems : List Json → List Json
  | [] => []
  | item :: rest => canonical item :: canonicalItems rest

def canonicalMembers : List (String × Json) → List (String × Json)
  | [] => []
  | (name, value) :: rest => (name, canonical value) :: canonicalMembers rest

end

mutual

def Representable : Json → Prop
  | number n => n.Representable
  | list items => RepresentableItems items
  | object members => RepresentableMembers members
  | _ => True

def RepresentableItems : List Json → Prop
  | [] => True
  | item :: rest => item.Representable ∧ RepresentableItems rest

def RepresentableMembers : List (String × Json) → Prop
  | [] => True
  | (_, value) :: rest => value.Representable ∧ RepresentableMembers rest

end

@[simp]
theorem canonical_number (n : Number) : (number n).canonical = number n := by
  rw [canonical]

@[simp]
theorem canonical_text (s : WideText) : (text s).canonical = text s.units := by
  rw [canonical]

theorem canonicalItems_eq_map (items : List Json) : canonicalItems items = items.map canonical := by
  induction items with
  | nil => rfl
  | cons item rest ih => rw [canonicalItems, ih, List.map_cons]

theorem canonicalMembers_eq_map (members : List (String × Json)) :
    canonicalMembers members = members.map fun m => (m.1, m.2.canonical) := by
  induction members with
  | nil => rfl
  | cons m rest ih => rw [canonicalMembers, ih, List.map_cons]

theorem representableItems_iff {items : List Json} : RepresentableItems items ↔ ∀ item ∈ items, item.Representable := by
  induction items with
  | nil => simp [RepresentableItems]
  | cons item rest ih => rw [RepresentableItems, ih, List.forall_mem_cons]

theorem representableMembers_iff {members : List (String × Json)} :
    RepresentableMembers members ↔ ∀ m ∈ members, m.2.Representable := by
  induction members with
  | nil => simp [RepresentableMembers]
  | cons m rest ih => rw [RepresentableMembers, ih, List.forall_mem_cons]

theorem writeItems_eq_map (indent : Indent) (level : Nat) (items : List Json) :
    writeItems indent level items = items.map (writeAt indent level) := by
  induction items with
  | nil => rfl
  | cons item rest ih => rw [writeItems, ih, List.map_cons]

def memberText (level : Nat) (m : String × Json) : String :=
  quoted m.1 ++ ": " ++ writeAt none level m.2

theorem writeMembers_eq_map (level : Nat) (members : List (String × Json)) :
    writeMembers none level members = members.map fun m => (m.1, memberText level m) := by
  induction members with
  | nil => rfl
  | cons m rest ih =>
    rw [writeMembers, ih, List.map_cons]
    rfl

theorem map_mergeSort_of_names {α β : Type} {f : String × α → String × β} (hf : ∀ m, (f m).1 = m.1)
    (members : List (String × α)) : (members.map f).mergeSort nameLe = (members.mergeSort nameLe).map f := by
  refine (List.map_mergeSort fun a _ b _ => ?_).symm
  rw [nameLe, nameLe, hf, hf]

theorem texts_of_sorted (level : Nat) (members : List (String × Json)) :
    ((writeMembers none level members).mergeSort fun a b => !decide (b.1 < a.1)).map (·.2) =
      (members.mergeSort nameLe).map (memberText level) := by
  have hsort := map_mergeSort_of_names (fun _ => rfl : ∀ m, (m.1, memberText level m).1 = m.1) members
  rw [writeMembers_eq_map]
  refine (congrArg (List.map (·.2)) hsort).trans ?_
  rw [List.map_map]
  rfl

mutual

def inUnits : Json → Json
  | null => null
  | bool b => bool b
  | number n => number n
  | text s => text s.units
  | list items => list (itemsInUnits items)
  | object members => object (membersInUnits members)

def itemsInUnits : List Json → List Json
  | [] => []
  | item :: rest => inUnits item :: itemsInUnits rest

def membersInUnits : List (String × Json) → List (String × Json)
  | [] => []
  | (name, value) :: rest => (name, inUnits value) :: membersInUnits rest

end

theorem itemsInUnits_eq_map (items : List Json) : itemsInUnits items = items.map inUnits := by
  induction items with
  | nil => rfl
  | cons item rest ih => rw [itemsInUnits, ih, List.map_cons]

theorem quoted_units (s : WideText) : quoted s.units = quoted s := by
  rw [quoted, quoted, WideText.units_units]

mutual

/-- A text does not tell halves of a pair from the character. -/
theorem writeAt_inUnits (indent : Indent) (level : Nat) (j : Json) :
    writeAt indent level j.inUnits = writeAt indent level j := by
  cases j with
  | text s => rw [inUnits, writeAt, writeAt, quoted_units]
  | list items => rw [inUnits, writeAt, writeAt, writeItems_itemsInUnits]
  | object members => rw [inUnits, writeAt, writeAt, writeMembers_membersInUnits]
  | _ => rfl

theorem writeItems_itemsInUnits (indent : Indent) (level : Nat) (items : List Json) :
    writeItems indent level (itemsInUnits items) = writeItems indent level items := by
  cases items with
  | nil => rfl
  | cons item rest =>
    rw [itemsInUnits, writeItems, writeItems, writeAt_inUnits indent level item,
      writeItems_itemsInUnits indent level rest]

theorem writeMembers_membersInUnits (indent : Indent) (level : Nat) (members : List (String × Json)) :
    writeMembers indent level (membersInUnits members) = writeMembers indent level members := by
  match members with
  | [] => rfl
  | (name, value) :: rest =>
    rw [membersInUnits, writeMembers, writeMembers, writeAt_inUnits indent level value,
      writeMembers_membersInUnits indent level rest]

end

mutual

theorem isWritable_inUnits (j : Json) : j.inUnits.isWritable = j.isWritable := by
  cases j with
  | text s => rfl
  | list items => rw [inUnits, isWritable, isWritable, areWritable_itemsInUnits]
  | object members => rw [inUnits, isWritable, isWritable, areMembersWritable_membersInUnits]
  | _ => rfl

theorem areWritable_itemsInUnits (items : List Json) : areWritable (itemsInUnits items) = areWritable items := by
  cases items with
  | nil => rfl
  | cons item rest => rw [itemsInUnits, areWritable, areWritable, isWritable_inUnits item, areWritable_itemsInUnits rest]

theorem areMembersWritable_membersInUnits (members : List (String × Json)) :
    areMembersWritable (membersInUnits members) = areMembersWritable members := by
  match members with
  | [] => rfl
  | (name, value) :: rest =>
    rw [membersInUnits, areMembersWritable, areMembersWritable, isWritable_inUnits value,
      areMembersWritable_membersInUnits rest]

end

theorem line_inUnits (j : Json) : j.inUnits.line = j.line := by
  rw [line, line, isWritable_inUnits, write, write, writeAt_inUnits]

/-- A text goes on with nothing, a separator or a closing bracket. -/
def Stops (rest : List Char) : Prop :=
  ∀ c ∈ rest.head?, c ∈ [',', ']', '\x7d']

def following (closing : Char) : List (List Char) → List Char → List Char
  | [], rest => closing :: rest
  | item :: items, rest => ',' :: ' ' :: (item ++ following closing items rest)

def enclosed (closing : Char) : List (List Char) → List Char → List Char
  | [], rest => closing :: rest
  | item :: items, rest => item ++ following closing items rest

theorem toList_intercalate_append (closing : Char) (item : String) (items : List String) (rest : List Char) :
    (", ".intercalate (item :: items)).toList ++ closing :: rest =
      item.toList ++ following closing (items.map String.toList) rest := by
  rw [String.toList_intercalate, List.map_cons]
  induction items generalizing item with
  | nil => simp [following]
  | cons next items ih =>
    rw [List.map_cons, List.intercalate_cons_cons, List.append_assoc, List.append_assoc, ih next]
    rfl

theorem toList_bracketed_append (level : Nat) (opening closing : Char) (items : List String) (rest : List Char) :
    (bracketed none level (String.singleton opening) (String.singleton closing) items).toList ++ rest =
      opening :: enclosed closing (items.map String.toList) rest := by
  unfold bracketed
  cases items with
  | nil => simp [enclosed]
  | cons item items =>
    have hlist := toList_intercalate_append closing item items rest
    simp only [List.isEmpty_cons, Bool.false_eq_true, if_false, String.toList_append, String.toList_singleton,
      List.append_assoc, List.nil_append, List.cons_append] at hlist ⊢
    rw [hlist]
    rfl

section Items

variable {α : Type} {write : α → List Char} {same : α → α → Prop} {closing : Char}

theorem stops_following (hclosing : closing ∈ [']', '\x7d']) (items : List (List Char)) (rest : List Char) :
    Stops (following closing items rest) := by
  intro c hc
  cases items with
  | nil =>
    cases hc
    exact List.mem_cons_of_mem _ hclosing
  | cons item items =>
    cases hc
    exact List.mem_cons_self

theorem forall₂_of_following (hclosing : closing ∈ [']', '\x7d']) {xs ys : List α} {rest rest' : List Char}
    (hitem : ∀ x ∈ xs, ∀ y ∈ ys, ∀ r r', Stops r → Stops r' → write x ++ r = write y ++ r' → same x y ∧ r = r')
    (h : following closing (xs.map write) rest = following closing (ys.map write) rest') :
    List.Forall₂ same xs ys ∧ rest = rest' := by
  have hcomma : ',' ≠ closing := by
    rintro rfl
    exact absurd hclosing (by decide)
  induction xs generalizing ys with
  | nil =>
    cases ys with
    | nil => exact ⟨.nil, (List.cons.inj h).2⟩
    | cons y ys => exact absurd (List.cons.inj h).1.symm hcomma
  | cons x xs ih =>
    cases ys with
    | nil => exact absurd (List.cons.inj h).1 hcomma
    | cons y ys =>
      have htail := (List.cons.inj (List.cons.inj h).2).2
      obtain ⟨hsame, hrest⟩ := hitem x List.mem_cons_self y List.mem_cons_self _ _
        (stops_following hclosing _ _) (stops_following hclosing _ _) htail
      obtain ⟨hall, hend⟩ := ih (fun x hx y hy => hitem x (List.mem_cons_of_mem _ hx) y (List.mem_cons_of_mem _ hy)) hrest
      exact ⟨.cons hsame hall, hend⟩

theorem forall₂_of_enclosed (hclosing : closing ∈ [']', '\x7d']) {xs ys : List α} {rest rest' : List Char}
    (hitem : ∀ x ∈ xs, ∀ y ∈ ys, ∀ r r', Stops r → Stops r' → write x ++ r = write y ++ r' → same x y ∧ r = r')
    (hhead : ∀ x, ∃ c r, write x = c :: r ∧ c ≠ closing)
    (h : enclosed closing (xs.map write) rest = enclosed closing (ys.map write) rest') :
    List.Forall₂ same xs ys ∧ rest = rest' := by
  cases xs with
  | nil =>
    cases ys with
    | nil => exact ⟨.nil, (List.cons.inj h).2⟩
    | cons y ys =>
      obtain ⟨c, r, hy, hc⟩ := hhead y
      simp only [List.map_cons, enclosed, hy] at h
      exact absurd (List.cons.inj h).1.symm hc
  | cons x xs =>
    cases ys with
    | nil =>
      obtain ⟨c, r, hx, hc⟩ := hhead x
      simp only [List.map_cons, enclosed, hx] at h
      exact absurd (List.cons.inj h).1 hc
    | cons y ys =>
      obtain ⟨hsame, hrest⟩ := hitem x List.mem_cons_self y List.mem_cons_self _ _
        (stops_following hclosing _ _) (stops_following hclosing _ _) h
      obtain ⟨hall, hend⟩ := forall₂_of_following hclosing
        (fun x hx y hy => hitem x (List.mem_cons_of_mem _ hx) y (List.mem_cons_of_mem _ hy)) hrest
      exact ⟨.cons hsame hall, hend⟩

theorem forall₂_of_bracketed {text : α → String} (level : Nat) (opening : Char) (hclosing : closing ∈ [']', '\x7d'])
    {xs ys : List α} {rest rest' : List Char}
    (hitem : ∀ x ∈ xs, ∀ y ∈ ys, ∀ r r', Stops r → Stops r' → (text x).toList ++ r = (text y).toList ++ r' →
      same x y ∧ r = r')
    (hhead : ∀ x, ∃ c r, (text x).toList = c :: r ∧ c ≠ closing)
    (h : (bracketed none level (String.singleton opening) (String.singleton closing) (xs.map text)).toList ++ rest =
      (bracketed none level (String.singleton opening) (String.singleton closing) (ys.map text)).toList ++ rest') :
    List.Forall₂ same xs ys ∧ rest = rest' := by
  rw [toList_bracketed_append, toList_bracketed_append, List.map_map, List.map_map] at h
  exact forall₂_of_enclosed hclosing hitem hhead (List.cons.inj h).2

end Items

def opening : Json → Char
  | null => 'n'
  | bool true => 't'
  | bool false => 'f'
  | number _ => '0'
  | text _ => '"'
  | list _ => '['
  | object _ => '\x7b'

def openingOf (c : Char) : Char :=
  if c ∈ ['n', 't', 'f', '"', '[', '\x7b'] then c else '0'

theorem exists_writeAt_eq_cons (level : Nat) (j : Json) : ∃ c rest, (writeAt none level j).toList = c :: rest ∧
    c ∉ [']', '\x7d'] ∧ openingOf c = opening j := by
  cases j with
  | null =>
    rw [writeAt]
    exact ⟨'n', _, rfl, by decide, rfl⟩
  | bool b =>
    cases b with
    | false =>
      rw [writeAt]
      exact ⟨'f', _, rfl, by decide, rfl⟩
    | true =>
      rw [writeAt]
      exact ⟨'t', _, rfl, by decide, rfl⟩
  | number n =>
    obtain ⟨c, rest, htext, hc⟩ := exists_numberText_eq_cons n
    have hother {cs : List Char} (hcs : cs ⊆ ['n', 't', 'f', '"', '[', ']', '\x7b', '\x7d']) : c ∉ cs :=
      fun h => hc (hcs h)
    rw [writeAt]
    exact ⟨c, rest, htext, hother (by decide), if_neg (hother (by decide))⟩
  | text s =>
    rw [writeAt]
    exact ⟨'"', _, String.toList_ofList, by decide, rfl⟩
  | list items =>
    have h := toList_bracketed_append level '[' ']' (writeItems none (level + 1) items) []
    rw [List.append_nil] at h
    rw [writeAt]
    exact ⟨'[', _, h, by decide, rfl⟩
  | object members =>
    have h := toList_bracketed_append level '\x7b' '\x7d'
      (((writeMembers none (level + 1) members).mergeSort fun a b => !decide (b.1 < a.1)).map (·.2)) []
    rw [List.append_nil] at h
    rw [writeAt]
    exact ⟨'\x7b', _, h, by decide, rfl⟩

theorem opening_eq {level : Nat} {a b : Json} {rest rest' : List Char}
    (h : (writeAt none level a).toList ++ rest = (writeAt none level b).toList ++ rest') : opening a = opening b := by
  obtain ⟨c, tail, ha, -, hca⟩ := exists_writeAt_eq_cons level a
  obtain ⟨d, tail', hb, -, hdb⟩ := exists_writeAt_eq_cons level b
  rw [ha, hb, List.cons_append, List.cons_append] at h
  rw [← hca, ← hdb, (List.cons.inj h).1]

inductive Alike : Json → Json → Prop
  | null : Alike null null
  | bool (b : Bool) : Alike (bool b) (bool b)
  | number (m n : Number) : Alike (number m) (number n)
  | text (s t : WideText) : Alike (text s) (text t)
  | list (items items' : List Json) : Alike (list items) (list items')
  | object (members members' : List (String × Json)) : Alike (object members) (object members')

theorem alike_of_opening_eq {a b : Json} (h : opening a = opening b) : Alike a b := by
  unfold opening at h
  split at h <;> split at h <;> first | constructor | exact absurd h (by decide)

theorem takeWhile_append_of_stops {cs rest : List Char} (hcs : ∀ c ∈ cs, c ∈ numberChars) (hrest : Stops rest) :
    (cs ++ rest).takeWhile (· ∈ numberChars) = cs := by
  have hstop : rest.takeWhile (· ∈ numberChars) = [] := by
    cases rest with
    | nil => rfl
    | cons c rest =>
      have hno : ∀ c ∈ [',', ']', '\x7d'], c ∉ numberChars := List.all_iff_forall_prop.mp (by decide)
      exact List.takeWhile_cons_of_neg (by simpa using hno c (hrest c rfl))
  rw [List.takeWhile_append_of_pos (by simpa using hcs), hstop, List.append_nil]

theorem number_append_inj {m n : Number} (hm : m.Representable) (hn : n.Representable) {rest rest' : List Char}
    (hrest : Stops rest) (hrest' : Stops rest')
    (h : (numberText m).toList ++ rest = (numberText n).toList ++ rest') : m = n ∧ rest = rest' := by
  have htext := congrArg (List.takeWhile (· ∈ numberChars)) h
  rw [takeWhile_append_of_stops (fun c => mem_numberChars) hrest,
    takeWhile_append_of_stops (fun c => mem_numberChars) hrest'] at htext
  refine ⟨numberText_inj hm hn (String.toList_inj.mp htext), ?_⟩
  rw [htext] at h
  exact List.append_cancel_left h

theorem map_eq_map_of_forall₂ {α β : Type} {f : α → β} {xs ys : List α}
    (h : List.Forall₂ (fun x y => f x = f y) xs ys) : xs.map f = ys.map f := by
  induction h with
  | nil => rfl
  | cons hxy _ ih => rw [List.map_cons, List.map_cons, hxy, ih]

/-- Two values that are told by their texts up to the order of members, wherever those texts end. -/
def Told (level : Nat) (a b : Json) : Prop :=
  ∀ rest rest', Stops rest → Stops rest' →
    (writeAt none level a).toList ++ rest = (writeAt none level b).toList ++ rest' →
    a.canonical = b.canonical ∧ rest = rest'

theorem told_list {level : Nat} {items items' : List Json}
    (hitems : ∀ x ∈ items, ∀ y ∈ items', Told (level + 1) x y) : Told level (list items) (list items') := by
  intro rest rest' _ _ h
  rw [writeAt, writeAt, writeItems_eq_map, writeItems_eq_map] at h
  have hhead (x : Json) : ∃ c r, (writeAt none (level + 1) x).toList = c :: r ∧ c ≠ ']' := by
    obtain ⟨c, r, htext, hc, -⟩ := exists_writeAt_eq_cons (level + 1) x
    exact ⟨c, r, htext, fun h => hc (h ▸ List.mem_cons_self)⟩
  obtain ⟨hsame, hends⟩ := forall₂_of_bracketed level '[' (by decide) (fun x hx y hy => hitems x hx y hy) hhead h
  rw [canonical, canonical, canonicalItems_eq_map, canonicalItems_eq_map, map_eq_map_of_forall₂ hsame]
  exact ⟨rfl, hends⟩

theorem canonical_object (members : List (String × Json)) :
    canonical (object members) = object ((members.mergeSort nameLe).map fun m => (m.1, m.2.canonical)) := by
  have hsort := map_mergeSort_of_names (fun _ => rfl : ∀ m : String × Json, (m.1, canonical m.2).1 = m.1) members
  rw [canonical, canonicalMembers_eq_map]
  exact congrArg object hsort

theorem toList_memberText_append (level : Nat) (m : String × Json) (rest : List Char) :
    (memberText level m).toList ++ rest =
      (quoted m.1).toList ++ (':' :: ' ' :: ((writeAt none level m.2).toList ++ rest)) := by
  rw [memberText, String.toList_append, String.toList_append, List.append_assoc, List.append_assoc]
  rfl

theorem told_object {level : Nat} {members members' : List (String × Json)}
    (hmembers : ∀ m ∈ members, ∀ n ∈ members', Told (level + 1) m.2 n.2) :
    Told level (object members) (object members') := by
  intro rest rest' _ _ h
  rw [writeAt, writeAt] at h
  rw [texts_of_sorted, texts_of_sorted] at h
  have hmember : ∀ m ∈ members.mergeSort nameLe, ∀ n ∈ members'.mergeSort nameLe, ∀ r r', Stops r → Stops r' →
      (memberText (level + 1) m).toList ++ r = (memberText (level + 1) n).toList ++ r' →
      (m.1, m.2.canonical) = (n.1, n.2.canonical) ∧ r = r' := by
    intro m hm n hn r r' hr hr' heq
    rw [toList_memberText_append, toList_memberText_append] at heq
    obtain ⟨hname, hvalue⟩ := quoted_append_inj heq
    obtain ⟨hsame, hends⟩ := hmembers m (List.mem_mergeSort.mp hm) n (List.mem_mergeSort.mp hn) r r' hr hr'
      (List.cons.inj (List.cons.inj hvalue).2).2
    exact ⟨by rw [WideText.ofString_inj_of_units hname, hsame], hends⟩
  have hhead (m : String × Json) : ∃ c r, (memberText (level + 1) m).toList = c :: r ∧ c ≠ '\x7d' := by
    have htext := toList_memberText_append (level + 1) m []
    rw [List.append_nil, quoted, String.toList_ofList] at htext
    exact ⟨'"', _, htext, by decide⟩
  obtain ⟨hsame, hends⟩ := forall₂_of_bracketed level '\x7b' (by decide) hmember hhead h
  rw [canonical_object, canonical_object, map_eq_map_of_forall₂ hsame]
  exact ⟨rfl, hends⟩

/-- A value is told from its text up to the order of members, and so is where the text ends. -/
theorem told (level : Nat) {a b : Json} (ha : a.Representable) (hb : b.Representable) : Told level a b := by
  -- The first characters give the kinds; then by induction on the size of one of the values.
  induction hsize : sizeOf a using Nat.strong_induction_on generalizing level a b with
  | _ size ih =>
    intro rest rest' hrest hrest' h
    cases alike_of_opening_eq (opening_eq h) with
    | null => exact ⟨rfl, List.append_cancel_left h⟩
    | bool => exact ⟨rfl, List.append_cancel_left h⟩
    | number m n =>
      rw [writeAt, writeAt] at h
      obtain ⟨rfl, hends⟩ := number_append_inj ha hb hrest hrest' h
      exact ⟨rfl, hends⟩
    | text s t =>
      rw [writeAt, writeAt] at h
      obtain ⟨hunits, hends⟩ := quoted_append_inj h
      exact ⟨congrArg text hunits, hends⟩
    | list items items' =>
      refine told_list (fun x hx y hy => ?_) rest rest' hrest hrest' h
      have hsmaller : sizeOf x < size := by
        have hitem := List.sizeOf_lt_of_mem hx
        rw [← hsize, list.sizeOf_spec]
        omega
      exact ih (sizeOf x) hsmaller (level + 1) (representableItems_iff.mp ha x hx) (representableItems_iff.mp hb y hy) rfl
    | object members members' =>
      refine told_object (fun m hm n hn => ?_) rest rest' hrest hrest' h
      have hsmaller : sizeOf m.2 < size := by
        have hmember := List.sizeOf_lt_of_mem hm
        have hpair : sizeOf m = 1 + sizeOf m.1 + sizeOf m.2 := Prod.mk.sizeOf_spec m.1 m.2
        rw [← hsize, object.sizeOf_spec]
        omega
      exact ih (sizeOf m.2) hsmaller (level + 1) (representableMembers_iff.mp ha m hm)
        (representableMembers_iff.mp hb n hn) rfl

theorem canonical_eq_of_write_eq {a b : Json} (ha : a.Representable) (hb : b.Representable)
    (h : a.write none = b.write none) : a.canonical = b.canonical := by
  have hends : Stops [] := by
    intro c hc
    cases hc
  refine (told 0 ha hb [] [] hends hends ?_).1
  rw [write, write] at h
  rw [h]

theorem eq_of_perm_of_names {α : Type} {xs ys : List (String × α)} (hperm : xs.Perm ys)
    (hnames : xs.map (·.1) = ys.map (·.1)) (hdistinct : (xs.map (·.1)).Nodup) : xs = ys := by
  induction xs generalizing ys with
  | nil => exact (List.nil_perm.mp hperm).symm
  | cons x xs ih =>
    cases ys with
    | nil => exact absurd hnames (by simp)
    | cons y ys =>
      obtain ⟨hfirst, hrest⟩ := List.cons.inj hnames
      have hx : x = y := by
        rcases List.mem_cons.mp (hperm.mem_iff.mp List.mem_cons_self) with h | h
        · exact h
        · have hlater : x.1 ∈ xs.map (·.1) := hrest ▸ List.mem_map_of_mem h
          exact absurd hlater (List.nodup_cons.mp hdistinct).1
      subst hx
      rw [ih (List.perm_cons x |>.mp hperm) hrest (List.nodup_cons.mp hdistinct).2]

/-- Objects that are equal up to the order of members, and whose names stand in one order, have the
same members up to the order further inside. -/
theorem members_eq_of_canonical_eq {members members' : List (String × Json)}
    (h : (object members).canonical = (object members').canonical)
    (hnames : members.map (·.1) = members'.map (·.1)) (hdistinct : (members.map (·.1)).Nodup) :
    members.map (fun m => (m.1, m.2.canonical)) = members'.map (fun m => (m.1, m.2.canonical)) := by
  rw [canonical_object, canonical_object] at h
  have hsorted := object.inj h
  -- Sorting is undone by the names, which stand in the same order on both sides.
  refine eq_of_perm_of_names ?_ ?_ ?_
  · have hperm (members : List (String × Json)) := (List.mergeSort_perm members nameLe).map fun m => (m.1, m.2.canonical)
    exact (hperm members).symm.trans (hsorted ▸ hperm members')
  · simpa [List.map_map, Function.comp_def] using hnames
  · simpa [List.map_map, Function.comp_def] using hdistinct

end Json

end SchemaInference
