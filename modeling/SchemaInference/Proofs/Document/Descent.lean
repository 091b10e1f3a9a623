import SchemaInference.Field.Observation
import Mathlib.Data.Finite.Defs
import Mathlib.Data.Fintype.EquivFin
import Mathlib.Order.RelClasses
import Mathlib.Order.WellFounded

/-!
# Going down a document

Which items lie inside an item, directly or further down, and what is asked of documents: that no
container lies inside itself, that keys are texts of which none occurs twice, and that no number is
missing.  Without cycles every way down ends, which is the induction that walks and conformance use.
-/

set_option autoImplicit false

namespace SchemaInference

namespace Graph

variable (g : Graph)

def parts (item : Item) : List Item :=
  match g.container? item with
  | none => []
  | some (.sequence _ items) => items
  | some (.mapping entries) => entries.map (·.2)

def Holds (outer inner : Item) : Prop := inner ∈ g.parts outer

def Reaches : Item → Item → Prop := Relation.ReflTransGen g.Holds

/-- Nothing that the item reaches lies inside itself. -/
def Acyclic (item : Item) : Prop :=
  ∀ inner, g.Reaches item inner → ¬ Relation.TransGen g.Holds inner inner

/-- Every mapping that the item reaches has texts for keys, and none of them twice. -/
def StringKeyed (item : Item) : Prop :=
  ∀ inner entries, g.Reaches item inner → g.entries? inner = some entries →
    ∃ keyed : List (String × Item), entries = keyed.map (fun e => (.text e.1, e.2)) ∧ (keyed.map (·.1)).Nodup

/-- No number that the item reaches is missing. -/
def NanFree (item : Item) : Prop :=
  ∀ inner, g.Reaches item inner → inner ≠ .scalar (.number (.real .nan))

variable {g} {item inner : Item}

theorem Acyclic.of_reaches (h : g.Acyclic item) (hr : g.Reaches item inner) : g.Acyclic inner :=
  fun _ hi => h _ (hr.trans hi)

theorem Acyclic.of_holds (h : g.Acyclic item) (hi : g.Holds item inner) : g.Acyclic inner :=
  h.of_reaches (.single hi)

theorem Acyclic.not_reaches_back (h : g.Acyclic item) (hi : g.Holds item inner) : ¬ g.Reaches inner item :=
  fun hb => h item .refl (Relation.TransGen.head' hi hb)

theorem StringKeyed.of_reaches (h : g.StringKeyed item) (hr : g.Reaches item inner) : g.StringKeyed inner :=
  fun _ _ hi => h _ _ (hr.trans hi)

theorem NanFree.of_reaches (h : g.NanFree item) (hr : g.Reaches item inner) : g.NanFree inner :=
  fun _ hi => h _ (hr.trans hi)

theorem exists_id_of_holds (h : g.Holds item inner) : ∃ id : Fin g.nodes.size, item = .node id := by
  cases item with
  | scalar s => simp [Holds, parts, container?] at h
  | node id =>
    by_cases hid : id < g.nodes.size
    · exact ⟨⟨id, hid⟩, rfl⟩
    · simp [Holds, parts, container?, hid] at h

/-- Without cycles every way down ends: the containers that an item reaches are finitely many, and
going down is a strict order on them. -/
theorem Acyclic.acc (h : g.Acyclic item) : Acc (fun inner outer => g.Holds outer inner) item := by
  let Below (a b : { id : Fin g.nodes.size // g.Reaches item (.node id) }) : Prop :=
    Relation.TransGen g.Holds (.node b.1) (.node a.1)
  have : IsTrans _ Below := ⟨fun _ _ _ hab hbc => hbc.trans hab⟩
  have : Std.Irrefl Below := ⟨fun a ha => h _ a.2 ha⟩
  have wf : WellFounded Below := Finite.wellFounded_of_trans_of_irrefl Below
  have ends : ∀ a : { id : Fin g.nodes.size // g.Reaches item (.node id) },
      Acc (fun inner outer => g.Holds outer inner) (.node a.1) := by
    intro a
    induction a using wf.induction with
    | _ a ih =>
      refine ⟨_, fun inner hi => ?_⟩
      by_cases hp : ∃ deeper, g.Holds inner deeper
      · obtain ⟨deeper, hd⟩ := hp
        obtain ⟨id, rfl⟩ := exists_id_of_holds hd
        exact ih ⟨id, a.2.tail hi⟩ (.single hi)
      · exact ⟨_, fun deeper hd => absurd ⟨deeper, hd⟩ hp⟩
  refine ⟨_, fun inner hi => ?_⟩
  obtain ⟨id, rfl⟩ := exists_id_of_holds hi
  exact (ends ⟨id, .refl⟩).inv hi

theorem Acyclic.induction {motive : Item → Prop} (h : g.Acyclic item)
    (step : ∀ item, g.Acyclic item → (∀ inner, Relation.TransGen g.Holds item inner → motive inner) →
      motive item) : motive item := by
  have ends := h.acc.transGen
  induction ends with
  | intro item _ ih =>
    apply step item h
    intro inner hi
    exact ih inner (Relation.transGen_swap.mpr hi) (h.of_reaches hi.to_reflTransGen)

variable (g) in
def elements (item : Item) : List Item :=
  (g.items? item).getD []

variable (g) in
def valuesUnder (key : String) (item : Item) : List Item :=
  ((g.entries? item).getD []).filterMap fun e => if e.1.display = key then some e.2 else none

variable (g) in
/-- The objects that a value adds below its field: itself, or those directly in the array. -/
def objectsOf (value : Item) : List Item :=
  if g.isMapping value then [value] else (g.elements value).filter g.isMapping

variable (g) in
def objectsUnder (key : String) (item : Item) : List Item :=
  (g.valuesUnder key item).flatMap g.objectsOf

theorem items?_eq_some {items : List Item} :
    g.items? item = some items ↔ ∃ fixed, g.container? item = some (.sequence fixed items) := by
  unfold items?
  split <;> simp_all

theorem entries?_eq_some {entries : List (Value × Item)} :
    g.entries? item = some entries ↔ g.container? item = some (.mapping entries) := by
  unfold entries?
  split <;> simp_all

theorem items?_of_isMapping (h : g.isMapping item) : g.items? item = none := by
  obtain ⟨entries, he⟩ := Option.isSome_iff_exists.mp h
  rw [entries?_eq_some] at he
  simp [items?, he]

theorem elements_of_isMapping (h : g.isMapping item) : g.elements item = [] := by
  simp [elements, items?_of_isMapping h]

theorem holds_of_mem_elements (h : inner ∈ g.elements item) : g.Holds item inner := by
  cases hi : g.items? item with
  | none => simp [elements, hi] at h
  | some items =>
    obtain ⟨fixed, hc⟩ := items?_eq_some.mp hi
    simpa [Holds, parts, hc, elements, hi] using h

theorem holds_of_mem_entries {entries : List (Value × Item)} {e : Value × Item}
    (he : g.entries? item = some entries) (h : e ∈ entries) : g.Holds item e.2 := by
  rw [entries?_eq_some] at he
  simp only [Holds, parts, he]
  exact List.mem_map_of_mem h

theorem mem_valuesUnder {key : String} : inner ∈ g.valuesUnder key item ↔
    ∃ entries, g.entries? item = some entries ∧ ∃ e ∈ entries, e.1.display = key ∧ e.2 = inner := by
  cases he : g.entries? item <;> simp [valuesUnder, he]

theorem holds_of_mem_valuesUnder {key : String} (h : inner ∈ g.valuesUnder key item) : g.Holds item inner := by
  obtain ⟨entries, he, e, hm, -, rfl⟩ := mem_valuesUnder.mp h
  exact holds_of_mem_entries he hm

theorem mem_objectsOf {value : Item} : inner ∈ g.objectsOf value ↔
    g.isMapping inner ∧ (inner = value ∨ inner ∈ g.elements value) := by
  unfold objectsOf
  split
  · rename_i hv
    rw [elements_of_isMapping hv]
    grind
  · grind

theorem reaches_of_mem_objectsOf {value : Item} (h : inner ∈ g.objectsOf value) : g.Reaches value inner := by
  obtain ⟨-, rfl | he⟩ := mem_objectsOf.mp h
  · exact .refl
  · exact .single (holds_of_mem_elements he)

theorem mem_objectsUnder {key : String} : inner ∈ g.objectsUnder key item ↔
    ∃ value ∈ g.valuesUnder key item, inner ∈ g.objectsOf value :=
  List.mem_flatMap

theorem transGen_of_mem_objectsUnder {key : String} (h : inner ∈ g.objectsUnder key item) :
    Relation.TransGen g.Holds item inner := by
  obtain ⟨value, hv, ho⟩ := mem_objectsUnder.mp h
  exact .head' (holds_of_mem_valuesUnder hv) (reaches_of_mem_objectsOf ho)

theorem reaches_of_mem_objectsUnder {key : String} (h : inner ∈ g.objectsUnder key item) :
    g.Reaches item inner :=
  (transGen_of_mem_objectsUnder h).to_reflTransGen

theorem isMapping_of_mem_objectsUnder {key : String} (h : inner ∈ g.objectsUnder key item) :
    g.isMapping inner := by
  obtain ⟨value, -, ho⟩ := mem_objectsUnder.mp h
  exact (mem_objectsOf.mp ho).1

end Graph

def Item.precedes (id : Nat) : Item → Bool
  | .scalar s => s ≠ .number (.real .nan)
  | .node inner => inner < id

def Value.isText : Value → Bool
  | .text _ => true
  | _ => false

theorem Value.isText_iff {v : Value} : v.isText = true ↔ ∃ s, v = .text s := by
  unfold isText
  split <;> simp_all

namespace Graph

def TextKeyed (g : Graph) : Prop :=
  ∀ id < g.nodes.size, (∀ e ∈ (g.entries? (.node id)).getD [], e.1.isText) ∧
    (((g.entries? (.node id)).getD []).map (·.1.display)).Nodup

instance (g : Graph) : Decidable g.TextKeyed :=
  inferInstanceAs (Decidable (∀ id < g.nodes.size, _))

/-- Every container holds only what precedes it, and its keys are different texts. -/
def Layered (g : Graph) : Prop :=
  ∀ id < g.nodes.size, (∀ part ∈ g.parts (.node id), part.precedes id) ∧
    (∀ e ∈ (g.entries? (.node id)).getD [], e.1.isText) ∧
    (((g.entries? (.node id)).getD []).map (·.1.display)).Nodup

instance (g : Graph) : Decidable g.Layered :=
  inferInstanceAs (Decidable (∀ id < g.nodes.size, _))

variable {g : Graph} {item : Item}

theorem Layered.precedes (h : g.Layered) {id : Nat} {inner : Item} (hi : g.Holds (.node id) inner) :
    inner.precedes id := by
  obtain ⟨known, heq⟩ := exists_id_of_holds hi
  cases heq
  exact (h known.1 known.2).1 inner hi

theorem Layered.precedes_of_transGen (h : g.Layered) {id : Nat} {inner : Item}
    (hi : Relation.TransGen g.Holds (.node id) inner) : inner.precedes id := by
  induction hi with
  | single hi => exact h.precedes hi
  | tail _ hi ih =>
    obtain ⟨middle, rfl⟩ := exists_id_of_holds hi
    have hmiddle : middle.1 < id := by simpa [Item.precedes] using ih
    have hinner := h.precedes hi
    unfold Item.precedes at hinner ⊢
    split
    · exact hinner
    · simp only [decide_eq_true_eq] at hinner ⊢
      omega

theorem Layered.acyclic (h : g.Layered) (item : Item) : g.Acyclic item := by
  intro inner _ hloop
  obtain ⟨next, hnext, -⟩ := Relation.TransGen.head'_iff.mp hloop
  obtain ⟨id, rfl⟩ := exists_id_of_holds hnext
  have hless := h.precedes_of_transGen hloop
  simp [Item.precedes] at hless

theorem TextKeyed.stringKeyed (h : g.TextKeyed) (item : Item) : g.StringKeyed item := by
  intro inner entries _ hentries
  cases inner with
  | scalar s => simp [entries?, container?] at hentries
  | node id =>
    have hid : id < g.nodes.size := by
      by_contra hid
      simp [entries?, container?, hid] at hentries
    obtain ⟨htext, hnodup⟩ := h id hid
    rw [hentries, Option.getD_some] at htext hnodup
    refine ⟨entries.map fun e => (e.1.display, e.2), ?_, ?_⟩
    · rw [List.map_map]
      refine (List.map_id entries).symm.trans (List.map_congr_left fun e he => ?_)
      obtain ⟨key, hkey⟩ := Value.isText_iff.mp (htext e he)
      change e = (.text e.1.display, e.2)
      rw [hkey]
      exact Prod.ext hkey rfl
    · rwa [List.map_map]

theorem Layered.stringKeyed (h : g.Layered) (item : Item) : g.StringKeyed item :=
  TextKeyed.stringKeyed (fun id hid => (h id hid).2) item

theorem Layered.nanFree (h : g.Layered) (hmapping : g.isMapping item) : g.NanFree item := by
  rintro inner hreaches rfl
  obtain rfl | ⟨outer, -, houter⟩ := Relation.ReflTransGen.cases_tail hreaches
  · cases hmapping
  · obtain ⟨id, rfl⟩ := exists_id_of_holds houter
    have hprecedes := h.precedes houter
    simp [Item.precedes] at hprecedes

end Graph

end SchemaInference
