import Mathlib.Data.Finset.Insert
import Mathlib.Data.Finset.Dedup
import SchemaInference.Proofs.Text.Joining
import SchemaInference.Sampling.Strategy

set_option autoImplicit false

namespace SchemaInference

namespace Value

/-- A mapping whose keys are texts, each of them there once. -/
def IsRecord (d : Value) : Prop :=
  ∃ entries : List (String × Value), d = record entries ∧ (entries.map (·.1)).Nodup

def shapeKeys : Value → List String
  | mapping entries =>
    (entries.filterMap fun entry => match entry.1 with
      | text k => some k
      | _ => none).filter fun k => k.toList.head? != some '_'
  | _ => []

def shape (d : Value) : Finset String :=
  d.shapeKeys.toFinset

/-- No key of the shape holds a bar, and the empty text is not the only one. -/
structure PlainlyKeyed (d : Value) : Prop where
  noBar : ∀ k ∈ d.shape, '|' ∉ k.toList
  notBlank : d.shape ≠ {""}

theorem shapeKeys_record (entries : List (String × Value)) :
    (record entries).shapeKeys = (entries.map (·.1)).filter fun k => k.toList.head? != some '_' := by
  rw [record, shapeKeys, List.filterMap_map]
  exact congrArg (List.filter _) (congrFun List.filterMap_eq_map' entries)

theorem IsRecord.nodup_shapeKeys {d : Value} (h : d.IsRecord) : d.shapeKeys.Nodup := by
  obtain ⟨entries, rfl, hnodup⟩ := h
  rw [shapeKeys_record]
  exact hnodup.filter _

theorem IsRecord.shape_eq_iff {a b : Value} (ha : a.IsRecord) (hb : b.IsRecord) :
    a.shape = b.shape ↔ a.shapeKeys.Perm b.shapeKeys := by
  rw [List.perm_ext_iff_of_nodup ha.nodup_shapeKeys hb.nodup_shapeKeys, Finset.ext_iff]
  exact forall_congr' fun k => by rw [shape, shape, List.mem_toFinset, List.mem_toFinset]

/-- What is left of the keys of a shape when they are joined: the pieces between bars. -/
def shapePieces (d : Value) : List (List Char) :=
  piecesOf '|' (sortTexts d.shapeKeys)

theorem IsRecord.schemaSignature_eq {d : Value} (h : d.IsRecord) :
    schemaSignature d = joinTexts '|' (sortTexts d.shapeKeys) := by
  obtain ⟨entries, rfl, -⟩ := h
  have hkeys : (entries.map fun e => (text e.1, e.2)).map (fun entry => entry.1.display) = entries.map (·.1) := by
    rw [List.map_map]
    rfl
  rw [shapeKeys_record, ← hkeys]
  rfl

theorem IsRecord.schemaSignature_eq_iff {a b : Value} (ha : a.IsRecord) (hb : b.IsRecord) :
    schemaSignature a = schemaSignature b ↔ a.shapePieces = b.shapePieces := by
  rw [ha.schemaSignature_eq, hb.schemaSignature_eq, joinTexts_eq_iff]
  rfl

theorem IsRecord.schemaSignature_of_shape {a b : Value} (ha : a.IsRecord) (hb : b.IsRecord)
    (hshape : a.shape = b.shape) : schemaSignature a = schemaSignature b := by
  have hsorted := sortTexts_eq_iff.mpr ((ha.shape_eq_iff hb).mp hshape)
  rw [ha.schemaSignature_eq, hb.schemaSignature_eq, hsorted]

theorem PlainlyKeyed.sortTexts_ne {d : Value} (h : d.PlainlyKeyed) : sortTexts d.shapeKeys ≠ [""] := by
  intro hblank
  have hkeys : d.shapeKeys = [""] := List.perm_singleton.mp (hblank ▸ (sortTexts_perm d.shapeKeys).symm)
  exact h.notBlank (by rw [shape, hkeys]; rfl)

theorem PlainlyKeyed.notMem {d : Value} (h : d.PlainlyKeyed) : ∀ k ∈ sortTexts d.shapeKeys, '|' ∉ k.toList :=
  fun k hk => h.noBar k (List.mem_toFinset.mpr ((sortTexts_perm d.shapeKeys).mem_iff.mp hk))

theorem IsRecord.schemaSignature_eq_iff_shape {a b : Value} (ha : a.IsRecord) (hb : b.IsRecord)
    (hplain : a.PlainlyKeyed) (hplain' : b.PlainlyKeyed) :
    schemaSignature a = schemaSignature b ↔ a.shape = b.shape := by
  refine ⟨fun h => ?_, ha.schemaSignature_of_shape hb⟩
  rw [ha.schemaSignature_eq, hb.schemaSignature_eq] at h
  rw [ha.shape_eq_iff hb, ← sortTexts_eq_iff]
  exact joinTexts_inj '|' hplain.notMem hplain.sortTexts_ne hplain'.notMem hplain'.sortTexts_ne h

structure Keyed (d : Value) (keys : List String) : Prop where
  isRecord : d.IsRecord
  shapeKeys : d.shapeKeys = keys

theorem keyed_record {entries : List (String × Value)} {keys : List String} (hkeys : entries.map (·.1) = keys)
    (hnodup : keys.Nodup) (hkept : keys.filter (fun k => k.toList.head? != some '_') = keys) :
    (record entries).Keyed keys where
  isRecord := ⟨entries, rfl, hkeys ▸ hnodup⟩
  shapeKeys := by rw [shapeKeys_record, hkeys, hkept]

variable {d : Value} {keys : List String} (h : d.Keyed keys)
include h

theorem Keyed.shape_eq : d.shape = keys.toFinset := by
  rw [shape, h.shapeKeys]

theorem Keyed.schemaSignature_eq (hsorted : keys.Pairwise (· ≤ ·)) : schemaSignature d = joinTexts '|' keys := by
  rw [h.isRecord.schemaSignature_eq, h.shapeKeys, sortTexts_of_pairwise hsorted]

theorem Keyed.plainlyKeyed (hbar : ∀ k ∈ keys, '|' ∉ k.toList) (hblank : "" ∉ keys) : d.PlainlyKeyed where
  noBar k hk := hbar k (by rwa [h.shape_eq, List.mem_toFinset] at hk)
  notBlank hshape := by
    have hmem : "" ∈ d.shape := hshape ▸ Finset.mem_singleton_self ""
    rw [h.shape_eq, List.mem_toFinset] at hmem
    exact hblank hmem

end Value

end SchemaInference
