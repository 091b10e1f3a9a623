import Mathlib.Data.List.Basic

set_option autoImplicit false

namespace SchemaInference

def sortTexts (texts : List String) : List String :=
  texts.mergeSort fun a b => !decide (b < a)

theorem sortTexts_perm (texts : List String) : (sortTexts texts).Perm texts :=
  List.mergeSort_perm _ _

theorem sortTexts_pairwise (texts : List String) : (sortTexts texts).Pairwise (· ≤ ·) := by
  have htrans (a b c : String) (hab : (!decide (b < a)) = true) (hbc : (!decide (c < b)) = true) :
      (!decide (c < a)) = true := by
    simp only [Bool.not_eq_true', decide_eq_false_iff_not] at hab hbc ⊢
    exact String.le_trans hab hbc
  have htotal (a b : String) : (!decide (b < a) || !decide (a < b)) = true := by
    simp only [Bool.or_eq_true, Bool.not_eq_true', decide_eq_false_iff_not]
    exact String.le_total a b
  refine (List.pairwise_mergeSort htrans htotal texts).imp fun hle => ?_
  exact String.not_lt.mp (by simpa only [Bool.not_eq_true', decide_eq_false_iff_not] using hle)

theorem sortTexts_eq_iff {texts others : List String} : sortTexts texts = sortTexts others ↔ texts.Perm others := by
  refine ⟨fun h => ?_, fun h => ?_⟩
  · exact (sortTexts_perm texts).symm.trans (h ▸ sortTexts_perm others)
  · exact List.Perm.eq_of_pairwise (fun _ _ _ _ => String.le_antisymm) (sortTexts_pairwise texts)
      (sortTexts_pairwise others) ((sortTexts_perm texts).trans (h.trans (sortTexts_perm others).symm))

theorem sortTexts_of_pairwise {texts : List String} (h : texts.Pairwise (· ≤ ·)) : sortTexts texts = texts :=
  List.Perm.eq_of_pairwise (fun _ _ _ _ => String.le_antisymm) (sortTexts_pairwise texts) h (sortTexts_perm texts)

variable (sep : Char)

def joinTexts (texts : List String) : String :=
  (String.singleton sep).intercalate texts

/-- The pieces of texts between the separators in them.  Without any text there is an empty piece. -/
def piecesOf (texts : List String) : List (List Char) :=
  if texts.isEmpty then [[]] else texts.flatMap fun t => t.toList.splitOn sep

theorem splitOn_joinTexts (texts : List String) : (joinTexts sep texts).toList.splitOn sep = piecesOf sep texts := by
  rw [joinTexts, String.toList_intercalate, String.toList_singleton]
  induction texts with
  | nil => rfl
  | cons t rest ih =>
    cases rest with
    | nil => simp [piecesOf]
    | cons u rest =>
      rw [List.map_cons, List.map_cons, List.intercalate_cons_cons, List.append_assoc, List.singleton_append,
        List.splitOn_append_cons_self, ← List.map_cons, ih]
      rfl

theorem joinTexts_eq_iff {texts others : List String} :
    joinTexts sep texts = joinTexts sep others ↔ piecesOf sep texts = piecesOf sep others := by
  have hback (t : String) : [sep].intercalate (t.toList.splitOn sep) = t.toList := List.intercalate_splitOn sep
  rw [← splitOn_joinTexts, ← splitOn_joinTexts]
  refine ⟨fun h => by rw [h], fun h => String.toList_injective ?_⟩
  rw [← hback, h, hback]

theorem piecesOf_of_notMem {texts : List String} (hsome : texts ≠ []) (h : ∀ t ∈ texts, sep ∉ t.toList) :
    piecesOf sep texts = texts.map String.toList := by
  rw [piecesOf, if_neg (by simpa using hsome)]
  clear hsome
  induction texts with
  | nil => rfl
  | cons t rest ih =>
    obtain ⟨ht, hrest⟩ := List.forall_mem_cons.mp h
    rw [List.flatMap_cons, List.splitOn_eq_singleton ht, ih hrest, List.map_cons, List.singleton_append]

theorem joinTexts_ne_of_notMem {texts : List String} (hsome : texts ≠ []) (h : ∀ t ∈ texts, sep ∉ t.toList)
    (hblank : texts ≠ [""]) : joinTexts sep texts ≠ joinTexts sep [] := by
  intro hjoined
  rw [joinTexts_eq_iff, piecesOf_of_notMem sep hsome h] at hjoined
  obtain ⟨t, rfl, ht⟩ := List.map_eq_singleton_iff.mp hjoined
  exact hblank (by rw [String.toList_eq_nil_iff.mp ht])

/-- Texts without the separator can be told from what they are joined to, but that no text at all is joined to
the same as an empty one. -/
theorem joinTexts_inj {texts others : List String} (h : ∀ t ∈ texts, sep ∉ t.toList)
    (hblank : texts ≠ [""]) (h' : ∀ t ∈ others, sep ∉ t.toList) (hblank' : others ≠ [""])
    (hjoined : joinTexts sep texts = joinTexts sep others) : texts = others := by
  by_cases hnone : texts = []
  · by_contra hother
    subst hnone
    exact joinTexts_ne_of_notMem sep (Ne.symm hother) h' hblank' hjoined.symm
  · by_cases hnone' : others = []
    · subst hnone'
      exact absurd hjoined (joinTexts_ne_of_notMem sep hnone h hblank)
    · rw [joinTexts_eq_iff, piecesOf_of_notMem sep hnone h, piecesOf_of_notMem sep hnone' h'] at hjoined
      exact List.map_injective_iff.mpr (fun _ _ => String.toList_injective) hjoined

end SchemaInference
