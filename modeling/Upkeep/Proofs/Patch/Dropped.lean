/-
**How many lines a deletion drops.**

When the first of equal lines are gone, as many as there were targets with their text, the number of
lines dropped is the number of these targets, or of all equal lines if there were more targets than
lines.

Main definitions:

* `Upkeep.dropped` — the lines that are not left.

Main results:

* `Upkeep.Leaves.sublist` — what is left stands in the text, in order;
* `Upkeep.FirstGone.count_dropped` — **how many equal lines were dropped**.
-/

import Mathlib.Data.List.Sort
import Upkeep.Proofs.Patch.Deletion

set_option relaxedAutoImplicit false
set_option autoImplicit false

namespace Upkeep

variable {base text targets : List String} {kept : List Nat} {line : String}

/-! ### What is left and what was dropped -/

/-- The lines at all places but those that are kept. -/
def dropped (base : List String) (kept : List Nat) : List String :=
  ((List.range base.length).filter (· ∉ kept)).filterMap (base[·]?)

theorem filterMap_getElem?_range (base : List String) :
    (List.range base.length).filterMap (base[·]?) = base := by
  have hmap : (List.range base.length).map (base[·]?) = base.map some := (Leaves.refl base).lines
  calc (List.range base.length).filterMap (base[·]?)
      = ((List.range base.length).map (base[·]?)).filterMap id := by
        rw [List.filterMap_map]
        rfl
    _ = base := by rw [hmap, List.filterMap_map, Function.id_comp, List.filterMap_some]

/-- The lines that are left are those at the places kept. -/
theorem Leaves.filterMap_eq (h : Leaves base text kept) : kept.filterMap (base[·]?) = text := by
  calc kept.filterMap (base[·]?) = (kept.map (base[·]?)).filterMap id := by
        rw [List.filterMap_map]
        rfl
    _ = text := by rw [h.lines, List.filterMap_map, Function.id_comp, List.filterMap_some]

theorem Leaves.nodup (h : Leaves base text kept) : kept.Nodup :=
  h.increasing.imp fun hlt => Nat.ne_of_lt hlt

theorem Leaves.lt_length (h : Leaves base text kept) {i : Nat} (hi : i ∈ kept) :
    i < base.length := by
  obtain ⟨j, hj⟩ := List.mem_iff_getElem?.1 hi
  have hlt : j < text.length := by
    rw [← h.length_eq]
    exact (List.getElem?_eq_some_iff.1 hj).1
  have hline := h.getElem? hj
  rw [List.getElem?_eq_getElem hlt] at hline
  exact (List.getElem?_eq_some_iff.1 hline).1

/-- The lines that are left are lines of the text, in order. -/
theorem Leaves.sublist (h : Leaves base text kept) : text.Sublist base := by
  have hsubset : kept ⊆ List.range base.length := fun i hi => List.mem_range.2 (h.lt_length hi)
  have hkept : kept.Sublist (List.range base.length) :=
    List.sublist_of_subperm_of_pairwise (List.subperm_of_subset h.nodup hsubset) h.increasing
      List.pairwise_lt_range
  have hlines := hkept.filterMap (base[·]?)
  rwa [h.filterMap_eq, filterMap_getElem?_range] at hlines

/-! ### Counting -/

/-- Of the first lines of a text, those with fewer than `n` equal lines above them are `n` of every
text, or all. -/
theorem countP_range_first (base : List String) (line : String) (n m : Nat) :
    (List.range m).countP (fun i => base[i]? == some line && decide ((base.take i).count line < n)) =
      min n ((base.take m).count line) := by
  induction m with
  | zero => simp
  | succ m ih =>
      rw [List.range_succ, List.countP_append, ih, List.countP_singleton]
      by_cases hline : base[m]? = some line
      · rw [count_take_succ hline]
        by_cases hlt : (base.take m).count line < n
        · rw [if_pos (by simp [hline, hlt])]
          omega
        · rw [if_neg (by simp [hlt])]
          omega
      · rw [if_neg (by simp [hline]), count_take_succ_of_ne hline, Nat.add_zero]

/-- **How many equal lines were dropped**: as many as there were targets with their text, or all. -/
theorem FirstGone.count_dropped (h : FirstGone base targets kept)
    (hblank : Text.isBlankLine line = false) :
    (dropped base kept).count line = min (targets.count line) (base.count line) := by
  have hcount := countP_range_first base line (targets.count line) base.length
  rw [List.take_length] at hcount
  rw [← hcount, dropped, List.count_filterMap, List.countP_filter]
  apply List.countP_congr
  intro i _
  by_cases hline : base[i]? = some line
  · simp [hline, h i line hline hblank]
  · simp [hline]

/-- A line that was dropped stood at a place that is not kept. -/
theorem mem_dropped : line ∈ dropped base kept ↔ ∃ i, i ∉ kept ∧ base[i]? = some line := by
  simp only [dropped, List.mem_filterMap, List.mem_filter, List.mem_range, decide_eq_true_eq]
  constructor
  · rintro ⟨i, ⟨-, hi⟩, hline⟩
    exact ⟨i, hi, hline⟩
  · rintro ⟨i, hi, hline⟩
    exact ⟨i, ⟨(List.getElem?_eq_some_iff.1 hline).1, hi⟩, hline⟩

end Upkeep
