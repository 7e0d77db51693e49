/-
**The hunks of an edit script.**

A hunk shows a group of edits.  When these follow each other without a gap, the hunk shows exactly
the lines of both lists that its header names, also where a block of removed and added lines is shown
as marked lines.  Cutting a script into groups leaves out kept lines and nothing else: the hunks stand
in order, and between two hunks the lists agree line by line.

Main definitions:

* `Upkeep.Diff.Hunk.Fits` — a hunk that shows what its header says;
* `Upkeep.Diff.Spans` — hunks in order that account for all differences between two lists;
* `Upkeep.Diff.Hunk.Before` — one hunk lies before another.

Main results:

* `Upkeep.Diff.collapseMarks_before`, `Upkeep.Diff.collapseMarks_after` — marked lines stand for the
  same old and new lines;
* `Upkeep.Diff.spans_groupFrom` — grouping leaves out kept lines alone;
* `Upkeep.Diff.spans_hunksOf` — **the hunks of an edit script account for all differences**;
* `Upkeep.Diff.Spans.pairwise` — they stand in order and do not overlap.
-/

import Upkeep.Diff.Reader
import Upkeep.Proofs.Diff.Script

set_option relaxedAutoImplicit false
set_option autoImplicit false

namespace Upkeep

namespace Diff

variable {old new : List String}

/-! ### Lines of edits -/

/-- The old lines that an edit shows are those that it covers. -/
theorem before_hunkLines (old new : List String) (e : Edit) :
    (e.hunkLines old new).flatMap HunkLine.before = e.oldLines old := by
  cases e <;> simp [Edit.hunkLines, List.flatMap_map, HunkLine.before]

/-- The new lines that an edit shows are those that it covers. -/
theorem after_hunkLines {e : Edit} (h : e.Fits old new) :
    (e.hunkLines old new).flatMap HunkLine.after = e.newLines new := by
  cases e with
  | keep i j n =>
      rw [← h.kept rfl]
      simp [Edit.hunkLines, List.flatMap_map, HunkLine.after]
  | delete i j n => simp [Edit.hunkLines, List.flatMap_map, HunkLine.after]
  | insert i j n => simp [Edit.hunkLines, List.flatMap_map, HunkLine.after]
  | replace i n j m => simp [Edit.hunkLines, List.flatMap_map, HunkLine.after]

/-- Edits without gaps show the old lines between the places from which and to which they lead. -/
theorem Leads.before_hunkLines {i j i' j' : Nat} {es : List Edit}
    (h : Leads old new i j es i' j') :
    (es.flatMap (·.hunkLines old new)).flatMap HunkLine.before = slice old i (i' - i) := by
  induction es generalizing i j with
  | nil =>
      obtain ⟨rfl, rfl⟩ := leads_nil.1 h
      simp
  | cons e es ih =>
      obtain ⟨rfl, rfl, -, h⟩ := leads_cons.1 h
      have hlen : e.oldLength + (i' - e.oldEnd) = i' - e.oldStart := by
        have := h.le.1
        simp only [Edit.oldEnd] at this ⊢
        omega
      rw [List.flatMap_cons, List.flatMap_append, ih h, Diff.before_hunkLines, Edit.oldLines,
        ← hlen]
      exact slice_append ..

/-- Edits without gaps show the new lines between the places from which and to which they lead. -/
theorem Leads.after_hunkLines {i j i' j' : Nat} {es : List Edit}
    (h : Leads old new i j es i' j') :
    (es.flatMap (·.hunkLines old new)).flatMap HunkLine.after = slice new j (j' - j) := by
  induction es generalizing i j with
  | nil =>
      obtain ⟨rfl, rfl⟩ := leads_nil.1 h
      simp
  | cons e es ih =>
      obtain ⟨rfl, rfl, hf, h⟩ := leads_cons.1 h
      have hlen : e.newLength + (j' - e.newEnd) = j' - e.newStart := by
        have := h.le.2
        simp only [Edit.newEnd] at this ⊢
        omega
      rw [List.flatMap_cons, List.flatMap_append, ih h, Diff.after_hunkLines hf, Edit.newLines,
        ← hlen]
      exact slice_append ..

/-! ### Marked lines -/

/-- A marked line stands for the removed and the added line that it is made of. -/
theorem HunkLine.eq_of_pair? {a b m : HunkLine} (h : pair? a b = some m) :
    ∃ o n, a = removed o ∧ b = added n ∧ m = marked o n := by
  unfold pair? at h
  split at h
  · rename_i o n
    split at h
    · exact ⟨o, n, rfl, rfl, (Option.some.inj h).symm⟩
    · simp at h
  · simp at h

/-- Marked lines made of two lists in step show the old lines of the first and the new lines of the
second, which are all that these show. -/
theorem sides_of_pairs {as bs ms : List HunkLine} (hlen : as.length = bs.length)
    (h : (List.zipWith HunkLine.pair? as bs).mapM id = some ms) :
    ms.flatMap HunkLine.before = (as ++ bs).flatMap HunkLine.before ∧
      ms.flatMap HunkLine.after = (as ++ bs).flatMap HunkLine.after := by
  suffices hs : ms.flatMap HunkLine.before = as.flatMap HunkLine.before ∧
      ms.flatMap HunkLine.after = bs.flatMap HunkLine.after ∧
      as.flatMap HunkLine.after = [] ∧ bs.flatMap HunkLine.before = [] by
    obtain ⟨h₁, h₂, h₃, h₄⟩ := hs
    simp [h₁, h₂, h₃, h₄]
  induction as generalizing bs ms with
  | nil =>
      obtain rfl : bs = [] := List.length_eq_zero_iff.1 hlen.symm
      obtain rfl : ms = [] := by simpa using h.symm
      simp
  | cons a as ih =>
      cases bs with
      | nil => simp at hlen
      | cons b bs =>
          simp only [List.zipWith_cons_cons, List.mapM_cons, id, Option.bind_eq_bind,
            Option.bind_eq_some_iff, Option.pure_def, Option.some.injEq] at h
          obtain ⟨m, hm, ms, hms, rfl⟩ := h
          obtain ⟨o, n, rfl, rfl, rfl⟩ := HunkLine.eq_of_pair? hm
          obtain ⟨h₁, h₂, h₃, h₄⟩ := ih (by simpa using hlen) hms
          simp [HunkLine.before, HunkLine.after, h₁, h₂, h₃, h₄]

/-- A block shows the same lines whether or not it is shown as marked lines. -/
theorem sides_markedBlock (as bs : List HunkLine) :
    ((markedBlock? as bs).getD (as ++ bs)).flatMap HunkLine.before =
        (as ++ bs).flatMap HunkLine.before ∧
      ((markedBlock? as bs).getD (as ++ bs)).flatMap HunkLine.after =
        (as ++ bs).flatMap HunkLine.after := by
  cases h : markedBlock? as bs with
  | none => simp
  | some ms =>
      unfold markedBlock? at h
      split at h
      · rename_i hlen
        exact sides_of_pairs hlen h
      · simp at h

theorem sides_collapseFrom (budget : Nat) (ls : List HunkLine) :
    (collapseFrom budget ls).flatMap HunkLine.before = ls.flatMap HunkLine.before ∧
      (collapseFrom budget ls).flatMap HunkLine.after = ls.flatMap HunkLine.after := by
  fun_induction collapseFrom budget ls with
  | case1 => simp
  | case2 => simp
  | case3 budget l ls _ removed rest added ih =>
      have hsplit : l :: ls = (removed ++ added) ++ rest.dropWhile HunkLine.isAdded := by
        rw [List.append_assoc, List.takeWhile_append_dropWhile, List.takeWhile_append_dropWhile]
      obtain ⟨h₁, h₂⟩ := sides_markedBlock removed added
      rw [hsplit]
      constructor
      · rw [List.flatMap_append, List.flatMap_append, h₁, ih.1]
      · rw [List.flatMap_append, List.flatMap_append, h₂, ih.2]
  | case4 budget l ls _ ih => simp [ih.1, ih.2]

/-- Marked lines stand for the same old lines. -/
theorem collapseMarks_before (ls : List HunkLine) :
    (collapseMarks ls).flatMap HunkLine.before = ls.flatMap HunkLine.before :=
  (sides_collapseFrom ls.length ls).1

/-- Marked lines stand for the same new lines. -/
theorem collapseMarks_after (ls : List HunkLine) :
    (collapseMarks ls).flatMap HunkLine.after = ls.flatMap HunkLine.after :=
  (sides_collapseFrom ls.length ls).2

/-! ### Hunks that fit -/

/-- A hunk that shows what its header says: its stretches lie inside the lists, and its lines are the
old and the new lines of these stretches, as many as are counted. -/
structure Hunk.Fits (old new : List String) (h : Hunk) : Prop where
  old_le : h.old.offset + h.old.count ≤ old.length
  new_le : h.new.offset + h.new.count ≤ new.length
  oldLines_eq : h.oldLines = slice old h.old.offset h.old.count
  newLines_eq : h.newLines = slice new h.new.offset h.new.count

/-- As many kept and removed lines follow the header as it counts. -/
theorem Hunk.Fits.length_oldLines {h : Hunk} (hf : h.Fits old new) :
    h.oldLines.length = h.old.count := by
  rw [hf.oldLines_eq, length_slice hf.old_le]

/-- As many kept and added lines follow the header as it counts. -/
theorem Hunk.Fits.length_newLines {h : Hunk} (hf : h.Fits old new) :
    h.newLines.length = h.new.count := by
  rw [hf.newLines_eq, length_slice hf.new_le]

/-- The hunk of edits without gaps covers what lies between the places from which and to which they
lead, and fits. -/
theorem hunkOfGroup?_of_leads {i j i' j' : Nat} {es : List Edit} (h : Leads old new i j es i' j')
    (hne : es ≠ []) (hi : i ≤ old.length) (hj : j ≤ new.length) :
    ∃ k, hunkOfGroup? old new es = some k ∧ k.old = .between i i' ∧ k.new = .between j j' ∧
      k.Fits old new := by
  obtain ⟨e, he⟩ := Option.isSome_iff_exists.1 (List.isSome_head?.2 hne)
  obtain ⟨l, hl⟩ := Option.isSome_iff_exists.1 (List.getLast?_isSome.2 hne)
  obtain ⟨he₁, he₂⟩ := h.head he
  obtain ⟨hl₁, hl₂⟩ := h.last hl
  have hle := h.le
  have hlen := h.le_length hi hj
  refine ⟨⟨.between i i', .between j j', collapseMarks (es.flatMap (·.hunkLines old new))⟩,
    ?_, rfl, rfl, ?_, ?_, ?_, ?_⟩
  · simp only [hunkOfGroup?, he, hl, he₁, he₂, hl₁, hl₂]
  · simp only [Range.offset_between, Range.count_between]
    omega
  · simp only [Range.offset_between, Range.count_between]
    omega
  · simp only [Hunk.oldLines, collapseMarks_before, h.before_hunkLines, Range.offset_between,
      Range.count_between]
  · simp only [Hunk.newLines, collapseMarks_after, h.after_hunkLines, Range.offset_between,
      Range.count_between]

/-! ### Hunks in order -/

/-- The hunks account for all differences between the lists from a pair of places on: each fits and
stands behind the one before it, and what lies between two hunks, or behind the last one, is equal on
both sides. -/
def Spans (old new : List String) : Nat → Nat → List Hunk → Prop
  | i, j, [] => old.drop i = new.drop j
  | i, j, h :: hs =>
    (i ≤ h.old.offset ∧ j ≤ h.new.offset ∧
      slice old i (h.old.offset - i) = slice new j (h.new.offset - j)) ∧
    h.Fits old new ∧
    Spans old new (h.old.offset + h.old.count) (h.new.offset + h.new.count) hs

/-- Hunks from a pair of places on, seen from before equal lines. -/
theorem Spans.skip {i j d : Nat} {hs : List Hunk} (h : Spans old new (i + d) (j + d) hs)
    (hd : slice old i d = slice new j d) : Spans old new i j hs := by
  cases hs with
  | nil => exact drop_congr hd h
  | cons k hs =>
      obtain ⟨⟨hi, hj, hs'⟩, hf, h⟩ := h
      refine ⟨⟨by omega, by omega, ?_⟩, hf, h⟩
      have ho : k.old.offset - i = d + (k.old.offset - (i + d)) := by omega
      have hn : k.new.offset - j = d + (k.new.offset - (j + d)) := by omega
      rw [ho, hn, ← slice_append, ← slice_append, hd, hs']

/-- A group in front of hunks that begin where it ends. -/
theorem Spans.cons_group {i j i' j' : Nat} {g : List Edit} {gs : List (List Edit)}
    (h : Leads old new i j g i' j') (hne : g ≠ []) (hi : i ≤ old.length) (hj : j ≤ new.length)
    (hs : Spans old new i' j' (gs.filterMap (hunkOfGroup? old new))) :
    Spans old new i j ((g :: gs).filterMap (hunkOfGroup? old new)) := by
  obtain ⟨k, hk, ho, hn, hf⟩ := hunkOfGroup?_of_leads h hne hi hj
  obtain ⟨hi', hj'⟩ := h.le
  rw [List.filterMap_cons_some hk]
  have hoe : k.old.offset + k.old.count = i' := by
    rw [ho, Range.offset_between, Range.count_between]
    omega
  have hne : k.new.offset + k.new.count = j' := by
    rw [hn, Range.offset_between, Range.count_between]
    omega
  refine ⟨⟨?_, ?_, ?_⟩, hf, ?_⟩
  · exact Nat.le_of_eq (by rw [ho, Range.offset_between])
  · exact Nat.le_of_eq (by rw [hn, Range.offset_between])
  · rw [ho, hn, Range.offset_between, Range.offset_between]
    simp
  · rw [hoe, hne]
    exact hs

/-- The last group, or what is left out in its place. -/
theorem spans_lastGroup {i j i' j' : Nat} {g : List Edit} (h : Leads old new i j g i' j')
    (hi : i ≤ old.length) (hj : j ≤ new.length) (hd : old.drop i' = new.drop j') :
    Spans old new i j ((lastGroup g).filterMap (hunkOfGroup? old new)) := by
  unfold lastGroup
  split
  · obtain ⟨rfl, rfl⟩ := leads_nil.1 h
    exact hd
  · obtain ⟨rfl, rfl, hf, h⟩ := leads_cons.1 h
    obtain ⟨rfl, rfl⟩ := leads_nil.1 h
    exact drop_congr hf.of_keep.2.2 hd
  · rename_i hnil _
    exact Spans.cons_group h hnil hi hj hd

/-- The groups of edits without gaps, the group under construction included, make hunks in order.
The induction follows the edits that are left; where kept lines close a group, the lines between the
two contexts are skipped. -/
theorem spans_groupFrom {context k l i j i' j' : Nat} {building es : List Edit}
    (hb : Leads old new k l building.reverse i j) (h : Leads old new i j es i' j')
    (hk : k ≤ old.length) (hl : l ≤ new.length) (hd : old.drop i' = new.drop j') :
    Spans old new k l ((groupFrom context building es).filterMap (hunkOfGroup? old new)) := by
  fun_induction groupFrom context building es generalizing k l i j with
  | case1 building =>
      obtain ⟨rfl, rfl⟩ := leads_nil.1 h
      exact spans_lastGroup hb hk hl hd
  | case2 building a b n es hn ih =>
      obtain ⟨rfl, rfl, hf, h⟩ := leads_cons.1 h
      obtain ⟨ha, hb', hs⟩ := hf.of_keep
      have hfirst : (Edit.keep a b context).Fits old new := by
        simpa using hf.keep_part (d := 0) (m := context) (by omega)
      have hgroup : Leads old new k l (Edit.keep a b context :: building).reverse
          (a + context) (b + context) := by
        rw [List.reverse_cons]
        exact hb.append (leads_cons.2 ⟨rfl, rfl, hfirst, leads_nil.2 ⟨rfl, rfl⟩⟩)
      refine Spans.cons_group hgroup (by simp) hk hl ?_
      -- the kept lines between the two contexts
      have hgap := slice_congr (d := context) (m := n - context - context) hs (by omega)
      have ho : a + context + (n - context - context) = a + (n - context) := by omega
      have hw : b + context + (n - context - context) = b + (n - context) := by omega
      refine Spans.skip (d := n - context - context) ?_ hgap
      rw [ho, hw]
      refine ih ?_ h (by omega) (by omega)
      have hae : a + (n - context) + (n - (n - context)) = a + n := by omega
      have hbe : b + (n - context) + (n - (n - context)) = b + n := by omega
      simpa [hae, hbe] using hf.keep_part (d := n - context) (m := n - (n - context)) (by omega)
  | case3 building a b n es hn ih =>
      obtain ⟨rfl, rfl, hf, h⟩ := leads_cons.1 h
      refine ih ?_ h hk hl
      rw [List.reverse_cons]
      exact hb.append (leads_cons.2 ⟨rfl, rfl, hf, leads_nil.2 ⟨rfl, rfl⟩⟩)
  | case4 building e es hne ih =>
      obtain ⟨rfl, rfl, hf, h⟩ := leads_cons.1 h
      refine ih ?_ h hk hl
      rw [List.reverse_cons]
      exact hb.append (leads_cons.2 ⟨rfl, rfl, hf, leads_nil.2 ⟨rfl, rfl⟩⟩)

/-- **The hunks of an edit script account for all differences**, whatever the context. -/
theorem spans_hunksOf {es : List Edit} (context : Nat) (h : IsScript old new es) :
    Spans old new 0 0 (hunksOf old new context es) := by
  obtain ⟨d, hd, hle, h₁⟩ := trimFirst_leads context h
  obtain ⟨i', j', h₂, hend⟩ := trimLast_leads context h₁ (by simp)
  refine Spans.skip (d := d) ?_ hd
  exact spans_groupFrom (leads_nil.2 ⟨rfl, rfl⟩) h₂ (by omega) (by omega) hend

/-! ### Order -/

/-- One hunk lies before another on both sides. -/
def Hunk.Before (h k : Hunk) : Prop :=
  h.old.offset + h.old.count ≤ k.old.offset ∧ h.new.offset + h.new.count ≤ k.new.offset

theorem Spans.fits {i j : Nat} {hs : List Hunk} (h : Spans old new i j hs) :
    ∀ k ∈ hs, k.Fits old new := by
  induction hs generalizing i j with
  | nil => simp
  | cons a hs ih =>
      obtain ⟨-, hf, h⟩ := h
      exact List.forall_mem_cons.2 ⟨hf, ih h⟩

/-- All hunks lie behind the places from which they are told. -/
theorem Spans.le {i j : Nat} {hs : List Hunk} (h : Spans old new i j hs) :
    ∀ k ∈ hs, i ≤ k.old.offset ∧ j ≤ k.new.offset := by
  induction hs generalizing i j with
  | nil => simp
  | cons a hs ih =>
      obtain ⟨⟨hi, hj, -⟩, -, h⟩ := h
      refine List.forall_mem_cons.2 ⟨⟨hi, hj⟩, ?_⟩
      intro k hk
      have hle := ih h k hk
      omega

/-- **The hunks stand in order and do not overlap.** -/
theorem Spans.pairwise {i j : Nat} {hs : List Hunk} (h : Spans old new i j hs) :
    hs.Pairwise Hunk.Before := by
  induction hs generalizing i j with
  | nil => exact .nil
  | cons a hs ih =>
      obtain ⟨-, -, h⟩ := h
      exact List.pairwise_cons.2 ⟨h.le, ih h⟩

end Diff

end Upkeep
