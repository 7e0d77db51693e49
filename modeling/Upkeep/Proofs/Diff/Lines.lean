/-
**The lines that hunks show.**

The script that is shown may still name wrong places for what is deleted or inserted, and then the
headers of hunks count wrong.  But another script names the right places and shows the same lines in
the same groups, and its hunks account for all differences.  So the lines of hunks can be trusted
whatever their headers say: those that are kept or removed stand one after the other in the old list,
and what is removed and added of any text makes up the difference.

Main definitions:

* `Upkeep.Diff.Edit.Alike` — edits that show the same lines;
* `Upkeep.Diff.Waiting.Covers` — where the edits that wait to be joined lead.

Main results:

* `Upkeep.Diff.exists_script` — some script shows what the tidied one shows;
* `Upkeep.Diff.exists_spans` — **some hunks with the same lines account for all differences**;
* `Upkeep.Diff.oldLines_of_mem_hunks` — the old lines of a hunk are a stretch of the old list;
* `Upkeep.Diff.count_hunks` — **how many lines with a text are removed and added**.
-/

import Mathlib.Data.List.Forall2
import Upkeep.Proofs.Diff.Hunk
import Upkeep.Proofs.Diff.Loose

set_option relaxedAutoImplicit false
set_option autoImplicit false

namespace Upkeep

namespace Diff

variable {old new : List String} {i j k l i' j' : Nat} {es es' : List Edit}

/-! ### Edits that show the same -/

/-- Edits that show the same lines of two lists: where one shows nothing of a list, its place there does
not matter. -/
inductive Edit.Alike : Edit → Edit → Prop
  | keep (i j n : Nat) : Alike (.keep i j n) (.keep i j n)
  | delete (i j j' n : Nat) : Alike (.delete i j n) (.delete i j' n)
  | insert (i i' j n : Nat) : Alike (.insert i j n) (.insert i' j n)
  | replace (i n j m : Nat) : Alike (.replace i n j m) (.replace i n j m)

/-- Some edits that lead from one pair of places to another show the same as the given ones. -/
def Settles (old new : List String) (i j : Nat) (es : List Edit) (i' j' : Nat) : Prop :=
  ∃ es', List.Forall₂ Edit.Alike es es' ∧ Leads old new i j es' i' j'

theorem settles_nil : Settles old new i j [] i j := ⟨[], .nil, rfl, rfl⟩

theorem Settles.append {fs : List Edit} (h : Settles old new i j es k l)
    (h' : Settles old new k l fs i' j') : Settles old new i j (es ++ fs) i' j' := by
  obtain ⟨es', hes, hleads⟩ := h
  obtain ⟨fs', hfs, hleads'⟩ := h'
  exact ⟨es' ++ fs', List.rel_append hes hfs, hleads.append hleads'⟩

theorem settles_one {e e' : Edit} (h : e.Alike e') (hf : e'.Fits old new) :
    Settles old new e'.oldStart e'.newStart [e] e'.oldEnd e'.newEnd :=
  ⟨[e'], .cons h .nil, rfl, rfl, hf, rfl, rfl⟩

theorem Settles.le_length (h : Settles old new i j es i' j') (hi : i ≤ old.length)
    (hj : j ≤ new.length) : i' ≤ old.length ∧ j' ≤ new.length := by
  obtain ⟨_, -, hleads⟩ := h
  exact hleads.le_length hi hj

/-! ### Joining -/

/-- The edits that wait to be joined lead from one pair of places to another. -/
inductive Waiting.Covers (old new : List String) : Waiting → Nat → Nat → Nat → Nat → Prop
  | none (i j : Nat) : Covers old new .none i j i j
  | kept {i j n : Nat} (h : (Edit.keep i j n).Fits old new) :
      Covers old new ⟨some (i, j, n), Option.none, Option.none⟩ i j (i + n) (j + n)
  | deleted {i j n : Nat} (b : Nat) (h : i + n ≤ old.length) :
      Covers old new ⟨Option.none, some (i, b, n), Option.none⟩ i j (i + n) j
  | inserted {i j m : Nat} (a : Nat) (h : j + m ≤ new.length) :
      Covers old new ⟨Option.none, Option.none, some (a, j, m)⟩ i j i (j + m)
  | changed {i j n m : Nat} (a b : Nat) (h : i + n ≤ old.length) (h' : j + m ≤ new.length) :
      Covers old new ⟨Option.none, some (i, b, n), some (a, j, m)⟩ i j (i + n) (j + m)

namespace Waiting.Covers

variable {w : Waiting}

/-- What waits is settled when it is told. -/
theorem settles (h : w.Covers old new i j k l) (hi : i ≤ old.length) (hj : j ≤ new.length) :
    Settles old new i j (w.keptEdits ++ w.changedEdits) k l := by
  cases h with
  | none => exact settles_nil
  | kept hf => exact settles_one (.keep i j _) hf
  | @deleted _ _ n b hn => exact settles_one (.delete i b j n) ⟨hn, hj, fun h => by cases h⟩
  | @inserted _ _ m a hm => exact settles_one (.insert a i j m) ⟨hi, hm, fun h => by cases h⟩
  | @changed _ _ n m a b hn hm =>
      exact settles_one (.replace i n j m) ⟨hn, hm, fun h => by cases h⟩

/-- Kept lines join kept ones; what else waits is told. -/
theorem keep (h : w.Covers old new i j k l) (hi : i ≤ old.length) (hj : j ≤ new.length) {n : Nat}
    (hf : (Edit.keep k l n).Fits old new) :
    ∃ p q, Settles old new i j w.changedEdits p q ∧
      Covers old new ⟨extended w.kept k l n, Option.none, Option.none⟩ p q (k + n) (l + n) := by
  have hsettles := h.settles hi hj
  cases h with
  | none => exact ⟨i, j, settles_nil, .kept hf⟩
  | @kept _ _ m hf' =>
      refine ⟨i, j, settles_nil, ?_⟩
      rw [Nat.add_assoc, Nat.add_assoc]
      exact .kept (hf'.keep_append hf)
  | deleted b hn => exact ⟨_, _, hsettles, .kept hf⟩
  | inserted a hm => exact ⟨_, _, hsettles, .kept hf⟩
  | changed a b hn hm => exact ⟨_, _, hsettles, .kept hf⟩

/-- Deleted lines join what is changed; kept lines are told. -/
theorem delete (h : w.Covers old new i j k l) (hi : i ≤ old.length) (hj : j ≤ new.length) (b : Nat)
    {n : Nat} (hn : k + n ≤ old.length) :
    ∃ p q, Settles old new i j w.keptEdits p q ∧
      Covers old new ⟨Option.none, extended w.deleted k b n, w.inserted⟩ p q (k + n) l := by
  have hsettles := h.settles hi hj
  cases h with
  | none => exact ⟨i, j, settles_nil, .deleted b hn⟩
  | kept hf => exact ⟨_, _, hsettles, .deleted b hn⟩
  | deleted b' hn' =>
      refine ⟨i, j, settles_nil, ?_⟩
      rw [Nat.add_assoc] at hn ⊢
      exact .deleted b' hn
  | inserted a hm => exact ⟨i, j, settles_nil, .changed a b hn hm⟩
  | changed a b' hn' hm =>
      refine ⟨i, j, settles_nil, ?_⟩
      rw [Nat.add_assoc] at hn ⊢
      exact .changed a b' hn hm

/-- Inserted lines join what is changed; kept lines are told. -/
theorem insert (h : w.Covers old new i j k l) (hi : i ≤ old.length) (hj : j ≤ new.length) (a : Nat)
    {m : Nat} (hm : l + m ≤ new.length) :
    ∃ p q, Settles old new i j w.keptEdits p q ∧
      Covers old new ⟨Option.none, w.deleted, extended w.inserted a l m⟩ p q k (l + m) := by
  have hsettles := h.settles hi hj
  cases h with
  | none => exact ⟨i, j, settles_nil, .inserted a hm⟩
  | kept hf => exact ⟨_, _, hsettles, .inserted a hm⟩
  | deleted b hn => exact ⟨i, j, settles_nil, .changed a b hn hm⟩
  | inserted a' hm' =>
      refine ⟨i, j, settles_nil, ?_⟩
      rw [Nat.add_assoc] at hm ⊢
      exact .inserted a' hm
  | changed a' b hn hm' =>
      refine ⟨i, j, settles_nil, ?_⟩
      rw [Nat.add_assoc] at hm ⊢
      exact .changed a' b hn hm

end Waiting.Covers

/-- Joining the edits of a script that is right where it shows lines settles it.  The induction is on
what is left; what waits covers the way from where the last told edit ends. -/
theorem Loose.settles_joinFrom {w : Waiting} (h : Loose old new k l es i' j')
    (hw : w.Covers old new i j k l) (hi : i ≤ old.length) (hj : j ≤ new.length) :
    Settles old new i j (joinFrom w es) i' j' := by
  induction es generalizing w i j k l with
  | nil =>
      obtain ⟨rfl, rfl⟩ := h
      exact hw.settles hi hj
  | cons e es ih =>
      cases e with
      | keep a b n =>
          obtain ⟨rfl, rfl, hf, h⟩ := h
          obtain ⟨p, q, hsettles, hw⟩ := hw.keep hi hj hf
          obtain ⟨hp, hq⟩ := hsettles.le_length hi hj
          exact hsettles.append (ih h hw hp hq)
      | delete a b n =>
          obtain ⟨rfl, hn, h⟩ := h
          obtain ⟨p, q, hsettles, hw⟩ := hw.delete hi hj b hn
          obtain ⟨hp, hq⟩ := hsettles.le_length hi hj
          exact hsettles.append (ih h hw hp hq)
      | insert a b n =>
          obtain ⟨rfl, hn, h⟩ := h
          obtain ⟨p, q, hsettles, hw⟩ := hw.insert hi hj a hn
          obtain ⟨hp, hq⟩ := hsettles.le_length hi hj
          exact hsettles.append (ih h hw hp hq)
      | replace a n b m => exact absurd h not_loose_replace

/-- Some script shows what the tidied one shows. -/
theorem exists_script (old new : List String) :
    ∃ es, List.Forall₂ Edit.Alike (script old new) es ∧ IsScript old new es :=
  (loose_compact (loose_rawScript old new)).settles_joinFrom (.none 0 0) (Nat.zero_le _)
    (Nat.zero_le _)

/-! ### Groups -/

theorem Edit.Alike.refl (e : Edit) : e.Alike e := by
  cases e with
  | keep i j n => exact .keep i j n
  | delete i j n => exact .delete i j j n
  | insert i j n => exact .insert i i j n
  | replace i n j m => exact .replace i n j m

theorem Edit.Alike.hunkLines_eq {e e' : Edit} (h : e.Alike e') :
    e.hunkLines old new = e'.hunkLines old new := by
  cases h with
  | keep i j n => rfl
  | delete i j j' n =>
      simp [Edit.hunkLines, Edit.oldLines, Edit.newLines, Edit.newLength, Edit.oldStart,
        Edit.oldLength]
  | insert i i' j n =>
      simp [Edit.hunkLines, Edit.oldLines, Edit.newLines, Edit.newLength, Edit.newStart,
        Edit.oldLength]
  | replace i n j m => rfl

theorem alike_trimFirst (context : Nat) (h : List.Forall₂ Edit.Alike es es') :
    List.Forall₂ Edit.Alike (trimFirst context es) (trimFirst context es') := by
  cases h with
  | nil => exact .nil
  | cons he h =>
      cases he with
      | keep i j n => exact .cons (.refl _) h
      | delete i j j' n => exact .cons (.delete i j j' n) h
      | insert i i' j n => exact .cons (.insert i i' j n) h
      | replace i n j m => exact .cons (.replace i n j m) h

theorem alike_trimLast (context : Nat) (h : List.Forall₂ Edit.Alike es es') :
    List.Forall₂ Edit.Alike (trimLast context es) (trimLast context es') := by
  induction h with
  | nil => exact .nil
  | cons he h ih =>
      cases h with
      | nil =>
          cases he with
          | keep i j n => exact .cons (.refl _) .nil
          | delete i j j' n => exact .cons (.delete i j j' n) .nil
          | insert i i' j n => exact .cons (.insert i i' j n) .nil
          | replace i n j m => exact .cons (.replace i n j m) .nil
      | cons he' h =>
          rw [trimLast, trimLast]
          exact .cons he ih

theorem alike_lastGroup (h : List.Forall₂ Edit.Alike es es') :
    List.Forall₂ (List.Forall₂ Edit.Alike) (lastGroup es) (lastGroup es') := by
  cases h with
  | nil => exact .nil
  | cons he h =>
      cases h with
      | nil =>
          cases he with
          | keep i j n => exact .nil
          | delete i j j' n => exact .cons (.cons (.delete i j j' n) .nil) .nil
          | insert i i' j n => exact .cons (.cons (.insert i i' j n) .nil) .nil
          | replace i n j m => exact .cons (.cons (.replace i n j m) .nil) .nil
      | cons he' h =>
          rw [lastGroup, lastGroup]
          · exact .cons (.cons he (.cons he' h)) .nil
          all_goals simp

/-- Scripts that show the same do so in the same groups. -/
theorem alike_groupFrom (context : Nat) {building building' : List Edit}
    (hb : List.Forall₂ Edit.Alike building building') (h : List.Forall₂ Edit.Alike es es') :
    List.Forall₂ (List.Forall₂ Edit.Alike) (groupFrom context building es)
      (groupFrom context building' es') := by
  induction h generalizing building building' with
  | nil => exact alike_lastGroup (List.rel_reverse hb)
  | cons he h ih =>
      cases he with
      | keep i j n =>
          rw [groupFrom, groupFrom]
          split
          · exact .cons (List.rel_reverse (.cons (.refl _) hb)) (ih (.cons (.refl _) .nil))
          · exact ih (.cons (.refl _) hb)
      | delete i j j' n => exact ih (.cons (.delete i j j' n) hb)
      | insert i i' j n => exact ih (.cons (.insert i i' j n) hb)
      | replace i n j m => exact ih (.cons (.replace i n j m) hb)

theorem alike_groups (context : Nat) (h : List.Forall₂ Edit.Alike es es') :
    List.Forall₂ (List.Forall₂ Edit.Alike) (groups context es) (groups context es') :=
  alike_groupFrom context .nil (alike_trimLast context (alike_trimFirst context h))

/-! ### Hunks -/

/-- The lines of the hunk of a group. -/
theorem lines_hunkOfGroup? (old new : List String) (g : List Edit) :
    (hunkOfGroup? old new g).map Hunk.lines =
      if g = [] then none else some (collapseMarks (g.flatMap (·.hunkLines old new))) := by
  cases g with
  | nil => rfl
  | cons e g =>
      rw [hunkOfGroup?, List.getLast?_cons, if_neg (by simp)]
      rfl

/-- Groups that show the same have hunks with the same lines. -/
theorem lines_hunkOfGroup?_congr {g g' : List Edit} (h : List.Forall₂ Edit.Alike g g') :
    (hunkOfGroup? old new g).map Hunk.lines = (hunkOfGroup? old new g').map Hunk.lines := by
  have hlines : g.flatMap (·.hunkLines old new) = g'.flatMap (·.hunkLines old new) := by
    induction h with
    | nil => rfl
    | cons he _ ih => rw [List.flatMap_cons, List.flatMap_cons, he.hunkLines_eq, ih]
  have hnil : g = [] ↔ g' = [] := by cases h <;> simp
  rw [lines_hunkOfGroup?, lines_hunkOfGroup?, hlines]
  simp only [hnil]

/-- Scripts that show the same have hunks with the same lines. -/
theorem lines_hunksOf_congr (context : Nat) (h : List.Forall₂ Edit.Alike es es') :
    (hunksOf old new context es).map Hunk.lines = (hunksOf old new context es').map Hunk.lines := by
  have hgroups := alike_groups context h
  rw [hunksOf, hunksOf, List.map_filterMap, List.map_filterMap]
  generalize groups context es = gs at hgroups ⊢
  generalize groups context es' = gs' at hgroups ⊢
  induction hgroups with
  | nil => rfl
  | cons hg _ ih =>
      rw [List.filterMap_cons, List.filterMap_cons, lines_hunkOfGroup?_congr hg, ih]

/-- **Some hunks with the same lines account for all differences.** -/
theorem exists_spans (old new : List String) (context : Nat) :
    ∃ hs, Spans old new 0 0 hs ∧ hs.map Hunk.lines = (hunks old new context).map Hunk.lines := by
  obtain ⟨es, halike, hscript⟩ := exists_script old new
  exact ⟨hunksOf old new context es, spans_hunksOf context hscript,
    (lines_hunksOf_congr context halike).symm⟩

/-- Every hunk has the lines of one that fits, whatever its header says. -/
theorem exists_fits_of_mem_hunks {context : Nat} {h : Hunk} (hh : h ∈ hunks old new context) :
    ∃ h' : Hunk, h'.Fits old new ∧ h'.lines = h.lines := by
  obtain ⟨hs, hspans, hlines⟩ := exists_spans old new context
  have hmem : h.lines ∈ hs.map Hunk.lines := hlines ▸ List.mem_map_of_mem hh
  obtain ⟨h', hh', heq⟩ := List.mem_map.1 hmem
  exact ⟨h', hspans.fits h' hh', heq⟩

/-- The old lines of a hunk are a stretch of the old list, whatever its header says. -/
theorem oldLines_of_mem_hunks {context : Nat} {h : Hunk} (hh : h ∈ hunks old new context) :
    ∃ i, i + h.oldLines.length ≤ old.length ∧ h.oldLines = slice old i h.oldLines.length := by
  obtain ⟨h', hfits, heq⟩ := exists_fits_of_mem_hunks hh
  have hold : h'.oldLines = h.oldLines := by rw [Hunk.oldLines, Hunk.oldLines, heq]
  refine ⟨h'.old.offset, ?_, ?_⟩
  · rw [← hold, hfits.length_oldLines]
    exact hfits.old_le
  · rw [← hold, hfits.length_oldLines]
    exact hfits.oldLines_eq

/-! ### Counting -/

/-- Hunks that account for all differences make up the difference of the counts. -/
theorem Spans.count {hs : List Hunk} (h : Spans old new i j hs) (line : String) :
    (old.drop i).count line + (hs.flatMap Hunk.newLines).count line =
      (new.drop j).count line + (hs.flatMap Hunk.oldLines).count line := by
  induction hs generalizing i j with
  | nil =>
      rw [show old.drop i = new.drop j from h]
      rfl
  | cons a hs ih =>
      obtain ⟨⟨hi, hj, hgap⟩, hf, h⟩ := h
      have hrest := ih h
      -- Both lists are cut into what is before the hunk, what it shows, and what is behind it.
      have hold := slice_append_drop old i (a.old.offset - i)
      have hnew := slice_append_drop new j (a.new.offset - j)
      rw [Nat.add_sub_cancel' hi, ← slice_append_drop old a.old.offset a.old.count,
        ← hf.oldLines_eq] at hold
      rw [Nat.add_sub_cancel' hj, ← slice_append_drop new a.new.offset a.new.count,
        ← hf.newLines_eq] at hnew
      rw [← hold, ← hnew, hgap, List.flatMap_cons, List.flatMap_cons]
      simp only [List.count_append]
      omega

/-- **How many lines with a text are removed and added**: they make up the difference of the counts in
the two lists. -/
theorem count_hunks (old new : List String) (context : Nat) (line : String) :
    old.count line + ((hunks old new context).flatMap Hunk.newLines).count line =
      new.count line + ((hunks old new context).flatMap Hunk.oldLines).count line := by
  obtain ⟨hs, hspans, hlines⟩ := exists_spans old new context
  have hsides : ∀ side : HunkLine → List String,
      hs.flatMap (fun h => h.lines.flatMap side) =
        (hunks old new context).flatMap fun h => h.lines.flatMap side := by
    intro side
    have hflat := congrArg (List.flatMap fun ls : List HunkLine => ls.flatMap side) hlines
    rwa [List.flatMap_map, List.flatMap_map] at hflat
  have hcount := hspans.count line
  rw [List.drop_zero, List.drop_zero] at hcount
  have hold : hs.flatMap Hunk.oldLines = (hunks old new context).flatMap Hunk.oldLines :=
    hsides HunkLine.before
  have hnew : hs.flatMap Hunk.newLines = (hunks old new context).flatMap Hunk.newLines :=
    hsides HunkLine.after
  rwa [hold, hnew] at hcount

end Diff

end Upkeep
