/-
**Patches made of lines.**

Files are read as lines, so a working copy holds no line feed unless an edit puts one there: the text
that comes for a line is one entry of the copy, whatever is in it.  A patch is read back from its text
if and only if that never happened, and its headers count right.

Main definitions:

* `Upkeep.Files.Workspace.Lined` — workspaces that hold lines;
* `Upkeep.Files.Work.KeepsLined` — operations that leave such workspaces as they are;
* `Upkeep.LineEdit.Lined`, `Upkeep.Patch.Lined` — edits and patches made of lines.

Main results:

* `Upkeep.Files.Work.KeepsLined.bind`, `Upkeep.Files.Work.KeepsLined.foldlM` — operations made of
  others;
* `Upkeep.Patch.keepsLined_edit` — an edit made of lines;
* `Upkeep.Patch.read?_changes_iff` — **which patches are read back**.
-/

import Upkeep.Proofs.Diff.ReadBack
import Upkeep.Proofs.Patch.Reading

set_option relaxedAutoImplicit false
set_option autoImplicit false

namespace Upkeep

open Diff (OneLine)

/-! ### Workspaces -/

namespace Files

variable {α β : Type} {w w' : Workspace} {f : Path} {ls : List String}

/-- All texts that are held are lines. -/
def Workspace.Lined (w : Workspace) : Prop := ∀ e ∈ w.held, ∀ s ∈ e.2, OneLine s

namespace Workspace

theorem lined_ofDisk (d : Disk) (rereads : Bool) : (ofDisk d rereads).Lined := by
  simp [Lined, ofDisk]

theorem Lined.of_held? (h : w.Lined) (hls : w.held? f = some ls) : ∀ s ∈ ls, OneLine s := by
  obtain ⟨e, he, rfl⟩ := Option.map_eq_some_iff.1 hls
  exact h e (List.mem_of_find?_eq_some he)

theorem Lined.holdLines (h : w.Lined) (f : Path) (hls : ∀ s ∈ ls, OneLine s) :
    (w.holdLines f ls).Lined := by
  rw [Workspace.holdLines]
  split
  · exact h
  · exact List.forall_mem_append.2 ⟨h, List.forall_mem_singleton.2 hls⟩

end Workspace

/-- Files are read as lines. -/
theorem oneLine_of_readLines {d : Disk} (h : readLines d f = .ok ls) : ∀ s ∈ ls, OneLine s := by
  rw [readLines] at h
  split at h
  · cases h
    exact fun s hs => Diff.oneLine_of_mem_lines hs
  · cases h

/-- What patches compare with are lines. -/
theorem Workspace.Lined.of_current (h : w.Lined) (hls : w.Current f ls) : ∀ s ∈ ls, OneLine s := by
  rw [current_iff] at hls
  split at hls
  · exact oneLine_of_readLines hls
  · exact h.of_held? hls

/-! ### Operations -/

variable {P Q : α → Prop} {R : β → Prop}

/-- A workspace that holds lines still does so afterwards, whether the operation succeeds or not, and
every result has the property. -/
def Work.KeepsLined (m : Work α) (Q : α → Prop) : Prop :=
  ∀ w r w', w.Lined → m.on w = (r, w') → w'.Lined ∧ ∀ a, r = .ok a → Q a

namespace Work.KeepsLined

theorem pure {a : α} (h : Q a) : (Pure.pure a : Work α).KeepsLined Q := by
  intro w r w' hw hon
  cases hon
  refine ⟨hw, ?_⟩
  rintro b ⟨⟩
  exact h

theorem lift {r : Outcome α} (h : ∀ a, r = .ok a → Q a) : (liftM r : Work α).KeepsLined Q := by
  intro w r' w' hw hon
  cases r with
  | error e =>
      cases hon
      exact ⟨hw, by simp⟩
  | ok a =>
      cases hon
      exact ⟨hw, h⟩

theorem bind {m : Work α} {k : α → Work β} (hm : m.KeepsLined P)
    (hk : ∀ a, P a → (k a).KeepsLined R) : (m >>= k).KeepsLined R := by
  intro w r w'' hw hon
  rw [on_bind] at hon
  cases hrun : m.on w with
  | mk result w' =>
      rw [hrun] at hon
      obtain ⟨hw', hresult⟩ := hm w result w' hw hrun
      cases result with
      | error e =>
          cases hon
          exact ⟨hw', by simp⟩
      | ok a => exact hk a (hresult a rfl) w' r w'' hw' hon

/-- An operation for the members of a list one after the other, with an invariant of the results. -/
theorem foldlM {γ : Type} {k : β → γ → Work β} {xs : List γ} {b : β} (hb : R b)
    (hk : ∀ b, R b → ∀ x ∈ xs, (k b x).KeepsLined R) : (xs.foldlM k b).KeepsLined R := by
  induction xs generalizing b with
  | nil => exact pure hb
  | cons x xs ih =>
      rw [List.foldlM_cons]
      exact (hk b hb x List.mem_cons_self).bind fun b₁ hb₁ =>
        ih hb₁ fun b' hb' x' hx' => hk b' hb' x' (List.mem_cons_of_mem _ hx')

/-- An operation for every member of a list. -/
theorem mapM {k : α → Work β} (hk : ∀ a, (k a).KeepsLined R) (xs : List α) :
    (xs.mapM k).KeepsLined fun ys => ∀ y ∈ ys, R y := by
  induction xs with
  | nil => exact pure (by simp)
  | cons x xs ih =>
      rw [List.mapM_cons]
      exact (hk x).bind fun y hy => ih.bind fun ys hys => pure (List.forall_mem_cons.2 ⟨hy, hys⟩)

end Work.KeepsLined

theorem keepsLined_heldLines (f : Path) : (heldLines f).KeepsLined fun ls => ∀ s ∈ ls, OneLine s := by
  intro w r w' hw hon
  cases hheld : w.held? f with
  | some held =>
      rw [heldLines_of_held? hheld] at hon
      cases hon
      refine ⟨hw, ?_⟩
      rintro ls ⟨⟩
      exact hw.of_held? hheld
  | none =>
      rw [heldLines_of_none hheld] at hon
      cases hread : readLines w.disk f with
      | error e =>
          rw [hread] at hon
          cases hon
          exact ⟨hw, by simp⟩
      | ok ls =>
          have hls := oneLine_of_readLines hread
          rw [hread] at hon
          cases hon
          refine ⟨hw.holdLines f hls, ?_⟩
          rintro ls' ⟨⟩
          exact hls

theorem keepsLined_currentLines (f : Path) :
    (currentLines f).KeepsLined fun ls => ∀ s ∈ ls, OneLine s := by
  intro w r w' hw hon
  rw [run_currentLines] at hon
  split at hon
  · exact Work.KeepsLined.lift (fun ls => oneLine_of_readLines) w r w' hw hon
  · exact keepsLined_heldLines f w r w' hw hon

theorem keepsLined_heldLine (f : Path) (n : Nat) :
    (heldLine f n).KeepsLined fun found => ∀ line, found = some line → OneLine line := by
  refine (keepsLined_heldLines f).bind fun ls hls => .pure ?_
  intro line hline
  split at hline
  · cases hline
  · exact hls line (List.mem_of_getElem? hline)

end Files

open Files

/-! ### Edits -/

namespace LineEdit

variable {e : LineEdit} {text : List String} {line : String} {i : Nat}

/-- The edit puts lines in the place of a line. -/
def Lined (e : LineEdit) : Prop := ∀ line, OneLine line → ∀ s ∈ e.rows line, OneLine s

theorem lined_delete : delete.Lined := by simp [Lined, rows]

theorem lined_replace (h : OneLine line) : (replace line).Lined :=
  fun _ _ => List.forall_mem_singleton.2 h

theorem lined_splice {lines : List String} (h : ∀ s ∈ lines, OneLine s) : (splice lines).Lined :=
  fun _ _ => h

/-- An edit made of lines leaves lines. -/
theorem Lined.applyAt (he : e.Lined) (h : ∀ s ∈ text, OneLine s) (i : Nat) :
    ∀ s ∈ e.applyAt text i, OneLine s := by
  intro s hs
  cases e with
  | delete =>
      rcases List.mem_append.1 hs with hs | hs
      · exact h s (List.mem_of_mem_take hs)
      · exact h s (List.mem_of_mem_drop hs)
  | replace line =>
      rcases List.mem_or_eq_of_mem_set hs with hs | rfl
      · exact h s hs
      · exact he "" (by decide) s List.mem_cons_self
  | splice lines =>
      rw [LineEdit.applyAt, List.append_assoc, List.mem_append, List.mem_append] at hs
      rcases hs with hs | hs | hs
      · exact h s (List.mem_of_mem_take hs)
      · exact he "" (by decide) s hs
      · exact h s (List.mem_of_mem_drop hs)
  | mark =>
      obtain ⟨j, hj⟩ := List.mem_iff_getElem?.1 hs
      rw [LineEdit.applyAt, List.getElem?_modify, Option.map_eq_map, Option.map_eq_some_iff] at hj
      obtain ⟨line, hline, rfl⟩ := hj
      have hline := h line (List.mem_of_getElem? hline)
      split
      · exact he line hline _ List.mem_cons_self
      · exact hline

end LineEdit

/-! ### Patches -/

namespace Patch

variable {p : Patch} {file : Path}

/-- The working copies are made of lines. -/
def Lined (p : Patch) : Prop := ∀ c ∈ p.copies, ∀ s ∈ c.2, OneLine s

theorem lined_empty (context : Nat) : (empty context).Lined := by simp [Lined, empty]

-- An edit that is not made of lines still leaves the workspace as it is, so what patches are made of is
-- stated as far as a condition holds.
variable {H : Prop}

theorem keepsLined_load (h : H → p.Lined) (file : Path) :
    (p.load file).KeepsLined fun p' => H → p'.Lined := by
  rw [Patch.load]
  cases p.copy? file with
  | some text => exact .pure h
  | none =>
      exact (keepsLined_currentLines file).bind fun text htext => .pure fun hH =>
        List.forall_mem_append.2 ⟨h hH, List.forall_mem_singleton.2 htext⟩

theorem keepsLined_locate (h : H → p.Lined) (file : Path) (n : Nat) :
    (p.locate file n).KeepsLined fun r => H → r.2.Lined := by
  refine (keepsLined_heldLine file n).bind fun found _ => ?_
  cases found with
  | none => exact .pure h
  | some content => exact (keepsLined_load h file).bind fun p' h' => .pure h'

/-- An edit made of lines leaves a patch made of lines. -/
theorem keepsLined_edit (h : H → p.Lined) {e : LineEdit} (he : H → e.Lined) (file : Path) (n : Nat) :
    (p.edit file n e).KeepsLined fun r => H → r.2.Lined := by
  refine (keepsLined_locate h file n).bind fun ⟨place, p'⟩ h' => ?_
  cases place with
  | none => exact .pure h'
  | some i =>
      refine .pure fun hH c hc => ?_
      obtain ⟨c₀, hc₀, -, htext⟩ := exists_of_mem_modifyCopy hc
      rw [htext]
      split
      · exact (he hH).applyAt (h' hH c₀ hc₀) i
      · exact h' hH c₀ hc₀

theorem keepsLined_changes (p : Patch) : p.changes.KeepsLined fun _ => True := by
  refine Work.KeepsLined.bind (Work.KeepsLined.mapM (R := fun _ => True) (fun c => ?_) p.copies)
    fun sets _ => .pure ⟨⟩
  exact (keepsLined_currentLines c.1).bind fun now _ => .pure ⟨⟩

/-- **Which patches are read back**: those that are made of lines, as far as their paths are lines and
their headers count right. -/
theorem read?_changes_iff {w w' : Workspace} {ps : Diff.PatchSet} (hw : w.Lined)
    (h : p.changes.on w = (.ok ps, w')) :
    Diff.read? (Diff.render .plain ps) = some (ps.map Diff.FilePatch.plain) ↔
      (∀ f ∈ ps, OneLine f.path.text ∧ ∀ hunk ∈ f.hunks, hunk.Counted) ∧ p.Lined := by
  obtain ⟨hw', -⟩ := keepsLined_changes p w _ w' hw h
  rw [Diff.read?_render_iff]
  constructor
  · intro hread
    constructor
    · intro f hf
      have hf := hread f hf
      exact ⟨hf.path_oneLine, fun hunk hhunk =>
        ⟨(hf.hunks hunk hhunk).old_count, (hf.hunks hunk hhunk).new_count⟩⟩
    · intro c hc
      obtain ⟨now, hnow, hshown⟩ := exists_change_of_mem_copies h hc
      -- A copy without hunks is the text of the file.
      refine (Diff.oneLine_newLines_iff p.context (hw'.of_current hnow)).1 fun hunk hhunk => ?_
      exact ((hread _ (hshown (List.ne_nil_of_mem hhunk))).hunks hunk hhunk).new_oneLine
  · rintro ⟨hheads, hlines⟩ f hf
    obtain ⟨c, hc, now, -, hnow, hhunks⟩ := exists_of_mem_changes h hf
    obtain ⟨hpath, hcounted⟩ := hheads f hf
    have hnow := hw'.of_current hnow
    refine ⟨hpath, fun hunk hhunk => ?_⟩
    have hmem := hhunks ▸ hhunk
    exact ⟨(hcounted hunk hhunk).old_count, (hcounted hunk hhunk).new_count,
      fun s hs => hnow s ((Diff.mem_of_mem_hunks hmem).1 s hs),
      (Diff.oneLine_newLines_iff p.context hnow).2 (hlines c hc) hunk hmem⟩

end Patch

end Upkeep
