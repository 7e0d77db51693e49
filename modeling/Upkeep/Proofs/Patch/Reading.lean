/-
**Patches of readable files.**

The edits of a patch read the files that they name, and its text reads the files that it touches.  If
all of these can be read, every edit succeeds, and so does the text; both stay the same as long as the
disk does.

Main definitions:

* `Upkeep.Patch.Readable` — patches that touch readable files.

Main results:

* `Upkeep.Patch.Readable.edit` — an edit of a readable file;
* `Upkeep.Patch.Readable.render` — **the text of a patch of readable files**;
* `Upkeep.Patch.reads_edit`, `Upkeep.Patch.reads_changes` — edits and texts only read;
* `Upkeep.Patch.exists_of_mem_changes`, `Upkeep.Patch.exists_change_of_mem_copies` — what a patch shows
  of a file.
-/

import Upkeep.Patch.Basic
import Upkeep.Proofs.Files.Reading
import Upkeep.Proofs.Patch.Copies

set_option relaxedAutoImplicit false
set_option autoImplicit false

namespace Upkeep

namespace Patch

open Files

/-- All files that a patch touches are readable. -/
def Readable (w : Workspace) (p : Patch) : Prop := ∀ f ∈ p.files, w.Readable f

variable {w : Workspace} {p : Patch} {file : Path}

theorem readable_empty (w : Workspace) (context : Nat) : (empty context).Readable w := by
  simp [Readable, files, empty]

/-- A readable file can be loaded. -/
theorem Readable.load (h : p.Readable w) (hfile : w.Readable file) :
    ∃ p', (p.load file).Yields w p' ∧ p'.Readable w := by
  rw [Patch.load]
  cases p.copy? file with
  | some text => exact ⟨p, .pure w p, h⟩
  | none =>
      obtain ⟨text, htext⟩ := hfile.current
      refine ⟨_, htext.bind (.pure w _), ?_⟩
      intro f hf
      rw [files, List.map_append] at hf
      rcases List.mem_append.1 hf with hf | hf
      · exact h f hf
      · obtain rfl := List.mem_singleton.1 hf
        exact hfile

/-- A line of a readable file can be looked for. -/
theorem Readable.locate (h : p.Readable w) (hfile : w.Readable file) (n : Nat) :
    ∃ r, (p.locate file n).Yields w r ∧ r.2.Readable w := by
  obtain ⟨found, hfound⟩ := yields_heldLine hfile n
  cases found with
  | none => exact ⟨(none, p), hfound.bind (.pure w _), h⟩
  | some content =>
      obtain ⟨p', hload, h'⟩ := h.load hfile
      exact ⟨_, hfound.bind (hload.bind (.pure w _)), h'⟩

/-- A line of a readable file can be edited. -/
theorem Readable.edit (h : p.Readable w) (hfile : w.Readable file) (n : Nat) (e : LineEdit) :
    ∃ r, (p.edit file n e).Yields w r ∧ r.2.Readable w := by
  obtain ⟨⟨place, p'⟩, hlocate, h'⟩ := h.locate hfile n
  cases place with
  | none => exact ⟨(false, p'), hlocate.bind (.pure w _), h'⟩
  | some i =>
      refine ⟨_, hlocate.bind (.pure w (true, p'.modifyCopy file (e.applyAt · i))), ?_⟩
      rwa [Readable, files_modifyCopy]

/-- The changes of a patch of readable files. -/
theorem Readable.changes (h : p.Readable w) : ∃ ps, p.changes.Yields w ps := by
  have hsets : ∀ c ∈ p.copies, ∃ s : Path × List Diff.Hunk, Work.Yields (do
      let now ← currentLines c.1
      return (c.1, Diff.hunks now c.2 p.context)) w s := by
    intro c hc
    obtain ⟨now, hnow⟩ := (h c.1 (List.mem_map_of_mem hc)).current
    exact ⟨_, hnow.bind (.pure w _)⟩
  obtain ⟨sets, hsets⟩ := Work.Yields.mapM hsets
  exact ⟨_, hsets.bind (.pure w _)⟩

/-- The text of a patch of readable files. -/
theorem Readable.render (h : p.Readable w) (style : Diff.Style) :
    ∃ text, (p.render style).Yields w text := by
  obtain ⟨ps, hps⟩ := h.changes
  exact ⟨_, hps.bind (.pure w _)⟩

/-! ### What patches leave behind -/

theorem reads_load (p : Patch) (file : Path) : (p.load file).Reads := by
  rw [load]
  cases p.copy? file with
  | some text => exact .pure p
  | none => exact (reads_currentLines file).bind fun _ => .pure _

theorem reads_locate (p : Patch) (file : Path) (n : Nat) : (p.locate file n).Reads := by
  refine (reads_heldLine file n).bind fun found => ?_
  cases found with
  | none => exact .pure _
  | some content => exact (reads_load p file).bind fun _ => .pure _

theorem reads_edit (p : Patch) (file : Path) (n : Nat) (e : LineEdit) : (p.edit file n e).Reads := by
  refine (reads_locate p file n).bind fun ⟨place, p'⟩ => ?_
  cases place <;> exact .pure _

theorem reads_change (p : Patch) (c : Path × List String) : Work.Reads (do
    let now ← currentLines c.1
    return (c.1, Diff.hunks now c.2 p.context)) :=
  (reads_currentLines c.1).bind fun _ => .pure _

theorem reads_changes (p : Patch) : p.changes.Reads :=
  Work.Reads.bind (Work.Reads.mapM p.reads_change p.copies) fun _ => .pure _

/-- A patch shows the differences between the files and its working copies. -/
theorem exists_of_mem_changes {w' : Workspace} {ps : Diff.PatchSet}
    (h : p.changes.on w = (.ok ps, w')) {f : Diff.FilePatch} (hf : f ∈ ps) :
    ∃ c ∈ p.copies, ∃ now, c.1 = f.path ∧ w'.Current f.path now ∧
      f.hunks = Diff.hunks now c.2 p.context := by
  rw [changes, on_bind_ok] at h
  obtain ⟨sets, w₁, hsets, h⟩ := h
  cases h
  obtain ⟨set, hset, rfl⟩ := List.mem_map.1 hf
  obtain ⟨c, hc, w₁, w₂, hrun, hext⟩ :=
    Work.Reads.exists_of_mem_mapM p.reads_change hsets (List.mem_of_mem_filter hset)
  obtain ⟨now, w₃, hnow, hrun⟩ := on_bind_ok.1 hrun
  cases hrun
  exact ⟨c, hc, now, rfl, (currentLines_ok hnow).2.mono hext, rfl⟩

/-- Every working copy is compared with its file, and shown unless they are the same. -/
theorem exists_change_of_mem_copies {w' : Workspace} {ps : Diff.PatchSet}
    (h : p.changes.on w = (.ok ps, w')) {c : Path × List String} (hc : c ∈ p.copies) :
    ∃ now, w'.Current c.1 now ∧ (Diff.hunks now c.2 p.context ≠ [] →
      ⟨c.1, Diff.hunks now c.2 p.context⟩ ∈ ps) := by
  rw [changes, on_bind_ok] at h
  obtain ⟨sets, w₁, hsets, h⟩ := h
  cases h
  obtain ⟨set, hset, w₁, w₂, hrun, hext⟩ := Work.Reads.exists_mem_of_mapM p.reads_change hsets hc
  obtain ⟨now, w₃, hnow, hrun⟩ := on_bind_ok.1 hrun
  cases hrun
  refine ⟨now, (currentLines_ok hnow).2.mono hext, fun hne => ?_⟩
  exact List.mem_map.2 ⟨_, List.mem_filter.2 ⟨hset, by simpa using hne⟩, rfl⟩

end Patch

end Upkeep
