/-
**What a diff says of the bytes of a file.**

A diff is made of the lines that were read of a file, and these leave out how each of them ended.  So the
kept and removed lines of a hunk, each with a line feed behind it, are the bytes of the lines that they
were read from if and only if all of these are clean.  Where the lines stand is what the header says if
the comparison of the texts is a script.

Main definitions:

* `Upkeep.Patch.Stage.edited` — a patch after some edits, on a disk that stays as it is.

Main results:

* `Upkeep.Diff.exists_place_of_mem_hunks` — where the old lines of a hunk stand;
* `Upkeep.Patch.Stage.exists_copy_of_mem_changes` — a patch compares its working copies with the lines
  of the files;
* `Upkeep.Patch.Stage.render_matches_bytes` — **a hunk matches the bytes of the file if and only if the
  lines that it shows of the file are clean**.
-/

import Upkeep.Proofs.Patch.History
import Upkeep.Proofs.Text.ByteLines

set_option relaxedAutoImplicit false
set_option autoImplicit false

namespace Upkeep

open Files

/-! ### Places of hunks -/

namespace Diff

theorem map_slice {α β : Type} (f : α → β) (xs : List α) (i n : Nat) :
    slice (xs.map f) i n = (slice xs i n).map f := by
  rw [slice, slice, List.map_take, List.map_drop]

/-- The old lines of a hunk stand one after the other in the old list; if the comparison is a script,
then where its header says. -/
theorem exists_place_of_mem_hunks {old new : List String} {context : Nat} {h : Hunk}
    (hh : h ∈ hunks old new context) :
    ∃ i, i + h.oldLines.length ≤ old.length ∧ h.oldLines = slice old i h.oldLines.length ∧
      (IsScript old new (script old new) → h.old.offset = i ∧ h.old.count = h.oldLines.length) := by
  -- A comparison that is no script still shows the lines right, but may count them wrong.
  by_cases hscript : IsScript old new (script old new)
  · have hfits := (spans_hunksOf context hscript).fits h hh
    have hlength := hfits.length_oldLines
    refine ⟨h.old.offset, ?_, ?_, fun _ => ⟨rfl, hlength.symm⟩⟩
    · rw [hlength]
      exact hfits.old_le
    · rw [hlength]
      exact hfits.oldLines_eq
  · obtain ⟨i, hle, hlines⟩ := oldLines_of_mem_hunks hh
    exact ⟨i, hle, hlines, fun h => absurd h hscript⟩

end Diff

namespace Patch

namespace Stage

/-- A patch after some edits, each of a numbered line of a file, on a disk that stays as it is. -/
def edited (context : Nat) (d : Disk) (rereads : Bool) (edits : List (Path × Nat × LineEdit)) : Stage :=
  (start context (.ofDisk d rereads)).run (edits.map fun e => .edit e.1 e.2.1 e.2.2)

variable {context : Nat} {d : Disk} {rereads : Bool} {edits : List (Path × Nat × LineEdit)}

theorem workspace_after_edit (s : Stage) (file : Path) (n : Nat) (e : LineEdit) :
    (s.after (.edit file n e)).workspace = ((s.patch.edit file n e).on s.workspace).2 := by
  rw [after]
  split <;> rename_i hedit <;> rw [hedit]

/-- Edits only read. -/
theorem grows_edited (context : Nat) (d : Disk) (rereads : Bool)
    (edits : List (Path × Nat × LineEdit)) :
    (Workspace.ofDisk d rereads).Grows (edited context d rereads edits).workspace := by
  induction edits using List.reverseRecOn with
  | nil => exact .refl _
  | append_singleton edits e ih =>
      rw [edited, List.map_append, List.map_singleton, run_concat, workspace_after_edit]
      exact ih.trans (reads_edit _ _ _ _ _)

/-- A file of a disk that stays as it is has the lines that are read of it. -/
theorem eq_lines_of_current {w' : Workspace} {file : Path} {now : List String} {content : ByteArray}
    (hw : (Workspace.ofDisk d rereads).Agrees w') (hnow : w'.Current file now)
    (hcontent : d.read? file = some content) : now = Text.lines (textOf content) := by
  have hread : readLines d file = .ok (Text.lines (textOf content)) := by rw [readLines, hcontent]
  have hcurrent : ((currentLines file).on (.ofDisk d rereads)).1 =
      .ok (Text.lines (textOf content)) := by
    rw [Workspace.on_currentLines]
    split
    · exact hread
    · exact (Workspace.seen_of_none rfl).trans hread
  have hreadable : (Workspace.ofDisk d rereads).Readable file := ⟨_, hcurrent⟩
  obtain ⟨ls, hls⟩ := hreadable.current
  obtain ⟨w'', hlater, -⟩ := hls w' hw
  rw [Workspace.Current, hlater] at hnow
  have hfirst := hls.on.symm.trans hcurrent
  exact (Except.ok.inj (Prod.mk.inj hnow).1).symm.trans (Except.ok.inj hfirst)

/-- A patch compares its working copies with the lines of the files. -/
theorem exists_copy_of_mem_changes {ps : Diff.PatchSet} {w' : Workspace}
    (h : (edited context d rereads edits).patch.changes.on (edited context d rereads edits).workspace =
      (.ok ps, w')) {f : Diff.FilePatch} (hf : f ∈ ps) {content : ByteArray}
    (hcontent : d.read? f.path = some content) :
    ∃ copy, (f.path, copy) ∈ (edited context d rereads edits).patch.copies ∧
      f.hunks = Diff.hunks (Text.lines (textOf content)) copy
        (edited context d rereads edits).patch.context := by
  obtain ⟨c, hc, now, hfile, hcurrent, hhunks⟩ := exists_of_mem_changes h hf
  have hagrees := ((grows_edited context d rereads edits).trans ((reads_changes _).grows h)).toAgrees
  have hnow := eq_lines_of_current hagrees hcurrent hcontent
  exact ⟨c.2, hfile ▸ hc, hnow ▸ hhunks⟩

/-- **A hunk matches the bytes of the file if and only if the lines that it shows of the file are
clean**: that is, its kept and removed lines, each with a line feed behind it, are the bytes of as many
lines of the file that stand one after the other.  If the comparison of the texts is a script, these are
the lines that the header of the hunk names. -/
theorem render_matches_bytes (context : Nat) (d : Disk) (rereads : Bool)
    (edits : List (Path × Nat × LineEdit)) {text : String} {w' : Workspace}
    (h : ((edited context d rereads edits).patch.render .plain).on
      (edited context d rereads edits).workspace = (.ok text, w')) :
    ∃ ps, (edited context d rereads edits).patch.changes.on
        (edited context d rereads edits).workspace = (.ok ps, w') ∧ text = Diff.render .plain ps ∧
      ∀ f ∈ ps, ∀ content, d.read? f.path = some content →
        ∃ copy, (f.path, copy) ∈ (edited context d rereads edits).patch.copies ∧
          ∀ hunk ∈ f.hunks, ∃ i stretch,
            stretch = Diff.slice (Text.byteLines (bytesOf content)) i hunk.oldLines.length ∧
            stretch.length = hunk.oldLines.length ∧ hunk.oldLines = stretch.map Text.readLine ∧
            (Text.written hunk.oldLines = stretch.flatten ↔ ∀ raw ∈ stretch, Text.Clean raw) ∧
            (Diff.IsScript (Text.lines (textOf content)) copy
                (Diff.script (Text.lines (textOf content)) copy) →
              hunk.old.offset = i ∧ hunk.old.count = hunk.oldLines.length) := by
  obtain ⟨ps, w₁, hps, hpure⟩ := on_bind_ok.1 h
  cases hpure
  refine ⟨ps, hps, rfl, ?_⟩
  intro f hf content hcontent
  obtain ⟨copy, hcopy, hhunks⟩ := exists_copy_of_mem_changes hps hf hcontent
  refine ⟨copy, hcopy, ?_⟩
  intro hunk hhunk
  rw [hhunks] at hhunk
  obtain ⟨i, hle, hlines, hheader⟩ := Diff.exists_place_of_mem_hunks hhunk
  have hbytes : Text.lines (textOf content) = (Text.byteLines (bytesOf content)).map Text.readLine :=
    Text.lines_decode (bytesOf content)
  rw [hbytes, List.length_map] at hle
  rw [hbytes, Diff.map_slice] at hlines
  refine ⟨i, _, rfl, Diff.length_slice hle, hlines, ?_, hheader⟩
  have hfeeds : ∀ raw ∈ Diff.slice (Text.byteLines (bytesOf content)) i hunk.oldLines.length,
      10 ∉ raw.dropLast := by
    intro raw hraw
    exact Text.lineFeed_not_mem_dropLast (List.mem_of_mem_drop (List.mem_of_mem_take hraw))
  have hiff := Text.written_readLine_iff hfeeds
  rwa [← hlines] at hiff

/-- Three lines that end with line feeds. -/
def withLineFeeds : String := "int a;\nint b;\nint c;\n"

/-- The same lines with carriage returns in front of the line feeds. -/
def withReturns : String := "int a;\r\nint b;\r\nint c;\r\n"

/-- The middle one of three lines is deleted. -/
def middleDeleted (text : String) : Stage :=
  edited 3 (oneFile text) false [(⟨"/x.cpp"⟩, 2, .delete)]

/-- What the patch shows of the three lines, however they end. -/
def middleHunk : Diff.Hunk :=
  ⟨⟨1, 3⟩, ⟨1, 2⟩, [.kept "int a;", .removed "int b;", .kept "int c;"]⟩

theorem read?_oneFile (text : String) :
    (oneFile text).read? ⟨"/x.cpp"⟩ = some text.toUTF8 := rfl

theorem render_matches_bytes_lineFeeds : ∃ text w',
    ((middleDeleted withLineFeeds).patch.render .plain).on
      (middleDeleted withLineFeeds).workspace = (.ok text, w') ∧
    text = Diff.render .plain [⟨⟨"/x.cpp"⟩, [middleHunk]⟩] ∧
    Text.written middleHunk.oldLines =
      (Diff.slice (Text.byteLines (Text.Utf8.encode withLineFeeds))
        middleHunk.old.offset middleHunk.old.count).flatten := by
  obtain ⟨w', hrun⟩ : ∃ w', (middleDeleted withLineFeeds).patch.changes.on
      (middleDeleted withLineFeeds).workspace =
        (.ok [⟨⟨"/x.cpp"⟩, [middleHunk]⟩], w') := exists_on_of_toOption (by decide +kernel)
  have hrender : ((middleDeleted withLineFeeds).patch.render .plain).on
      (middleDeleted withLineFeeds).workspace =
        (.ok (Diff.render .plain [⟨⟨"/x.cpp"⟩, [middleHunk]⟩]), w') := on_bind_ok.2 ⟨_, w', hrun, rfl⟩
  obtain ⟨ps, hrun', -, hlaw⟩ := render_matches_bytes 3 _ false _ hrender
  obtain rfl := Except.ok.inj (Prod.mk.inj (hrun.symm.trans hrun')).1
  obtain ⟨copy, hcopy, hlaw⟩ := hlaw _ List.mem_cons_self _ (read?_oneFile _)
  obtain ⟨i, stretch, hstretch, -, -, hiff, hheader⟩ := hlaw middleHunk List.mem_cons_self
  have hcopies : (middleDeleted withLineFeeds).patch.copies =
      [(⟨"/x.cpp"⟩, ["int a;", "int c;"])] := by decide +kernel
  change (_, copy) ∈ (middleDeleted withLineFeeds).patch.copies at hcopy
  rw [hcopies, List.mem_singleton, Prod.mk.injEq] at hcopy
  obtain ⟨-, rfl⟩ := hcopy
  obtain ⟨rfl, -⟩ := hheader (by decide +kernel)
  have hrows : stretch = [Text.Utf8.encode "int a;" ++ [10], Text.Utf8.encode "int b;" ++ [10],
      Text.Utf8.encode "int c;" ++ [10]] := hstretch.trans (by decide +kernel)
  have hclean : ∀ raw ∈ stretch, Text.Clean raw := by
    rw [hrows]
    simp only [List.forall_mem_cons, List.not_mem_nil, false_imp_iff, implies_true, and_true]
    exact ⟨⟨"int a;", rfl, by decide⟩, ⟨"int b;", rfl, by decide⟩, ⟨"int c;", rfl, by decide⟩⟩
  exact ⟨_, w', hrender, rfl, hstretch ▸ hiff.2 hclean⟩

/-- Lines that end with a carriage return and a line feed are not matched. -/
theorem returns_not_matched :
    ¬ ∀ (context : Nat) (d : Disk) (rereads : Bool) (edits : List (Path × Nat × LineEdit)),
      ∀ ps w', (edited context d rereads edits).patch.changes.on
        (edited context d rereads edits).workspace = (.ok ps, w') →
      ∀ f ∈ ps, ∀ content, d.read? f.path = some content → ∀ hunk ∈ f.hunks,
        Text.written hunk.oldLines =
          (Diff.slice (Text.byteLines (bytesOf content)) hunk.old.offset hunk.old.count).flatten := by
  intro hclaim
  obtain ⟨w', hrun⟩ : ∃ w', (middleDeleted withReturns).patch.changes.on
      (middleDeleted withReturns).workspace =
        (.ok [⟨⟨"/x.cpp"⟩, [middleHunk]⟩], w') := exists_on_of_toOption (by decide +kernel)
  have hmatch := hclaim 3 _ false _ _ w' hrun _ List.mem_cons_self _ (read?_oneFile _) middleHunk
    List.mem_cons_self
  revert hmatch
  decide +kernel

end Stage

end Patch

end Upkeep
