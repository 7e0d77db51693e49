/-
**Edits that find nothing leave no trace.**

An edit may find no line with its number, or no line with the text of this line any more, or may not be
able to read the file at all.  It may have read the file by then, and even have taken a working copy of
it.  Neither is seen later on: the working copy is equal to the file and shows no difference, and the
lines that are held are those that a later edit would read.  So the patch is shown as before, and later
edits answer, and change working copies, as if there had been no such edit.

A path that is written in another way is taken for the same file, and need not lead to it: nothing can
be read below a file.  An edit that names the file like this fails, but finds the lines held where an
earlier one has read them.

Main definitions:

* `Upkeep.Patch.Stage.Settled` — stages whose working copies are compared without a trace;
* `Upkeep.Patch.Stage.answers` — the answers of the edits of a history;
* `Upkeep.Patch.Stage.Shadows` — a stage at which there was one more edit that found nothing;
* `Upkeep.Patch.Act.Names` — acts that leave the disk alone and name a file so that it can be read.

Main results:

* `Upkeep.Patch.Stage.settled_run` — every history leads to such a stage;
* `Upkeep.Patch.Stage.changes_after_failing` — the patch is shown as before;
* `Upkeep.Patch.Stage.Shadows.edit`, `Upkeep.Patch.Stage.Shadows.run` — one more edit, and any history,
  at both stages;
* `Upkeep.Patch.Stage.failing_edit_unseen` — **an edit that finds nothing leaves no trace**.
-/

import Upkeep.Proofs.Diff.Context
import Upkeep.Proofs.Patch.Effect

set_option relaxedAutoImplicit false
set_option autoImplicit false

namespace Upkeep

open Files

namespace Patch

namespace Stage

variable {s s' : Stage} {file g : Path} {n : Nat} {e : LineEdit} {act : Act} {acts : List Act}

/-! ### Settled stages -/

/-- All working copies can be compared with their files without a trace. -/
def Settled (s : Stage) : Prop := ∀ f ∈ s.patch.files, s.workspace.Settled f

/-- What is held, or reread, stays so. -/
theorem Settled.of_keeps {w : Workspace} (h : s.Settled) (hw : s.workspace.Keeps w) :
    ∀ f ∈ s.patch.files, w.Settled f := by
  intro f hf
  rcases h f hf with hrereads | ⟨ls, hls⟩
  · exact .inl (hw.rereads.trans hrereads)
  · exact .inr ⟨ls, hw.held f ls hls⟩

theorem Settled.after (h : s.Settled) (act : Act) : (s.after act).Settled := by
  cases act with
  | edit file n e =>
      intro f hf
      rw [workspace_after]
      rcases mem_files_after_edit hf with hf | ⟨rfl, ls, hseen⟩
      · exact h.of_keeps (Workspace.extends_reading _ file).keeps f hf
      · exact Workspace.settled_reading hseen
  | write disk => exact h.of_keeps ⟨rfl, fun _ _ hheld => hheld⟩
  | render => exact h.of_keeps (reads_changes _ _).toExtends.keeps

/-- Every history leads to a settled stage. -/
theorem settled_run (context : Nat) (w : Workspace) (acts : List Act) :
    ((start context w).run acts).Settled := by
  induction acts using List.reverseRecOn with
  | nil => exact fun f hf => by cases hf
  | append_singleton acts act ih =>
      rw [run_concat]
      exact ih.after act

/-- A settled patch is shown without a trace. -/
theorem Settled.on_changes (h : s.Settled) :
    (s.patch.changes.on s.workspace).2 = s.workspace := by
  rw [Patch.on_changes, on_compared_of_settled h (.refl _)]

/-! ### The patch afterwards -/

/-- A working copy that is equal to its file shows nothing. -/
theorem changesOf_append_self (context : Nat) (cs : List Compared) (f : Path) (text : List String) :
    changesOf context (cs ++ [(f, text, text)]) = changesOf context cs := by
  rw [changesOf, List.map_append, List.filter_append, ← changesOf]
  simp [Diff.hunks_self]

/-- After an edit that finds nothing, a patch changes what it did before. -/
theorem changes_after_failing (hs : s.Settled) (h : s.answer file n e ≠ .ok true) :
    ((s.after (.edit file n e)).patch.changes.on (s.after (.edit file n e)).workspace).1 =
      (s.patch.changes.on s.workspace).1 := by
  have hext := Workspace.extends_reading s.workspace file
  rw [Patch.on_changes, Patch.on_changes, on_compared_of_settled hs (.refl _), workspace_after]
  have hlater := on_compared_of_settled hs hext
  rcases patch_of_answer h with hpatch | ⟨text, -, hnow, ⟨ls, hseen⟩, hpatch⟩
  · rw [hpatch, hlater]
  · -- The working copy that was taken is compared last, with the file as it is.
    have hcurrent : (currentLines file).on (s.workspace.reading file) =
        (.ok text, s.workspace.reading file) := by
      rw [(Workspace.settled_reading hseen).on, Workspace.currentLines_reading, hnow]
    rw [compared] at hlater
    rw [hpatch, compared, List.mapM_append, on_bind, hlater]
    cases s.patch.copies.mapM fun c =>
        ((currentLines c.1).on s.workspace).1.map fun now => (c.1, now, c.2) with
    | error err => rfl
    | ok cs =>
        dsimp only
        rw [on_bind, List.mapM_cons, on_bind, on_bind, hcurrent]
        exact congrArg Except.ok (changesOf_append_self _ cs file text)

/-- After an edit that finds nothing, a patch is shown as before. -/
theorem render_after_failing (hs : s.Settled) (h : s.answer file n e ≠ .ok true)
    (style : Diff.Style) :
    (((s.after (.edit file n e)).patch.render style).on (s.after (.edit file n e)).workspace).1 =
      ((s.patch.render style).on s.workspace).1 := by
  have hchanges := changes_after_failing hs h
  rw [render, render, on_bind, on_bind]
  rcases hon : s.patch.changes.on s.workspace with ⟨r, w⟩
  rcases hon' : (s.after (.edit file n e)).patch.changes.on (s.after (.edit file n e)).workspace
    with ⟨r', w'⟩
  rw [hon, hon'] at hchanges
  cases (show r' = r from hchanges)
  cases r <;> rfl

/-! ### Stages side by side -/

/-- A stage at which there was one more edit of a file that found nothing: it may hold the lines of the
file where the other one has yet to read them, and have a working copy that is equal to the file where
the other one has yet to take it. -/
structure Shadows (file : Path) (s s' : Stage) : Prop where
  disk : s'.workspace.disk = s.workspace.disk
  rereads : s'.workspace.rereads = s.workspace.rereads
  held : ∀ g, s'.workspace.held? g = s.workspace.held? g ∨
    file.same g = true ∧ s.workspace.held? g = none ∧
      ∃ ls, s'.workspace.held? g = some ls ∧ readLines s.workspace.disk file = .ok ls
  copies : ∀ g, s'.patch.copy? g = s.patch.copy? g ∨
    file.same g = true ∧ s.patch.copy? g = none ∧
      ∃ text, s'.patch.copy? g = some text ∧ s'.workspace.Current file text

/-- The stage after an edit that found nothing. -/
theorem shadows_failing (h : s.answer file n e ≠ .ok true) :
    Shadows file s (s.after (.edit file n e)) := by
  have hext := Workspace.extends_reading s.workspace file
  refine ⟨?_, ?_, ?_, ?_⟩
  · rw [workspace_after, hext.disk]
  · rw [workspace_after, hext.rereads]
  · intro g
    rw [workspace_after, Workspace.held?_reading]
    split
    · rename_i hsame
      rw [← s.workspace.held?_congr hsame]
      cases hheld : s.workspace.held? file with
      | some ls => exact .inl (by rw [Workspace.seen_of_held? hheld]; rfl)
      | none =>
          rw [Workspace.seen_of_none hheld]
          cases hread : readLines s.workspace.disk file with
          | error err => exact .inl rfl
          | ok ls => exact .inr ⟨hsame, rfl, ls, rfl, rfl⟩
    · exact .inl rfl
  · intro g
    rcases patch_of_answer h with hpatch | ⟨text, hcopy, hnow, ⟨ls, hseen⟩, hpatch⟩
    · rw [hpatch]
      exact .inl rfl
    · have hload : s.patch.loaded file (.ok text) =
          .ok ({ s.patch with copies := s.patch.copies ++ [(file, text)] }, text) := by
        rw [loaded, hcopy]
        rfl
      rw [hpatch, copy?_of_loaded hload]
      split
      · rename_i hsame
        refine .inr ⟨hsame, by rw [← copy?_congr _ hsame, hcopy], text, rfl, ?_⟩
        rw [workspace_after, Workspace.Current, (Workspace.settled_reading hseen).on,
          Workspace.currentLines_reading, hnow]
      · exact .inl rfl

namespace Shadows

/-- A file that is named as in the edit, or by a path under which it can be read, is seen alike at both
stages. -/
theorem seen_eq (h : Shadows file s s')
    (hg : file.same g = true → g = file ∨ s.workspace.Readable g) :
    s'.workspace.seen g = s.workspace.seen g := by
  rcases h.held g with hheld | ⟨hsame, hnone, ls, hheld, hread⟩
  · rw [Workspace.seen, Workspace.seen, hheld, h.disk]
  · rw [Workspace.seen_of_held? hheld, Workspace.seen_of_none hnone]
    rcases hg hsame with rfl | hreadable
    · exact hread.symm
    · obtain ⟨ls', hseen⟩ := hreadable.seen
      rw [Workspace.seen_of_none hnone] at hseen
      rw [hseen, readLines_congr hsame hread hseen]

theorem currentLines_eq (h : Shadows file s s')
    (hg : file.same g = true → g = file ∨ s.workspace.Readable g) :
    ((currentLines g).on s'.workspace).1 = ((currentLines g).on s.workspace).1 := by
  rw [Workspace.on_currentLines, Workspace.on_currentLines, h.rereads, h.disk, h.seen_eq hg]

/-- A working copy that was taken is the one that would be taken now. -/
theorem currentLines_of_current (h : Shadows file s s')
    (hg : file.same g = true → g = file ∨ s.workspace.Readable g) (hsame : file.same g = true)
    {text : List String} (hcurrent : s'.workspace.Current file text) :
    ((currentLines g).on s.workspace).1 = .ok text := by
  rcases hg hsame with rfl | hreadable
  · rw [← h.currentLines_eq hg, hcurrent]
  · obtain ⟨ls, hls⟩ := hreadable
    have hls' := hls
    rw [← h.currentLines_eq hg, Workspace.on_currentLines] at hls'
    rw [current_iff] at hcurrent
    rw [hls]
    split at hcurrent
    · rw [if_pos ‹_›] at hls'
      rw [readLines_congr hsame hcurrent hls']
    · rw [if_neg ‹_›, Workspace.seen_of_held? (by rw [← Workspace.held?_congr _ hsame, hcurrent])]
        at hls'
      exact hls'.symm

/-- One more edit answers the same at both stages, and they stay side by side. -/
theorem edit (h : Shadows file s s') (n : Nat) (e : LineEdit)
    (hg : file.same g = true → g = file ∨ s.workspace.Readable g) :
    s'.answer g n e = s.answer g n e ∧
      Shadows file (s.after (.edit g n e)) (s'.after (.edit g n e)) := by
  have hext := Workspace.extends_reading s.workspace g
  have hext' := Workspace.extends_reading s'.workspace g
  -- What the edit does to the working copy of its file, where there is one at one of the stages only.
  have heffect : (s'.effect g n e).1 = (s.effect g n e).1 ∧
      ((s'.effect g n e).2 = (s.effect g n e).2 ∨
        (s'.effect g n e).2 = s'.patch.copy? g ∧ (s.effect g n e).2 = s.patch.copy? g) := by
    rw [effect, effect, h.seen_eq hg, h.currentLines_eq hg]
    rcases h.copies g with hcopy | ⟨hsame, hnone, text, hcopy, hcurrent⟩
    · rw [hcopy]
      exact ⟨rfl, .inl rfl⟩
    · rw [hcopy, hnone, h.currentLines_of_current hg hsame hcurrent]
      exact LineEdit.effect_some_none ..
  obtain ⟨hanswer, hcopies⟩ := s.answer_and_copies g n e
  obtain ⟨hanswer', hcopies'⟩ := s'.answer_and_copies g n e
  refine ⟨by rw [hanswer, hanswer', heffect.1], ?_, ?_, ?_, ?_⟩
  · rw [workspace_after, workspace_after, hext.disk, hext'.disk, h.disk]
  · rw [workspace_after, workspace_after, hext.rereads, hext'.rereads, h.rereads]
  · intro f
    rw [workspace_after, workspace_after, Workspace.held?_reading, Workspace.held?_reading, hext.disk,
      h.seen_eq hg]
    split
    · exact .inl rfl
    · exact h.held f
  · intro f
    rw [hcopies, hcopies', workspace_after]
    have hold : s'.patch.copy? f = s.patch.copy? f ∨ file.same f = true ∧ s.patch.copy? f = none ∧
        ∃ text, s'.patch.copy? f = some text ∧ (s'.workspace.reading g).Current file text := by
      refine (h.copies f).imp_right ?_
      rintro ⟨hsame, hnone, text, hcopy, hcurrent⟩
      exact ⟨hsame, hnone, text, hcopy, hcurrent.mono hext'⟩
    split
    · rename_i hsame
      rcases heffect.2 with heq | ⟨heq', heq⟩
      · exact .inl heq
      · rwa [heq, heq', copy?_congr _ hsame, copy?_congr _ hsame]
    · exact hold

/-- Showing the patches leaves the stages side by side. -/
theorem render (h : Shadows file s s') (hs : s.Settled) (hs' : s'.Settled) :
    Shadows file (s.after .render) (s'.after .render) := by
  have hstays : s.after .render = s := by
    rw [after, hs.on_changes]
  have hstays' : s'.after .render = s' := by
    rw [after, hs'.on_changes]
  rwa [hstays, hstays']

end Shadows

/-! ### Later edits -/

/-- The answers of the edits of a history. -/
def answers (s : Stage) : List Act → List (Outcome Bool)
  | [] => []
  | .edit file n e :: acts => s.answer file n e :: (s.after (.edit file n e)).answers acts
  | .write disk :: acts => (s.after (.write disk)).answers acts
  | .render :: acts => (s.after .render).answers acts

end Stage

/-- The act leaves the disk alone, and if it edits a file, it names it like this, or by a path under
which it can be read. -/
def Act.Names (w : Workspace) (file : Path) : Act → Prop
  | edit g _ _ => file.same g = true → g = file ∨ w.Readable g
  | write _ => False
  | render => True

theorem Act.Names.mono {w w' : Workspace} {file : Path} {act : Act} (h : act.Names w file)
    (hw : w.Agrees w') : act.Names w' file := by
  cases act with
  | edit g n e => exact fun hsame => (h hsame).imp_right fun hreadable => hreadable.mono hw
  | write disk => exact h
  | render => trivial

namespace Stage

variable {s s' : Stage} {file : Path} {n : Nat} {e : LineEdit} {acts : List Act}

/-- The edits of a history answer the same at both stages, and leave them side by side.  The induction
follows the history: reading only makes more files readable. -/
theorem Shadows.run (h : Shadows file s s') (hs : s.Settled) (hs' : s'.Settled)
    (hacts : ∀ act ∈ acts, act.Names s.workspace file) :
    s'.answers acts = s.answers acts ∧ Shadows file (s.run acts) (s'.run acts) := by
  induction acts generalizing s s' with
  | nil => exact ⟨rfl, h⟩
  | cons act acts ih =>
      obtain ⟨hact, hrest⟩ := List.forall_mem_cons.1 hacts
      cases act with
      | edit g n e =>
          obtain ⟨hanswer, hafter⟩ := h.edit n e hact
          have hgrows : s.workspace.Agrees (s.after (.edit g n e)).workspace := by
            have hreads := (reads_heldLines g s.workspace).toAgrees
            rwa [heldLines_on, ← workspace_after s g n e] at hreads
          obtain ⟨hanswers, hshadows⟩ := ih hafter (hs.after _) (hs'.after _)
            fun act hmem => (hrest act hmem).mono hgrows
          exact ⟨by rw [answers, answers, hanswer, hanswers], hshadows⟩
      | write disk => exact hact.elim
      | render =>
          have hstays : (s.after .render).workspace = s.workspace := by rw [after, hs.on_changes]
          exact ih (h.render hs hs') (hs.after _) (hs'.after _) (by rwa [hstays])

/-- **An edit that finds nothing leaves no trace**, after any history of a patch and in every workspace.
If it does not find its line, or cannot read the file, then the patch is shown as before in every style.
And in whatever later history leaves the disk alone, and names the file like this or by a path under
which it can be read, all edits answer as if there had been no such edit, and leave the same working
copies; only the file may have a working copy already, equal to the file, where there would be none
yet. -/
theorem failing_edit_unseen (context : Nat) (w : Workspace) (acts : List Act) (file : Path) (n : Nat)
    (e : LineEdit) (h : ((start context w).run acts).answer file n e ≠ .ok true) :
    let s := (start context w).run acts
    let s' := s.after (.edit file n e)
    (∀ style, ((s'.patch.render style).on s'.workspace).1 =
      ((s.patch.render style).on s.workspace).1) ∧
    ∀ later : List Act, (∀ act ∈ later, act.Names s.workspace file) →
      s'.answers later = s.answers later ∧
      ∀ g, (s'.run later).patch.copy? g = (s.run later).patch.copy? g ∨
        file.same g = true ∧ (s.run later).patch.copy? g = none ∧
          ∃ text, (s'.run later).patch.copy? g = some text ∧
            (s'.run later).workspace.Current file text := by
  intro s s'
  have hs : s.Settled := settled_run context w acts
  refine ⟨render_after_failing hs h, ?_⟩
  intro later hlater
  obtain ⟨hanswers, hshadows⟩ := (shadows_failing h).run hs (hs.after _) hlater
  exact ⟨hanswers, hshadows.copies⟩

/-- A workspace that rereads and holds another text of a file than the disk has. -/
def holdingOther : Workspace :=
  (Workspace.ofDisk (oneFile "int a;\nint b;\n") true).holdLines ⟨"/x.cpp"⟩ ["int c;", "int b;"]

/-- A stage at which the patch touches nothing. -/
def untouched : Stage := (start 3 holdingOther).run [.render]

/-- The stage after an edit of the first line that is held, which the file does not have. -/
def triedFirst : Stage := untouched.after (.edit ⟨"/x.cpp"⟩ 1 .delete)

/-- The edit has taken a working copy; the second line is deleted later. -/
theorem failing_edit_unseen_triedFirst :
    untouched.answer ⟨"/x.cpp"⟩ 1 .delete ≠ .ok true ∧
      triedFirst.patch.copy? ⟨"/x.cpp"⟩ = some ["int a;", "int b;"] ∧
      (∀ style, ((triedFirst.patch.render style).on triedFirst.workspace).1 =
        ((untouched.patch.render style).on untouched.workspace).1) ∧
      untouched.answers [.edit ⟨"/x.cpp"⟩ 2 .delete] = [.ok true] ∧
      triedFirst.answers [.edit ⟨"/x.cpp"⟩ 2 .delete] = [.ok true] ∧
      (triedFirst.run [.edit ⟨"/x.cpp"⟩ 2 .delete]).patch.copy? ⟨"/x.cpp"⟩ =
        (untouched.run [.edit ⟨"/x.cpp"⟩ 2 .delete]).patch.copy? ⟨"/x.cpp"⟩ := by
  have hcall : untouched.answer ⟨"/x.cpp"⟩ 1 .delete ≠ .ok true := by decide +kernel
  have hlater : untouched.answers [.edit ⟨"/x.cpp"⟩ 2 .delete] = [.ok true] := by decide +kernel
  have hcopy : (untouched.run [.edit ⟨"/x.cpp"⟩ 2 .delete]).patch.copy? ⟨"/x.cpp"⟩ =
      some ["int a;"] := by decide +kernel
  obtain ⟨hshown, hrun⟩ := failing_edit_unseen 3 holdingOther [.render] ⟨"/x.cpp"⟩ 1 .delete hcall
  obtain ⟨hanswers, hcopies⟩ := hrun [.edit ⟨"/x.cpp"⟩ 2 .delete] (by simp [Act.Names])
  refine ⟨hcall, by decide +kernel, hshown, hlater, hanswers.trans hlater, ?_⟩
  rcases hcopies ⟨"/x.cpp"⟩ with heq | ⟨-, hnone, -⟩
  · exact heq
  · exact absurd (hcopy.symm.trans hnone) (by simp)

/-- **An edit that finds nothing may help another one**: below a file nothing can be read, but the path
with a slash behind it is taken for the file, whose lines are held after the first edit. -/
theorem failing_edit_helps_other_spelling :
    (start 3 (.ofDisk (oneFile "int a;\nint b;\n") false)).answer ⟨"/x.cpp"⟩ 9 .delete = .ok false ∧
      (start 3 (.ofDisk (oneFile "int a;\nint b;\n") false)).answers
          [.edit ⟨"/x.cpp"⟩ 9 .delete, .edit ⟨"/x.cpp/"⟩ 1 .delete] = [.ok false, .ok true] ∧
      ((start 3 (.ofDisk (oneFile "int a;\nint b;\n") false)).run
          [.edit ⟨"/x.cpp"⟩ 9 .delete, .edit ⟨"/x.cpp/"⟩ 1 .delete]).patch.copy? ⟨"/x.cpp"⟩ =
        some ["int b;"] ∧
      (start 3 (.ofDisk (oneFile "int a;\nint b;\n") false)).answers
          [.edit ⟨"/x.cpp/"⟩ 1 .delete] = [.error (.readFile ⟨"/x.cpp/"⟩)] ∧
      ((start 3 (.ofDisk (oneFile "int a;\nint b;\n") false)).run
          [.edit ⟨"/x.cpp/"⟩ 1 .delete]).patch.copy? ⟨"/x.cpp"⟩ = none := by
  decide +kernel

end Stage

end Patch

end Upkeep
