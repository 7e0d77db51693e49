/-
**Patches while the disk changes.**

Somebody may write the files of a patch while it is made and shown.  The patch takes its working copy
of a file when it first touches the file, and compares it with the file as it is when the patch is
shown, if the workspace rereads.  So the patch also takes back what came to the file in between, and
brings back what went.  The law counts: apart from this and from blank lines, a line is removed only if
an edit was aimed at it, and added only if an edit put it there.

Main definitions:

* `Upkeep.Patch.Act`, `Upkeep.Patch.Stage` — what happens to a patch and to the disk around it;
* `Upkeep.Patch.Stage.run` — what a history of acts leaves behind;
* `Upkeep.Patch.targets`, `Upkeep.Patch.puts` — the lines that edits were aimed at, and those that came
  for them;
* `Upkeep.Patch.Stage.Taken`, `Upkeep.Patch.Stage.Loaded` — a file as it was when its working copy was
  taken, on the disk and in the workspace;
* `Upkeep.Traces` — a text in which only aimed lines went and only put lines came.

Main results:

* `Upkeep.Traces.atFirst`, `Upkeep.Traces.editAll` — what edits leave of a text;
* `Upkeep.Patch.Stage.copied_run`, `Upkeep.Patch.Stage.tracked_run` — what every history makes, and
  leaves, of every working copy;
* `Upkeep.Patch.Stage.render_takes_back` — **which lines a patch removes and adds**.
-/

import Mathlib.Data.List.Induction
import Upkeep.Proofs.Diff.Lines
import Upkeep.Proofs.Patch.Copies
import Upkeep.Proofs.Patch.Reading

set_option relaxedAutoImplicit false
set_option autoImplicit false

namespace Upkeep

open Files

/-! ### Lines that a patch removes and adds -/

namespace Diff

/-- The line of the old list that goes. -/
def HunkLine.gone : HunkLine → List String
  | removed s => [s]
  | marked old _ => [old]
  | _ => []

/-- The line of the new list that comes. -/
def HunkLine.come : HunkLine → List String
  | added s => [s]
  | marked _ new => [new]
  | _ => []

/-- The lines that a patch removes from a file. -/
def FilePatch.removed (f : FilePatch) : List String :=
  f.hunks.flatMap fun h => h.lines.flatMap HunkLine.gone

/-- The lines that a patch adds to a file. -/
def FilePatch.added (f : FilePatch) : List String :=
  f.hunks.flatMap fun h => h.lines.flatMap HunkLine.come

/-- What is kept stands on both sides. -/
theorem count_hunkLines (ls : List HunkLine) (line : String) :
    (ls.flatMap HunkLine.before).count line + (ls.flatMap HunkLine.come).count line =
      (ls.flatMap HunkLine.after).count line + (ls.flatMap HunkLine.gone).count line := by
  induction ls with
  | nil => rfl
  | cons l ls ih =>
      simp only [List.flatMap_cons, List.count_append]
      cases l <;> simp only [HunkLine.before, HunkLine.come, HunkLine.after, HunkLine.gone,
        List.count_nil] <;> omega

/-- The lines removed and added make up the difference between two texts. -/
theorem count_removed {f : FilePatch} {old new : List String} {context : Nat}
    (hf : f.hunks = hunks old new context) (line : String) :
    old.count line + f.added.count line = new.count line + f.removed.count line := by
  have hsides : (f.hunks.flatMap Hunk.oldLines).count line + f.added.count line =
      (f.hunks.flatMap Hunk.newLines).count line + f.removed.count line := by
    have hlines := count_hunkLines (f.hunks.flatMap Hunk.lines) line
    simp only [List.flatMap_assoc] at hlines
    exact hlines
  have hcount := count_hunks old new context line
  rw [← hf] at hcount
  omega

end Diff

/-! ### Texts with some edits -/

/-- Blank lines apart, a text has lost only lines that were aimed at, and gained only lines that were
put there. -/
structure Traces (targets puts base text : List String) : Prop where
  least : ∀ line, Text.isBlankLine line = false → line ∉ targets → base.count line ≤ text.count line
  most : ∀ line, Text.isBlankLine line = false → line ∉ puts → text.count line ≤ base.count line

namespace Traces

variable {targets puts base text : List String} {target : String}

theorem refl (targets puts base : List String) : Traces targets puts base base :=
  ⟨fun _ _ _ => Nat.le_refl _, fun _ _ _ => Nat.le_refl _⟩

/-- One more edit takes its target and puts its rows. -/
theorem atFirst (h : Traces targets puts base text) (e : LineEdit) (htarget : target ∈ targets)
    (hrows : e.rows target ⊆ puts) : Traces targets puts base (e.atFirst text target) := by
  by_cases hmem : target ∈ text
  · constructor
    · intro line hline haim
      have hleast := h.least line hline haim
      have hedited := e.count_atFirst hmem hline
      have hother : [target].count line = 0 := by
        rw [List.count_eq_zero, List.mem_singleton]
        rintro rfl
        exact haim htarget
      omega
    · intro line hline hput
      have hmost := h.most line hline hput
      have hedited := e.count_atFirst hmem hline
      have hother : (e.rows target).count line = 0 :=
        List.count_eq_zero.2 fun hrow => hput (hrows hrow)
      omega
  · rwa [e.atFirst_of_not_mem hmem]

/-- Edits aimed at targets that put their rows. -/
theorem editAll {aims : List (LineEdit × String)}
    (h : ∀ aim ∈ aims, aim.2 ∈ targets ∧ aim.1.rows aim.2 ⊆ puts) (base : List String) :
    Traces targets puts base (editAll aims base) := by
  induction aims using List.reverseRecOn with
  | nil => exact refl targets puts base
  | append_singleton aims aim ih =>
      obtain ⟨haims, haim⟩ := List.forall_mem_append.1 h
      obtain ⟨htarget, hrows⟩ := haim aim (List.mem_singleton_self _)
      rw [editAll_append]
      exact (ih haims).atFirst aim.1 htarget hrows

end Traces

/-! ### Histories -/

namespace Patch

/-- What happens to a patch, and to the disk around it. -/
inductive Act where
  | edit (file : Path) (line : Nat) (e : LineEdit)
  /-- Somebody writes the disk. -/
  | write (disk : Disk)
  | render

/-- A patch and the workspace in which it is made. -/
structure Stage where
  patch : Patch
  workspace : Workspace

/-- A patch that touches nothing yet. -/
def Stage.start (context : Nat) (w : Workspace) : Stage := ⟨empty context, w⟩

/-- What an act leaves behind.  An edit that fails leaves the patch as it is. -/
def Stage.after (s : Stage) : Act → Stage
  | .edit file n e =>
    match (s.patch.edit file n e).on s.workspace with
    | (.ok (_, p), w) => ⟨p, w⟩
    | (.error _, w) => ⟨s.patch, w⟩
  | .write disk => { s with workspace := { s.workspace with disk := disk } }
  | .render => { s with workspace := (s.patch.changes.on s.workspace).2 }

/-- What a history of acts leaves behind. -/
def Stage.run (s : Stage) (acts : List Act) : Stage := acts.foldl Stage.after s

theorem Stage.run_concat (s : Stage) (acts : List Act) (act : Act) :
    s.run (acts ++ [act]) = (s.run acts).after act := by
  rw [run, List.foldl_append]
  rfl

/-- The line of a file that an act is aimed at, as it was when the file was first read. -/
def Act.target? (w : Workspace) (file : Path) : Act → Option String
  | edit f n _ => if f.same file then w.lineAt? f n else none
  | _ => none

/-- The lines that an act puts in the place of the line that it is aimed at. -/
def Act.rows : Act → String → List String
  | edit _ _ e, line => e.rows line
  | _, _ => []

/-- The lines of a file that edits were aimed at. -/
def targets (w : Workspace) (file : Path) (acts : List Act) : List String :=
  acts.filterMap (Act.target? w file)

/-- The lines that edits put into a file. -/
def puts (w : Workspace) (file : Path) (acts : List Act) : List String :=
  acts.flatMap fun act => (act.target? w file).toList.flatMap act.rows

variable {w w' : Workspace} {file : Path} {acts : List Act} {act : Act}

/-- What was aimed at stays known. -/
theorem target?_of_keeps (h : w.Keeps w') {line : String} (ht : act.target? w file = some line) :
    act.target? w' file = some line := by
  cases act with
  | edit f n e =>
      rw [Act.target?] at ht ⊢
      split at ht
      · rw [if_pos ‹_›]
        exact h.lineAt? ht
      · cases ht
  | write disk => cases ht
  | render => cases ht

theorem targets_subset (h : w.Keeps w') (act : Act) :
    targets w file acts ⊆ targets w' file (acts ++ [act]) := by
  intro line hline
  obtain ⟨a, ha, htarget⟩ := List.mem_filterMap.1 hline
  exact List.mem_filterMap.2 ⟨a, List.mem_append_left _ ha, target?_of_keeps h htarget⟩

theorem puts_subset (h : w.Keeps w') (act : Act) :
    puts w file acts ⊆ puts w' file (acts ++ [act]) := by
  intro line hline
  obtain ⟨a, ha, hrow⟩ := List.mem_flatMap.1 hline
  obtain ⟨target, htarget, hrow⟩ := List.mem_flatMap.1 hrow
  refine List.mem_flatMap.2 ⟨a, List.mem_append_left _ ha, List.mem_flatMap.2 ⟨target, ?_, hrow⟩⟩
  exact Option.mem_toList.2 (target?_of_keeps h (Option.mem_toList.1 htarget))

theorem mem_targets {line : String} (h : act.target? w file = some line) :
    line ∈ targets w file (acts ++ [act]) :=
  List.mem_filterMap.2 ⟨act, List.mem_append_right _ List.mem_cons_self, h⟩

theorem rows_subset_puts {line : String} (h : act.target? w file = some line) :
    act.rows line ⊆ puts w file (acts ++ [act]) := by
  intro row hrow
  refine List.mem_flatMap.2 ⟨act, List.mem_append_right _ List.mem_cons_self, ?_⟩
  exact List.mem_flatMap.2 ⟨line, Option.mem_toList.2 h, hrow⟩

namespace Stage

/-- The lines of a file on the disk when the patch took its working copy of the file. -/
def Taken (s : Stage) (acts : List Act) (file : Path) (base : List String) : Prop :=
  ∃ before act rest, acts = before ++ act :: rest ∧
    (s.run before).patch.copy? file = none ∧
    (s.run (before ++ [act])).patch.copy? file ≠ none ∧
    readLines (s.run before).workspace.disk file = .ok base

/-- The lines that the patch compared with when it took its working copy of a file. -/
def Loaded (s : Stage) (acts : List Act) (file : Path) (base : List String) : Prop :=
  ∃ before act rest, acts = before ++ act :: rest ∧
    (s.run before).patch.copy? file = none ∧
    (s.run (before ++ [act])).patch.copy? file ≠ none ∧
    (s.run (before ++ [act])).workspace.Current file base

theorem Loaded.concat {s : Stage} {base : List String} (h : s.Loaded acts file base) (act : Act) :
    s.Loaded (acts ++ [act]) file base := by
  obtain ⟨before, a, rest, rfl, hbefore, hafter, hcurrent⟩ := h
  exact ⟨before, a, rest ++ [act], by simp, hbefore, hafter, hcurrent⟩

/-- Every working copy is what edits made of the file as it was when the copy was taken. -/
structure Copied (s : Stage) (acts : List Act) : Prop where
  distinct : (s.run acts).patch.Distinct
  copies : ∀ c ∈ (s.run acts).patch.copies, ∃ base aims, s.Loaded acts c.1 base ∧
    c.2 = editAll aims base ∧ ∀ aim ∈ aims,
      aim.2 ∈ targets (s.run acts).workspace c.1 acts ∧
      aim.1.rows aim.2 ⊆ puts (s.run acts).workspace c.1 acts

variable {s : Stage}

theorem copied_start (context : Nat) (w : Workspace) : (start context w).Copied [] :=
  ⟨List.Pairwise.nil, fun c hc => by cases hc⟩

/-- An act that leaves the patch alone. -/
theorem Copied.of_keeps (h : s.Copied acts)
    (hpatch : (s.run (acts ++ [act])).patch = (s.run acts).patch)
    (hkeeps : (s.run acts).workspace.Keeps (s.run (acts ++ [act])).workspace) :
    s.Copied (acts ++ [act]) := by
  refine ⟨hpatch ▸ h.distinct, ?_⟩
  intro c hc
  rw [hpatch] at hc
  obtain ⟨base, aims, hloaded, hedited, haims⟩ := h.copies c hc
  refine ⟨base, aims, hloaded.concat act, hedited, ?_⟩
  intro aim haim
  obtain ⟨htarget, hrows⟩ := haims aim haim
  exact ⟨targets_subset hkeeps act htarget, List.Subset.trans hrows (puts_subset hkeeps act)⟩

/-- An edit that succeeds. -/
theorem Copied.edit (h : s.Copied acts) {n : Nat} {e : LineEdit} {b : Bool} {p' : Patch}
    (hedit : ((s.run acts).patch.edit file n e).on (s.run acts).workspace = (.ok (b, p'), w')) :
    s.Copied (acts ++ [.edit file n e]) := by
  have hrun : s.run (acts ++ [.edit file n e]) = ⟨p', w'⟩ := by
    rw [run_concat, after, hedit]
  have hkeeps := ((reads_edit _ file n e).grows hedit).toExtends.keeps
  obtain ⟨hdistinct, -, -, hcopies⟩ := edit_copies h.distinct hedit
  refine ⟨by rwa [hrun], ?_⟩
  intro c hc
  rw [hrun] at hc ⊢
  obtain ⟨text, hedited, hold⟩ := hcopies c hc
  -- The last edit is aimed at this file, or not at all.
  have hlast : ∀ aim ∈ aimsAt w' c.1 [((file, n), e)],
      aim.2 ∈ targets w' c.1 (acts ++ [.edit file n e]) ∧
        aim.1.rows aim.2 ⊆ puts w' c.1 (acts ++ [.edit file n e]) := by
    intro aim haim
    obtain ⟨d, hd, hfound⟩ := List.mem_filterMap.1 haim
    obtain rfl := List.mem_singleton.1 hd
    split at hfound
    · rename_i hsame
      obtain ⟨target, hat, rfl⟩ := Option.map_eq_some_iff.1 hfound
      have haimed : Act.target? w' c.1 (.edit file n e) = some target := by
        rw [Act.target?, if_pos hsame, hat]
      exact ⟨mem_targets haimed, rows_subset_puts haimed⟩
    · cases hfound
  rcases hold with hold | ⟨hfile, hnone, hcurrent⟩
  · obtain ⟨base, aims, hloaded, rfl, haims⟩ := h.copies _ hold
    refine ⟨base, aims ++ aimsAt w' c.1 [((file, n), e)], hloaded.concat _, ?_, ?_⟩
    · rw [hedited, editAll_append]
    · intro aim haim
      rcases List.mem_append.1 haim with haim | haim
      · obtain ⟨htarget, hrows⟩ := haims aim haim
        exact ⟨targets_subset hkeeps _ htarget, List.Subset.trans hrows (puts_subset hkeeps _)⟩
      · exact hlast aim haim
  · -- The copy was taken by this very act.
    refine ⟨text, aimsAt w' c.1 [((file, n), e)], ?_, hedited, hlast⟩
    rw [hfile]
    refine ⟨acts, .edit file n e, [], rfl, hnone, ?_, ?_⟩
    · rw [hrun, copy?_of_mem hdistinct hc (by rw [hfile, Path.same_self])]
      simp
    · rw [hrun]
      exact hcurrent

/-- What one more act leaves. -/
theorem Copied.after (h : s.Copied acts) (act : Act) : s.Copied (acts ++ [act]) := by
  cases act with
  | edit file n e =>
      cases hedit : ((s.run acts).patch.edit file n e).on (s.run acts).workspace with
      | mk result w' =>
          cases result with
          | ok r => exact h.edit hedit
          | error failure =>
              have hrun : s.run (acts ++ [.edit file n e]) = ⟨(s.run acts).patch, w'⟩ := by
                rw [run_concat, Stage.after, hedit]
              have hgrows := (reads_edit _ file n e).grows hedit
              exact h.of_keeps (by rw [hrun]) (by rw [hrun]; exact hgrows.toExtends.keeps)
  | write disk =>
      -- Working copies, and the lines that edits are aimed at, were read before.
      refine h.of_keeps (by rw [run_concat]; rfl) ?_
      rw [run_concat]
      exact ⟨rfl, fun _ _ hheld => hheld⟩
  | render =>
      refine h.of_keeps (by rw [run_concat]; rfl) ?_
      rw [run_concat]
      exact (reads_changes _ _).toExtends.keeps

/-- What every history makes of every working copy. -/
theorem copied_run (context : Nat) (w : Workspace) (acts : List Act) :
    (start context w).Copied acts := by
  induction acts using List.reverseRecOn with
  | nil => exact copied_start context w
  | append_singleton acts act ih => exact ih.after act

/-- A history does not change whether the workspace rereads. -/
theorem rereads_run (s : Stage) (acts : List Act) :
    (s.run acts).workspace.rereads = s.workspace.rereads := by
  induction acts using List.reverseRecOn with
  | nil => rfl
  | append_singleton acts act ih =>
      rw [run_concat, ← ih]
      cases act with
      | edit file n e =>
          have hgrows := reads_edit (s.run acts).patch file n e (s.run acts).workspace
          rw [Stage.after]
          split <;> rename_i hedit <;> rw [hedit] at hgrows <;> exact hgrows.rereads
      | write disk => rfl
      | render => exact (reads_changes _ _).rereads

/-- A workspace that rereads takes its working copies from the disk. -/
theorem Loaded.taken {base : List String} (h : s.Loaded acts file base)
    (hw : s.workspace.rereads = true) : s.Taken acts file base := by
  obtain ⟨before, act, rest, rfl, hbefore, hafter, hcurrent⟩ := h
  refine ⟨before, act, rest, rfl, hbefore, hafter, ?_⟩
  rw [current_iff, rereads_run, if_pos hw, run_concat] at hcurrent
  rw [run_concat] at hafter
  -- Only an edit takes a working copy, and it leaves the disk alone.
  cases act with
  | edit f n e =>
      have hgrows := reads_edit (s.run before).patch f n e (s.run before).workspace
      rw [Stage.after] at hcurrent
      split at hcurrent <;> rename_i hedit <;> rw [hedit] at hgrows <;>
        rwa [hgrows.disk] at hcurrent
  | write disk => exact absurd hbefore hafter
  | render => exact absurd hbefore hafter

/-- Every working copy is what the edits made of the file as it was when the copy was taken. -/
structure Tracked (s : Stage) (acts : List Act) : Prop where
  rereads : (s.run acts).workspace.rereads = true
  distinct : (s.run acts).patch.Distinct
  copies : ∀ c ∈ (s.run acts).patch.copies, ∃ base, s.Taken acts c.1 base ∧
    Traces (targets (s.run acts).workspace c.1 acts) (puts (s.run acts).workspace c.1 acts) base c.2

/-- What every history leaves of every working copy. -/
theorem tracked_run (context : Nat) (hw : w.rereads = true) (acts : List Act) :
    (start context w).Tracked acts := by
  have hcopied := copied_run context w acts
  refine ⟨(rereads_run _ acts).trans hw, hcopied.distinct, ?_⟩
  intro c hc
  obtain ⟨base, aims, hloaded, hedited, haims⟩ := hcopied.copies c hc
  exact ⟨base, hloaded.taken hw, hedited ▸ Traces.editAll haims base⟩

/-- **Which lines a patch removes and adds**, after any history of edits, writes and renderings.  Net of
what it adds, it removes a line that no edit was aimed at only as often as the line came to the file
since the working copy was taken; net of what it removes, it adds a line that no edit put there only as
often as the line went since. -/
theorem render_takes_back (context : Nat) (hw : w.rereads = true) (acts : List Act)
    (style : Diff.Style) {text : String}
    (h : (((start context w).run acts).patch.render style).on ((start context w).run acts).workspace =
      (.ok text, w')) :
    ∃ ps, (((start context w).run acts).patch.changes).on ((start context w).run acts).workspace =
        (.ok ps, w') ∧ text = Diff.render style ps ∧
      ∀ f ∈ ps, ∃ base now, (start context w).Taken acts f.path base ∧
        readLines ((start context w).run acts).workspace.disk f.path = .ok now ∧
        ∀ line, Text.isBlankLine line = false →
          (line ∉ targets ((start context w).run acts).workspace f.path acts →
            f.removed.count line + base.count line ≤ f.added.count line + now.count line) ∧
          (line ∉ puts ((start context w).run acts).workspace f.path acts →
            f.added.count line + now.count line ≤ f.removed.count line + base.count line) := by
  obtain ⟨ps, w₁, hps, hpure⟩ := on_bind_ok.1 h
  cases hpure
  refine ⟨ps, hps, rfl, ?_⟩
  intro f hf
  have htracked := tracked_run context hw acts
  obtain ⟨c, hc, now, hfile, hcurrent, hhunks⟩ := exists_of_mem_changes hps hf
  have hext := (reads_changes _).grows hps
  rw [current_iff, hext.rereads, if_pos htracked.rereads, hext.disk] at hcurrent
  obtain ⟨base, htaken, htraces⟩ := htracked.copies c hc
  rw [hfile] at htaken htraces
  refine ⟨base, now, htaken, hcurrent, ?_⟩
  intro line hline
  have hcount := Diff.count_removed hhunks line
  constructor
  · intro haim
    have hleast := htraces.least line hline haim
    omega
  · intro hput
    have hmost := htraces.most line hline hput
    omega

/-- A disk with one file. -/
def oneFile (text : String) : Disk := ⟨[(["x.cpp"], .file text.toUTF8)], []⟩

/-- A line is deleted, and then somebody adds one at the end of the file. -/
def addedLater : List Act :=
  [.edit ⟨"/x.cpp"⟩ 1 .delete, .write (oneFile "int a;\nint b;\nint c;\n")]

/-- What the history leaves behind. -/
def afterAddition : Stage :=
  (start 3 (.ofDisk (oneFile "int a;\nint b;\n") true)).run addedLater

/-- The line that was added is removed along with the one that was deleted. -/
def bothRemoved : Diff.FilePatch :=
  ⟨⟨"/x.cpp"⟩, [⟨⟨1, 3⟩, ⟨1, 1⟩, [.removed "int a;", .kept "int b;", .removed "int c;"]⟩]⟩

theorem changes_afterAddition : ∃ w',
    afterAddition.patch.changes.on afterAddition.workspace = (.ok [bothRemoved], w') :=
  exists_on_of_toOption (by decide +kernel)

theorem targets_afterAddition :
    targets afterAddition.workspace bothRemoved.path addedLater = ["int a;"] := rfl

theorem puts_afterAddition :
    puts afterAddition.workspace bothRemoved.path addedLater = [] := rfl

theorem render_takes_back_addedLater : ∃ text w' base now,
    (Workspace.ofDisk (oneFile "int a;\nint b;\n") true).rereads = true ∧
    (afterAddition.patch.render .plain).on afterAddition.workspace = (.ok text, w') ∧
    text = Diff.render .plain [bothRemoved] ∧
    (start 3 (.ofDisk (oneFile "int a;\nint b;\n") true)).Taken addedLater bothRemoved.path base ∧
    readLines afterAddition.workspace.disk bothRemoved.path = .ok now ∧
    bothRemoved.removed.count "int c;" + base.count "int c;" =
      bothRemoved.added.count "int c;" + now.count "int c;" := by
  obtain ⟨w', hrun⟩ := changes_afterAddition
  have hrender : (afterAddition.patch.render .plain).on afterAddition.workspace =
      (.ok (Diff.render .plain [bothRemoved]), w') := on_bind_ok.2 ⟨_, w', hrun, rfl⟩
  obtain ⟨ps, hrun', -, hlaw⟩ := render_takes_back 3 rfl addedLater .plain hrender
  obtain rfl : [bothRemoved] = ps := Except.ok.inj (Prod.mk.inj (hrun.symm.trans hrun')).1
  obtain ⟨base, now, htaken, hnow, hlaw⟩ := hlaw bothRemoved List.mem_cons_self
  obtain ⟨hleast, hmost⟩ := hlaw "int c;" (by decide +kernel)
  change "int c;" ∉ targets afterAddition.workspace bothRemoved.path addedLater → _ at hleast
  change "int c;" ∉ puts afterAddition.workspace bothRemoved.path addedLater → _ at hmost
  rw [targets_afterAddition] at hleast
  rw [puts_afterAddition] at hmost
  exact ⟨_, w', base, now, rfl, hrender, rfl, htaken, hnow,
    Nat.le_antisymm (hleast (by simp)) (hmost (by simp))⟩

/-- Not every line that a patch removes and does not put back is one that an edit was aimed at. -/
theorem not_only_targets_removed :
    ¬ ∀ (context : Nat) (w : Workspace) (acts : List Act), w.rereads = true →
      ∀ ps w', (((start context w).run acts).patch.changes).on ((start context w).run acts).workspace =
        (.ok ps, w') →
      ∀ f ∈ ps, ∀ line ∈ f.removed, line ∉ f.added → Text.isBlankLine line = false →
        line ∈ targets ((start context w).run acts).workspace f.path acts := by
  intro hclaim
  obtain ⟨w', hrun⟩ := changes_afterAddition
  have hmem := hclaim 3 (.ofDisk (oneFile "int a;\nint b;\n") true) addedLater rfl _ w' hrun
    bothRemoved List.mem_cons_self "int c;" (by decide) (by decide) (by decide +kernel)
  change "int c;" ∈ targets afterAddition.workspace bothRemoved.path addedLater at hmem
  rw [targets_afterAddition] at hmem
  simp at hmem

end Stage

end Patch

end Upkeep
