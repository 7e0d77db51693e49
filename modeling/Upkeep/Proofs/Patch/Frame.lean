/-
**What patches leave alone.**

A history of edits may be aimed at any lines, in any order, while somebody writes the disk.  Whatever
it holds, a working copy keeps all lines of its file that are neither blank nor read like a line that
an edit of the file was aimed at: they stay in order, each as often as it was there, and none comes to
them but what an edit put there.  The working copies of all other files stay as they are.

Main definitions:

* `Upkeep.Patch.Act.edits` — acts that edit a file.

Main results:

* `Upkeep.Patch.Stage.copy?_run_append` — acts that edit other files;
* `Upkeep.Patch.Stage.edits_leave_others` — **what a history of edits leaves alone**.
-/

import Upkeep.Proofs.Patch.History

set_option relaxedAutoImplicit false
set_option autoImplicit false

namespace Upkeep

namespace Patch

open Files

variable {w : Workspace} {file : Path} {acts : List Act} {act : Act}

/-- Whether an act edits a file. -/
def Act.edits (file : Path) : Act → Bool
  | edit f _ _ => f.same file
  | _ => false

namespace Stage

/-- An act that edits another file leaves the working copy alone. -/
theorem copy?_after {s : Stage} (hd : s.patch.Distinct) (h : act.edits file = false) :
    (s.after act).patch.copy? file = s.patch.copy? file := by
  cases act with
  | edit f n e =>
      rw [after]
      split
      · rename_i hedit
        exact copy?_edit_of_not_same hd hedit h
      · rfl
  | write disk => rfl
  | render => rfl

/-- Acts that edit other files leave the working copy alone. -/
theorem copy?_run_append (context : Nat) (w : Workspace) (acts : List Act) {more : List Act}
    (h : ∀ act ∈ more, act.edits file = false) :
    ((start context w).run (acts ++ more)).patch.copy? file =
      ((start context w).run acts).patch.copy? file := by
  induction more using List.reverseRecOn with
  | nil => rw [List.append_nil]
  | append_singleton more act ih =>
      obtain ⟨hmore, hact⟩ := List.forall_mem_append.1 h
      have hdistinct := (copied_run context w (acts ++ more)).distinct
      rw [← List.append_assoc, run_concat,
        copy?_after hdistinct (hact act (List.mem_singleton_self _)), ih hmore]

/-- **What a history of edits leaves alone**.  A working copy keeps the lines of the file, as it was
when the copy was taken, that are not blank and that no edit of the file was aimed at by their text, in
order and as often as they were there; apart from lines that edits put there, none comes to them.  The
working copies of files that are not edited stay as they are. -/
theorem edits_leave_others (context : Nat) (w : Workspace) (acts : List Act) :
    (∀ file text, (file, text) ∈ ((start context w).run acts).patch.copies →
      ∃ base, (start context w).Loaded acts file base ∧
        (aside (targets ((start context w).run acts).workspace file acts) base).Sublist text ∧
        aside (targets ((start context w).run acts).workspace file acts ++
            puts ((start context w).run acts).workspace file acts) text =
          aside (targets ((start context w).run acts).workspace file acts ++
            puts ((start context w).run acts).workspace file acts) base) ∧
    ∀ file more, (∀ act ∈ more, act.edits file = false) →
      ((start context w).run (acts ++ more)).patch.copy? file =
        ((start context w).run acts).patch.copy? file := by
  refine ⟨?_, fun file more h => copy?_run_append context w acts h⟩
  intro file text hcopy
  obtain ⟨base, aims, hloaded, rfl, haims⟩ := (copied_run context w acts).copies _ hcopy
  refine ⟨base, hloaded, ?_, ?_⟩
  · have hkept := aside_sublist_editAll (fun aim haim => (haims aim haim).1) base
    exact hkept.trans List.filter_sublist
  · refine aside_editAll ?_ base
    intro aim haim
    obtain ⟨htarget, hrows⟩ := haims aim haim
    exact ⟨List.mem_append_left _ htarget, fun line hline => List.mem_append_right _ (hrows hline)⟩

/-- A file in which some lines are equal and some are blank. -/
def sixCalls : List String := ["k(d);", "f(a);", "", "g(b);", "", "h(c);", "k(d);"]

/-- A workspace that holds the file. -/
def holdingCalls : Workspace := (Workspace.ofDisk ⟨[], []⟩ false).holdLines ⟨"a.cpp"⟩ sixCalls

/-- A line comes to read like another one, which is deleted then. -/
def overtaken : List Act :=
  [.edit ⟨"a.cpp"⟩ 2 (.replace "h(c);"), .edit ⟨"a.cpp"⟩ 6 .delete, .edit ⟨"a.cpp"⟩ 4 .delete]

theorem edits_leave_others_overtaken :
    (⟨"a.cpp"⟩, ["k(d);", "h(c);", "k(d);"]) ∈ ((start 3 holdingCalls).run overtaken).patch.copies ∧
      ∃ base, (start 3 holdingCalls).Loaded overtaken ⟨"a.cpp"⟩ base ∧
        (aside ["f(a);", "h(c);", "g(b);"] base).Sublist ["k(d);", "h(c);", "k(d);"] ∧
        ∀ more, (∀ act ∈ more, act.edits ⟨"a.cpp"⟩ = false) →
          ((start 3 holdingCalls).run (overtaken ++ more)).patch.copy? ⟨"a.cpp"⟩ =
            some ["k(d);", "h(c);", "k(d);"] := by
  have hcopies : ((start 3 holdingCalls).run overtaken).patch.copies =
      [(⟨"a.cpp"⟩, ["k(d);", "h(c);", "k(d);"])] := by decide +kernel
  have htargets : targets ((start 3 holdingCalls).run overtaken).workspace ⟨"a.cpp"⟩ overtaken =
      ["f(a);", "h(c);", "g(b);"] := by decide +kernel
  obtain ⟨hkept, hothers⟩ := edits_leave_others 3 holdingCalls overtaken
  have hmem : (⟨"a.cpp"⟩, ["k(d);", "h(c);", "k(d);"]) ∈
      ((start 3 holdingCalls).run overtaken).patch.copies := hcopies ▸ List.mem_singleton_self _
  obtain ⟨base, hloaded, hsublist, -⟩ := hkept _ _ hmem
  rw [htargets] at hsublist
  refine ⟨hmem, base, hloaded, hsublist, ?_⟩
  intro more hmore
  rw [hothers ⟨"a.cpp"⟩ more hmore, copy?, hcopies]
  rfl

end Stage

end Patch

end Upkeep
