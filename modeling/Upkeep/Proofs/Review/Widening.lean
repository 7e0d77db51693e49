/-
**More context, the same changes.**

The context decides how many kept lines a patch shows and where its hunks begin and end, and nothing
else: the same files are changed, and in each of them the same lines are removed, added and marked, one
after the other.  A reviewer who asks for more context, however often, is shown and hands over the same
changes.  If the patch cannot be shown, nothing is handed over.

Main definitions:

* `Upkeep.Diff.FilePatch.told` — a changed file without context: its path and its changed lines.

Main results:

* `Upkeep.Patch.told_changes` — what a patch changes is the same in any context;
* `Upkeep.Review.on_reviewRemoval_of_compared` — a review does not depend on what is read before it;
* `Upkeep.Review.context_only_adds` — **context only adds context**.
-/

import Upkeep.Proofs.Diff.Context
import Upkeep.Proofs.Patch.Comparison
import Upkeep.Proofs.Review.Dialogue

set_option relaxedAutoImplicit false
set_option autoImplicit false

namespace Upkeep

open Files

/-- A changed file without context: its path, and its removed, added and marked lines. -/
def Diff.FilePatch.told (f : Diff.FilePatch) : Path × List Diff.HunkLine :=
  (f.path, Diff.changedLines f.hunks)

namespace Patch

variable {p : Patch} {w w' : Workspace}

/-! ### Changes in any context -/

theorem changesOf_cons (context : Nat) (c : Compared) (cs : List Compared) :
    changesOf context (c :: cs) =
      if Diff.hunks c.2.1 c.2.2 context = [] then changesOf context cs
      else ⟨c.1, Diff.hunks c.2.1 c.2.2 context⟩ :: changesOf context cs := by
  rw [changesOf, List.map_cons, List.filter_cons, ← changesOf]
  split <;> simp_all

/-- The same working copies are shown in any context, with the same changed lines. -/
theorem told_changesOf (context context' : Nat) (cs : List Compared) :
    (changesOf context cs).map Diff.FilePatch.told =
      (changesOf context' cs).map Diff.FilePatch.told := by
  induction cs with
  | nil => rfl
  | cons c cs ih =>
      have hnil : Diff.hunks c.2.1 c.2.2 context = [] ↔ Diff.hunks c.2.1 c.2.2 context' = [] := by
        rw [Diff.hunks_eq_nil_iff, Diff.hunks_eq_nil_iff]
      have htold : Diff.FilePatch.told ⟨c.1, Diff.hunks c.2.1 c.2.2 context⟩ =
          Diff.FilePatch.told ⟨c.1, Diff.hunks c.2.1 c.2.2 context'⟩ := by
        rw [Diff.FilePatch.told, Diff.FilePatch.told, Diff.changedLines_hunks, Diff.changedLines_hunks]
      rw [changesOf_cons, changesOf_cons]
      split
      · rw [if_pos (hnil.1 ‹_›), ih]
      · rw [if_neg (mt hnil.2 ‹_›), List.map_cons, List.map_cons, htold, ih]

/-- The changes of a patch in another context come of the same comparison. -/
theorem on_changes_context (p : Patch) (context : Nat) (w : Workspace) :
    Work.on { p with context := context }.changes w =
      ((p.compared.on w).1.map (changesOf context), (p.compared.on w).2) := on_changes _ w

/-- **What a patch changes is the same in any context**, and what is read for it, too. -/
theorem told_changes (p : Patch) (context context' : Nat) (w : Workspace) :
    (Work.on { p with context := context }.changes w).1.map (List.map Diff.FilePatch.told) =
        (Work.on { p with context := context' }.changes w).1.map (List.map Diff.FilePatch.told) ∧
      (Work.on { p with context := context }.changes w).2 =
        (Work.on { p with context := context' }.changes w).2 := by
  rw [on_changes_context, on_changes_context]
  refine ⟨?_, rfl⟩
  cases (p.compared.on w).1 with
  | error e => rfl
  | ok cs => exact congrArg Except.ok (told_changesOf context context' cs)

theorem on_render (p : Patch) (style : Diff.Style) (w : Workspace) :
    (p.render style).on w = ((p.changes.on w).1.map (Diff.render style), (p.changes.on w).2) := by
  rw [render, on_bind]
  rcases p.changes.on w with ⟨e | ps, w'⟩ <;> rfl

/-- What was compared can be read again. -/
theorem readable_of_compared {cs : List Compared} (h : p.compared.on w = (.ok cs, w')) :
    p.Readable w' := by
  obtain ⟨-, hcurrent, hcopies⟩ := current_of_compared h
  intro f hf
  rw [files, hcopies, List.map_map] at hf
  obtain ⟨c, hc, rfl⟩ := List.mem_map.1 hf
  exact ⟨c.2.1, congrArg Prod.fst (hcurrent c hc)⟩

end Patch

namespace Review

variable {p : Patch} {d : Desk} {cs : List Patch.Compared} {w : Workspace}

/-! ### Reviews in any context -/

/-- A patch that was compared with its files is shown as if it had not been. -/
theorem on_present_of_compared (h : p.compared.on d.workspace = (.ok cs, w)) (color : Bool) :
    (present color p).on d = (present color p).on { d with workspace := w } := by
  have hagain := Patch.compared_again h
  rw [present, on_bind_eq, on_bind_eq, on_work_eq, on_work_eq]
  simp only [Patch.on_render, Patch.on_changes, h, hagain]

/-- **A review does not depend on what is read before it.** -/
theorem on_reviewRemoval_of_compared (h : p.compared.on d.workspace = (.ok cs, w)) (color : Bool) :
    (reviewRemoval color p).on d = (reviewRemoval color p).on { d with workspace := w } := by
  have hloop : ∀ answers : List String, (removalLoop color answers p).on d =
      (removalLoop color answers p).on { d with workspace := w } := by
    intro answers
    cases answers <;> rw [removalLoop, on_bind_eq, on_bind_eq, on_present_of_compared h]
  exact hloop d.answers

/-- If the working copies cannot be compared with their files, the review fails and nothing happens in
it. -/
theorem log_of_compared_error {e : Failure} (h : (p.compared.on d.workspace).1 = .error e)
    (color : Bool) : ((reviewRemoval color p).on d).2.log = d.log := by
  have hpresent : ∃ w', (present color p).on d = (.error e, { d with workspace := w' }) := by
    refine ⟨(p.compared.on d.workspace).2, ?_⟩
    rw [present, on_bind_eq, on_work_eq, Patch.on_render, Patch.on_changes, h]
    rfl
  obtain ⟨w', hpresent⟩ := hpresent
  have hloop : ∀ answers : List String,
      (removalLoop color answers p).on d = (.error e, { d with workspace := w' }) := by
    intro answers
    cases answers <;> rw [removalLoop, on_bind_eq, hpresent]
  exact congrArg (fun r => r.2.log) (hloop d.answers)

/-- **Context only adds context.**  The hunks between two lists have the same removed, added and marked
lines, one hunk after the other, in any two contexts, and there are none in the one where there are none
in the other.  A patch changes the same files in any two contexts, with the same changed lines.  And
whatever is answered in a review, and whatever the applier does, what is handed over is the plain text
of the patch in the context asked for until then, which changes the same files, with the same changed
lines, as the patch did before. -/
theorem context_only_adds :
    (∀ (old new : List String) (context context' : Nat),
      Diff.changedLines (Diff.hunks old new context) =
          Diff.changedLines (Diff.hunks old new context') ∧
        (Diff.hunks old new context = [] ↔ Diff.hunks old new context' = [])) ∧
    (∀ (p : Patch) (context context' : Nat) (w : Workspace),
      (Work.on { p with context := context }.changes w).1.map (List.map Diff.FilePatch.told) =
          (Work.on { p with context := context' }.changes w).1.map (List.map Diff.FilePatch.told) ∧
        (Work.on { p with context := context }.changes w).2 =
          (Work.on { p with context := context' }.changes w).2) ∧
    ∀ (color : Bool) (p : Patch) (d : Desk), ∃ t,
      ((reviewRemoval color p).on d).2.log = t ++ d.log ∧
        ∀ c f before, .called c f :: before <:+ t → ∃ base ps w,
          p.changes.on d.workspace = (.ok base, w) ∧
          (widened p before).changes.on d.workspace = (.ok ps, w) ∧
          c.diff = Diff.render .plain ps ∧
          ps.map Diff.FilePatch.told = base.map Diff.FilePatch.told := by
  refine ⟨?_, Patch.told_changes, ?_⟩
  · intro old new context context'
    rw [Diff.changedLines_hunks, Diff.changedLines_hunks, Diff.hunks_eq_nil_iff, Diff.hunks_eq_nil_iff]
    exact ⟨rfl, Iff.rfl⟩
  · intro color p d
    cases h : p.compared.on d.workspace with
    | mk result w =>
        cases result with
        | error e =>
            exact ⟨[], log_of_compared_error (by rw [h]) color, fun c f before hc =>
              absurd (List.suffix_nil.1 hc) (List.cons_ne_nil _ _)⟩
        | ok cs =>
            have hreadable : p.Readable ({ d with workspace := w } : Desk).workspace :=
              Patch.readable_of_compared h
            obtain ⟨ending, d', t, hrun, hover⟩ := over_reviewRemoval color hreadable
            refine ⟨t, ?_, ?_⟩
            · rw [on_reviewRemoval_of_compared h, hrun]
              exact hover.log_eq
            · intro c f before hc
              obtain ⟨q, -, rfl, hdiff⟩ := hover.faithful.handed c f before hc
              -- The patch that is handed over differs in its context alone.
              rw [Patch.on_render, widened, Patch.on_changes_context, Patch.compared_again h] at hdiff
              refine ⟨Patch.changesOf p.context cs, _, w, ?_, ?_, (Except.ok.inj hdiff).symm,
                Patch.told_changesOf _ _ cs⟩
              · rw [Patch.on_changes, h]
                rfl
              · rw [widened, Patch.on_changes_context, h]
                rfl

end Review

end Upkeep
