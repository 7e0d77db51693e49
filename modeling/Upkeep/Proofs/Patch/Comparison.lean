/-
**Comparing working copies with their files.**

To show a patch, its working copies are compared with the lines of their files, one after the other.
The context plays no part in the reading: it only says how the differences are cut into hunks.  Once
the lines are there, reading them leaves the workspace alone, and a patch can be shown again and again.

Main definitions:

* `Upkeep.Patch.compared` — the working copies with the lines that they are compared with;
* `Upkeep.Patch.changesOf` — the changes that these make;
* `Upkeep.Files.Workspace.Settled` — files that are read without a trace.

Main results:

* `Upkeep.Patch.on_changes` — the changes of a patch come of the comparison alone;
* `Upkeep.Patch.on_compared_of_settled` — a comparison without a trace;
* `Upkeep.Patch.compared_again` — **a second comparison finds what the first one found**.
-/

import Upkeep.Proofs.Patch.Reading

set_option relaxedAutoImplicit false
set_option autoImplicit false

namespace Upkeep

namespace Files

variable {α β γ : Type} {w w' : Workspace} {f : Path} {ls : List String}

/-- What is made of every result can be made of the list of them. -/
theorem on_mapM_map (k : α → Work β) (g : β → γ) (xs : List α) (w : Workspace) :
    (xs.mapM fun x => do return g (← k x)).on w =
      (((xs.mapM k).on w).1.map (List.map g), ((xs.mapM k).on w).2) := by
  induction xs generalizing w with
  | nil => rfl
  | cons x xs ih =>
      rw [List.mapM_cons, List.mapM_cons, on_bind, on_bind, on_bind]
      rcases (k x).on w with ⟨e | y, w₁⟩
      · rfl
      · simp only [on_pure]
        rw [on_bind, on_bind, ih]
        rcases (xs.mapM k).on w₁ with ⟨e | ys, w₂⟩ <;> rfl

/-- Operations that leave the workspace alone do so one after the other. -/
theorem on_mapM_of_forall {k : α → Work β} {r : α → Outcome β} {xs : List α}
    (h : ∀ x ∈ xs, (k x).on w = (r x, w)) : (xs.mapM k).on w = (xs.mapM r, w) := by
  induction xs with
  | nil => rfl
  | cons x xs ih =>
      obtain ⟨hx, hxs⟩ := List.forall_mem_cons.1 h
      rw [List.mapM_cons, List.mapM_cons, on_bind, hx]
      cases r x with
      | error e => rfl
      | ok y =>
          dsimp only
          rw [on_bind, ih hxs]
          cases xs.mapM r <;> rfl

/-! ### Files that are read without a trace -/

namespace Workspace

/-- What patches compare with is read without a trace, if it can be read: the workspace rereads, or
holds the file. -/
def Settled (w : Workspace) (f : Path) : Prop := w.rereads = true ∨ ∃ ls, w.held? f = some ls

theorem Current.settled (h : w.Current f ls) : w.Settled f := by
  rw [current_iff] at h
  split at h
  · exact .inl ‹_›
  · exact .inr ⟨ls, h⟩

theorem Settled.mono (h : w.Settled f) (hw : w.Extends w') : w'.Settled f := by
  rcases h with h | ⟨ls, h⟩
  · exact .inl (hw.rereads.trans h)
  · exact .inr ⟨ls, hw.held f ls h⟩

/-- What patches compare with is read, and the workspace stays as it is. -/
theorem Settled.on (h : w.Settled f) :
    (currentLines f).on w = (((currentLines f).on w).1, w) := by
  rw [run_currentLines]
  split
  · cases readLines w.disk f <;> rfl
  · rename_i hrereads
    obtain ⟨ls, hls⟩ := h.resolve_left hrereads
    rw [heldLines_of_held? hls]

/-- A workspace with more lines compares settled files with the same lines. -/
theorem Settled.currentLines_eq (h : w.Settled f) (hw : w.Extends w') :
    ((currentLines f).on w').1 = ((currentLines f).on w).1 := by
  rw [on_currentLines, on_currentLines, hw.rereads, hw.disk]
  split
  · rfl
  · rename_i hrereads
    obtain ⟨ls, hls⟩ := h.resolve_left hrereads
    rw [seen_of_held? hls, seen_of_held? (hw.held f ls hls)]

end Workspace

end Files

namespace Patch

open Files

variable {p : Patch} {w w' : Workspace}

/-! ### Comparisons -/

/-- A working copy: its file, the lines that it is compared with, and its own. -/
abbrev Compared := Path × List String × List String

/-- The working copies of a patch with the lines that they are compared with. -/
def compared (p : Patch) : Work (List Compared) :=
  p.copies.mapM fun c => do return (c.1, ← currentLines c.1, c.2)

/-- The changes that compared working copies make. -/
def changesOf (context : Nat) (cs : List Compared) : Diff.PatchSet :=
  (cs.map fun c => ⟨c.1, Diff.hunks c.2.1 c.2.2 context⟩).filter fun f => !f.hunks.isEmpty

/-- **The changes of a patch come of the comparison alone.** -/
theorem on_changes (p : Patch) (w : Workspace) :
    p.changes.on w = ((p.compared.on w).1.map (changesOf p.context), (p.compared.on w).2) := by
  -- Every comparison is followed by the making of its hunks.
  have hstep : ∀ c : Path × List String, (do
      let now ← currentLines c.1
      return (c.1, Diff.hunks now c.2 p.context) : Work (Path × List Diff.Hunk)) = do
        let c' ← (do return (c.1, ← currentLines c.1, c.2) : Work Compared)
        return (c'.1, Diff.hunks c'.2.1 c'.2.2 p.context) := by
    intro c
    rw [bind_assoc]
    simp only [pure_bind]
  have hmap := on_mapM_map (fun c : Path × List String => do return (c.1, ← currentLines c.1, c.2))
    (fun c : Compared => (c.1, Diff.hunks c.2.1 c.2.2 p.context)) p.copies w
  simp only [← hstep] at hmap
  have hsets : (p.copies.mapM fun (file, text) => do
      let now ← currentLines file
      return (file, Diff.hunks now text p.context)).on w =
        ((p.compared.on w).1.map (List.map fun c => (c.1, Diff.hunks c.2.1 c.2.2 p.context)),
          (p.compared.on w).2) := hmap
  rw [changes, on_bind, hsets]
  rcases p.compared.on w with ⟨e | cs, w'⟩
  · rfl
  · simp only [on_pure, Except.map, changesOf, List.filter_map, List.map_map]
    rfl

/-- A comparison of settled files leaves the workspace alone, and finds the same whatever else is held. -/
theorem on_compared_of_settled (h : ∀ f ∈ p.files, w.Settled f) (hw : w.Extends w') :
    p.compared.on w' =
      (p.copies.mapM fun c => ((currentLines c.1).on w).1.map fun now => (c.1, now, c.2), w') := by
  refine on_mapM_of_forall fun c hc => ?_
  have hsettled := h c.1 (List.mem_map_of_mem hc)
  rw [on_bind, (hsettled.mono hw).on, hsettled.currentLines_eq hw]
  cases ((currentLines c.1).on w).1 <;> rfl

/-- What was compared is there to be compared with. -/
theorem current_of_compared {cs : List Compared} (h : p.compared.on w = (.ok cs, w')) :
    w.Extends w' ∧ (∀ c ∈ cs, w'.Current c.1 c.2.1) ∧
      p.copies = cs.map fun c => (c.1, c.2.2) := by
  rw [compared] at h
  generalize p.copies = copies at h ⊢
  induction copies generalizing w cs with
  | nil =>
      cases h
      exact ⟨.refl _, by simp, rfl⟩
  | cons copy copies ih =>
      rw [List.mapM_cons, on_bind_ok] at h
      obtain ⟨c, w₁, hc, h⟩ := h
      obtain ⟨cs, w₂, hcs, h⟩ := on_bind_ok.1 h
      cases h
      obtain ⟨now, w₃, hnow, hc⟩ := on_bind_ok.1 hc
      cases hc
      obtain ⟨hext, hcurrent⟩ := currentLines_ok hnow
      obtain ⟨hext', hrest, hcopies⟩ := ih hcs
      exact ⟨hext.trans hext', List.forall_mem_cons.2 ⟨hcurrent.mono hext', hrest⟩, by
        rw [hcopies, List.map_cons]⟩

/-- **A second comparison finds what the first one found**, and leaves the workspace alone. -/
theorem compared_again {cs : List Compared} (h : p.compared.on w = (.ok cs, w')) :
    p.compared.on w' = (.ok cs, w') := by
  obtain ⟨-, hcurrent, hcopies⟩ := current_of_compared h
  rw [compared, hcopies]
  clear h hcopies
  induction cs with
  | nil => rfl
  | cons c cs ih =>
      obtain ⟨hc, hcs⟩ := List.forall_mem_cons.1 hcurrent
      rw [List.map_cons, List.mapM_cons, on_bind_ok]
      exact ⟨c, w', on_bind_ok.2 ⟨c.2.1, w', hc, rfl⟩, on_bind_ok.2 ⟨cs, w', ih hcs, rfl⟩⟩

end Patch

end Upkeep
