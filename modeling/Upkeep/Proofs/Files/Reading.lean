/-
**Operations that only read.**

What an operation finds depends on what a workspace holds and on the disk, and reading more files only
turns the latter into the former.  So an operation that reads files that are there gives the same
result now and later, as long as the disk stays as it is.

Main definitions:

* `Upkeep.Files.Workspace.seen` — the lines of a file as they are held or on the disk;
* `Upkeep.Files.Workspace.Agrees` — workspaces that show no less, and the same;
* `Upkeep.Files.Work.Yields` — operations with a result that stays;
* `Upkeep.Files.Workspace.Readable` — files that patches can compare with;
* `Upkeep.Files.Workspace.Grows`, `Upkeep.Files.Work.Reads` — operations that leave what they found, also
  when they fail.

Main results:

* `Upkeep.Files.Work.Yields.bind`, `Upkeep.Files.Work.Yields.mapM`, `Upkeep.Files.Work.Yields.foldlM` —
  operations made of others;
* `Upkeep.Files.Workspace.Readable.held`, `Upkeep.Files.Workspace.Readable.current` — **what is
  readable stays what it is**.
-/

import Upkeep.Proofs.Files.Disk
import Upkeep.Proofs.Files.Workspace

set_option relaxedAutoImplicit false
set_option autoImplicit false

namespace Upkeep

namespace Files

variable {α β : Type} {w w' : Workspace} {f g : Path} {ls ls' : List String}

/-- The same path, the same lines on the disk, if there are any. -/
theorem readLines_congr {d : Disk} (hfg : f.same g = true) (hf : readLines d f = .ok ls)
    (hg : readLines d g = .ok ls') : ls = ls' := by
  rw [readLines] at hf hg
  cases hcontent : d.read? f with
  | none =>
      rw [hcontent] at hf
      cases hf
  | some c =>
      cases hcontent' : d.read? g with
      | none =>
          rw [hcontent'] at hg
          cases hg
      | some c' =>
          rw [hcontent, Disk.read?_congr hfg hcontent hcontent'] at hf
          rw [hcontent'] at hg
          exact Except.ok.inj (hf.symm.trans hg)

/-! ### Agreement -/

namespace Workspace

/-- The lines of a file as they are held, or as they are on the disk. -/
def seen (w : Workspace) (f : Path) : Outcome (List String) :=
  match w.held? f with
  | some ls => .ok ls
  | none => readLines w.disk f

theorem seen_of_held? (h : w.held? f = some ls) : w.seen f = .ok ls := by rw [seen, h]

theorem seen_of_none (h : w.held? f = none) : w.seen f = readLines w.disk f := by rw [seen, h]

end Workspace

/-- Lines that are not held are read from the disk. -/
theorem heldLines_of_none (h : w.held? f = none) : (heldLines f).on w = Work.on (do
    let ls ← liftM (readLines w.disk f)
    set (w.holdLines f ls)
    return ls) w := by
  change Work.on (match w.held? f with
    | some ls => pure ls
    | none => do
      let ls ← liftM (readLines w.disk f)
      set (w.holdLines f ls)
      return ls) w = _
  rw [h]

/-- What is read is what is seen. -/
theorem on_heldLines (w : Workspace) (f : Path) : ((heldLines f).on w).1 = w.seen f := by
  cases hheld : w.held? f with
  | some held => rw [heldLines_of_held? hheld, Workspace.seen_of_held? hheld]
  | none =>
      rw [heldLines_of_none hheld, Workspace.seen_of_none hheld]
      cases readLines w.disk f <;> rfl

namespace Workspace

theorem on_currentLines (w : Workspace) (f : Path) :
    ((currentLines f).on w).1 = if w.rereads then readLines w.disk f else w.seen f := by
  rw [run_currentLines]
  split
  · cases readLines w.disk f <;> rfl
  · exact on_heldLines w f

/-- A workspace in which all files that can be seen, and all that patches can compare with, look the
same. -/
structure Agrees (w w' : Workspace) : Prop where
  seen : ∀ f ls, w.seen f = .ok ls → w'.seen f = .ok ls
  current : ∀ f ls, ((currentLines f).on w).1 = .ok ls → ((currentLines f).on w').1 = .ok ls

theorem Agrees.refl (w : Workspace) : w.Agrees w := ⟨fun _ _ h => h, fun _ _ h => h⟩

theorem Agrees.trans {w'' : Workspace} (h : w.Agrees w') (h' : w'.Agrees w'') : w.Agrees w'' :=
  ⟨fun f ls hf => h'.seen f ls (h.seen f ls hf), fun f ls hf => h'.current f ls (h.current f ls hf)⟩

/-- To hold on to the lines that are seen changes nothing. -/
theorem Agrees.holdLines (h : w.Agrees w') (hf : w'.seen f = .ok ls) :
    w.Agrees (w'.holdLines f ls) := by
  have hext := extends_holdLines w' f ls
  have hkeep : ∀ g ls', w'.seen g = .ok ls' → (w'.holdLines f ls).seen g = .ok ls' := by
    intro g ls' hg
    cases hheld : w'.held? g with
    | some held =>
        rw [seen_of_held? hheld] at hg
        rw [seen_of_held? (hext.held g held hheld)]
        exact hg
    | none =>
        rw [seen_of_none hheld] at hg
        cases hsame : f.same g with
        | false => rwa [seen_of_none (by rwa [held?_holdLines_of_not_same hsame]), hext.disk]
        | true =>
            have hnone : w'.held? f = none := by rw [held?_congr w' hsame, hheld]
            rw [seen_of_none hnone] at hf
            have hheld' : (w'.holdLines f ls).held? g = some ls := by
              rw [← held?_congr _ hsame, held?_holdLines hnone]
            rw [seen_of_held? hheld', readLines_congr hsame hf hg]
  refine ⟨fun g ls' hg => hkeep g ls' (h.seen g ls' hg), ?_⟩
  intro g ls' hg
  have hg := h.current g ls' hg
  rw [on_currentLines] at hg ⊢
  rw [hext.rereads, hext.disk]
  split
  · rwa [if_pos ‹_›] at hg
  · rw [if_neg ‹_›] at hg
    exact hkeep g ls' hg

end Workspace

/-! ### Results that stay -/

/-- The operation has this result in every workspace that agrees with `w`, and leaves one behind that
agrees as well. -/
def Work.Yields (m : Work α) (w : Workspace) (a : α) : Prop :=
  ∀ w', w.Agrees w' → ∃ w'', m.on w' = (.ok a, w'') ∧ w.Agrees w''

namespace Work.Yields

/-- The result at the workspace itself. -/
theorem on {m : Work α} {a : α} (h : m.Yields w a) : (m.on w).1 = .ok a := by
  obtain ⟨w', hon, -⟩ := h w (.refl w)
  rw [hon]

theorem pure (w : Workspace) (a : α) : Work.Yields (Pure.pure a) w a :=
  fun w' hw => ⟨w', rfl, hw⟩

/-- An operation made of two. -/
theorem bind {m : Work α} {k : α → Work β} {a : α} {b : β} (hm : m.Yields w a)
    (hk : (k a).Yields w b) : (m >>= k).Yields w b := by
  intro w' hw
  obtain ⟨w₁, hon, hw₁⟩ := hm w' hw
  obtain ⟨w₂, hon', hw₂⟩ := hk w₁ hw₁
  exact ⟨w₂, on_bind_ok.2 ⟨a, w₁, hon, hon'⟩, hw₂⟩

/-- An operation for every member of a list. -/
theorem mapM {k : α → Work β} {xs : List α} (h : ∀ x ∈ xs, ∃ b, (k x).Yields w b) :
    ∃ bs, (xs.mapM k).Yields w bs := by
  induction xs with
  | nil => exact ⟨[], pure w []⟩
  | cons x xs ih =>
      obtain ⟨b, hb⟩ := h x List.mem_cons_self
      obtain ⟨bs, hbs⟩ := ih fun x' hx' => h x' (List.mem_cons_of_mem _ hx')
      rw [List.mapM_cons]
      exact ⟨b :: bs, hb.bind (hbs.bind (pure w (b :: bs)))⟩

/-- An operation for the members of a list one after the other, with an invariant of the results. -/
theorem foldlM {P : β → Prop} {k : β → α → Work β} {xs : List α} {b : β} (hb : P b)
    (h : ∀ b, P b → ∀ x ∈ xs, ∃ b', (k b x).Yields w b' ∧ P b') :
    ∃ b', (xs.foldlM k b).Yields w b' ∧ P b' := by
  induction xs generalizing b with
  | nil => exact ⟨b, pure w b, hb⟩
  | cons x xs ih =>
      obtain ⟨b₁, hb₁, hP₁⟩ := h b hb x List.mem_cons_self
      obtain ⟨b₂, hb₂, hP₂⟩ := ih hP₁ fun b' hb' x' hx' => h b' hb' x' (List.mem_cons_of_mem _ hx')
      rw [List.foldlM_cons]
      exact ⟨b₂, hb₁.bind hb₂, hP₂⟩

end Work.Yields

/-! ### Reading -/

/-- Lines that are seen are read. -/
theorem yields_heldLines (h : w.seen f = .ok ls) : (heldLines f).Yields w ls := by
  intro w' hw
  have hseen := hw.seen f ls h
  cases hheld : w'.held? f with
  | some held =>
      rw [Workspace.seen_of_held? hheld] at hseen
      cases hseen
      exact ⟨w', heldLines_of_held? hheld, hw⟩
  | none =>
      refine ⟨w'.holdLines f ls, ?_, hw.holdLines hseen⟩
      rw [Workspace.seen_of_none hheld] at hseen
      rw [heldLines_of_none hheld, hseen]
      rfl

namespace Workspace

/-- The same path, the same lines to compare with. -/
theorem Current.congr (hf : w.Current f ls) (hfg : f.same g = true) (hg : w.Current g ls') :
    ls = ls' := by
  rw [current_iff] at hf hg
  split at hf
  · rw [if_pos ‹_›] at hg
    exact readLines_congr hfg hf hg
  · rw [if_neg ‹_›, ← w.held?_congr hfg] at hg
    exact Option.some.inj (hf.symm.trans hg)

/-- Patches can compare with the lines of a file. -/
def Readable (w : Workspace) (f : Path) : Prop := ∃ ls, ((currentLines f).on w).1 = .ok ls

/-- A readable file is seen. -/
theorem Readable.seen (h : w.Readable f) : ∃ ls, w.seen f = .ok ls := by
  obtain ⟨ls, hls⟩ := h
  rw [on_currentLines] at hls
  split at hls
  · cases hheld : w.held? f with
    | some held => exact ⟨held, seen_of_held? hheld⟩
    | none => exact ⟨ls, (seen_of_none hheld).trans hls⟩
  · exact ⟨ls, hls⟩

/-- The lines of a readable file are read. -/
theorem Readable.held (h : w.Readable f) : ∃ ls, (heldLines f).Yields w ls := by
  obtain ⟨ls, hls⟩ := h.seen
  exact ⟨ls, yields_heldLines hls⟩

/-- The lines of a readable file are there to compare with. -/
theorem Readable.current (h : w.Readable f) : ∃ ls, (currentLines f).Yields w ls := by
  obtain ⟨ls, hls⟩ := h
  refine ⟨ls, fun w' hw => ?_⟩
  have hls := hw.current f ls hls
  rw [on_currentLines] at hls
  rw [run_currentLines]
  split
  · rename_i hrereads
    rw [if_pos hrereads] at hls
    exact ⟨w', on_liftM_ok.2 ⟨hls, rfl⟩, hw⟩
  · rename_i hrereads
    rw [if_neg hrereads] at hls
    obtain ⟨w'', hon, hagrees⟩ := yields_heldLines hls w' (.refl w')
    exact ⟨w'', hon, hw.trans hagrees⟩

/-- What is readable stays readable. -/
theorem Readable.mono (h : w.Readable f) (hw : w.Agrees w') : w'.Readable f := by
  obtain ⟨ls, hls⟩ := h
  exact ⟨ls, hw.current f ls hls⟩

end Workspace

/-- The lines of a readable file are there. -/
theorem yields_heldLine (h : w.Readable f) (n : Nat) : ∃ found, (heldLine f n).Yields w found := by
  obtain ⟨ls, hls⟩ := h.held
  exact ⟨_, hls.bind (.pure w _)⟩

/-! ### What reading leaves behind -/

/-- A workspace with the same disk that holds at least what another one holds, and in which the files
look the same. -/
structure Workspace.Grows (w w' : Workspace) : Prop extends w.Extends w', w.Agrees w'

theorem Workspace.Grows.refl (w : Workspace) : w.Grows w := ⟨.refl w, .refl w⟩

theorem Workspace.Grows.trans {w'' : Workspace} (h : w.Grows w') (h' : w'.Grows w'') : w.Grows w'' :=
  ⟨h.toExtends.trans h'.toExtends, h.toAgrees.trans h'.toAgrees⟩

/-- The operation only reads: whether it succeeds or not, the workspace that it leaves behind has grown
from the one before. -/
def Work.Reads (m : Work α) : Prop := ∀ w : Workspace, w.Grows (m.on w).2

namespace Work.Reads

theorem pure (a : α) : Work.Reads (Pure.pure a) := fun w => .refl w

theorem lift (r : Outcome α) : Work.Reads (liftM r) := by
  intro w
  cases r <;> exact .refl w

theorem bind {m : Work α} {k : α → Work β} (hm : m.Reads) (hk : ∀ a, (k a).Reads) :
    (m >>= k).Reads := by
  intro w
  have hgrows := hm w
  rw [on_bind]
  cases hm : m.on w with
  | mk result w' =>
      rw [hm] at hgrows
      cases result with
      | error e => exact hgrows
      | ok a => exact hgrows.trans (hk a w')

theorem grows {m : Work α} {r : Outcome α} (hm : m.Reads) (h : m.on w = (r, w')) : w.Grows w' := by
  have hgrows := hm w
  rwa [h] at hgrows

theorem mapM {k : α → Work β} (h : ∀ a, (k a).Reads) (xs : List α) : (xs.mapM k).Reads := by
  induction xs with
  | nil => exact pure []
  | cons x xs ih =>
      rw [List.mapM_cons]
      exact (h x).bind fun b => ih.bind fun bs => pure (b :: bs)

/-- What comes of an operation for every member of a list comes of one of them. -/
theorem exists_of_mem_mapM {k : α → Work β} (hk : ∀ a, (k a).Reads) {xs : List α} {ys : List β}
    (h : (xs.mapM k).on w = (.ok ys, w')) {y : β} (hy : y ∈ ys) :
    ∃ x ∈ xs, ∃ w₁ w₂, (k x).on w₁ = (.ok y, w₂) ∧ w₂.Extends w' := by
  induction xs generalizing w ys with
  | nil =>
      cases h
      cases hy
  | cons x xs ih =>
      rw [List.mapM_cons, on_bind_ok] at h
      obtain ⟨b, w₁, hb, h⟩ := h
      obtain ⟨bs, w₂, hbs, h⟩ := on_bind_ok.1 h
      cases h
      rcases List.mem_cons.1 hy with rfl | hy
      · have hrest := (mapM hk xs).grows hbs
        exact ⟨x, List.mem_cons_self, w, w₁, hb, hrest.toExtends⟩
      · obtain ⟨x', hx', hrun⟩ := ih hbs hy
        exact ⟨x', List.mem_cons_of_mem _ hx', hrun⟩

/-- What an operation gives for one of the members is among the results for all of them. -/
theorem exists_mem_of_mapM {k : α → Work β} (hk : ∀ a, (k a).Reads) {xs : List α} {ys : List β}
    (h : (xs.mapM k).on w = (.ok ys, w')) {x : α} (hx : x ∈ xs) :
    ∃ y ∈ ys, ∃ w₁ w₂, (k x).on w₁ = (.ok y, w₂) ∧ w₂.Extends w' := by
  induction xs generalizing w ys with
  | nil => cases hx
  | cons x' xs ih =>
      rw [List.mapM_cons, on_bind_ok] at h
      obtain ⟨b, w₁, hb, h⟩ := h
      obtain ⟨bs, w₂, hbs, h⟩ := on_bind_ok.1 h
      cases h
      rcases List.mem_cons.1 hx with rfl | hx
      · exact ⟨b, List.mem_cons_self, w, w₁, hb, ((mapM hk xs).grows hbs).toExtends⟩
      · obtain ⟨y, hy, hrun⟩ := ih hbs hx
        exact ⟨y, List.mem_cons_of_mem _ hy, hrun⟩

end Work.Reads

theorem reads_heldLines (f : Path) : (heldLines f).Reads := by
  intro w
  cases hheld : w.held? f with
  | some held =>
      rw [heldLines_of_held? hheld]
      exact .refl w
  | none =>
      rw [heldLines_of_none hheld]
      cases hread : readLines w.disk f with
      | error e => exact .refl w
      | ok ls =>
          have hseen : w.seen f = .ok ls := (Workspace.seen_of_none hheld).trans hread
          exact ⟨Workspace.extends_holdLines w f ls, (Workspace.Agrees.refl w).holdLines hseen⟩

theorem reads_currentLines (f : Path) : (currentLines f).Reads := by
  intro w
  rw [run_currentLines]
  split
  · exact Work.Reads.lift _ w
  · exact reads_heldLines f w

theorem reads_heldLine (f : Path) (n : Nat) : (heldLine f n).Reads :=
  (reads_heldLines f).bind fun _ => .pure _

end Files

end Upkeep
