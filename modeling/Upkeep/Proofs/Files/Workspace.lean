/-
**What operations leave of a workspace.**

An operation may read more files, but what is held stays held, and the disk stays as it is.  So the
lines that an operation sees are those that are held when it is done.

Main definitions:

* `Upkeep.Files.Workspace.Extends`, `Upkeep.Files.Workspace.Keeps` — a workspace that holds more, with
  the same disk or with any;
* `Upkeep.Files.Workspace.Current` — the lines that patches compare with;
* `Upkeep.Files.Workspace.lineAt?` — one line of a file that is held.

Main results:

* `Upkeep.Files.on_bind_ok` — how an operation succeeds that is made of two;
* `Upkeep.Files.heldLines_ok`, `Upkeep.Files.currentLines_ok`, `Upkeep.Files.heldLine_ok` — what
  reading leaves behind.
-/

import Upkeep.Files.Workspace

set_option relaxedAutoImplicit false
set_option autoImplicit false

namespace Upkeep

namespace Files

variable {α β : Type} {w w' w'' : Workspace} {p q : Path} {ls : List String}

/-! ### Operations -/

@[simp] theorem on_pure (a : α) (w : Workspace) : (pure a : Work α).on w = (.ok a, w) := rfl

/-- Of an operation made of two the second one goes on where the first one succeeds. -/
theorem on_bind (m : Work α) (f : α → Work β) (w : Workspace) :
    (m >>= f).on w =
      match m.on w with
      | (.ok a, w') => (f a).on w'
      | (.error e, w') => (.error e, w') := by
  simp only [Work.on, ExceptT.run_bind, StateT.run_bind]
  rcases hm : StateT.run (ExceptT.run m) w with ⟨a | a, w'⟩ <;> rfl

/-- An operation made of two succeeds when both do. -/
theorem on_bind_ok {m : Work α} {f : α → Work β} {b : β} :
    (m >>= f).on w = (.ok b, w'') ↔
      ∃ a w', m.on w = (.ok a, w') ∧ (f a).on w' = (.ok b, w'') := by
  rw [on_bind]
  rcases m.on w with ⟨e | a, w'⟩
  · simp
  · constructor
    · intro h
      exact ⟨a, w', rfl, h⟩
    · rintro ⟨_, _, ⟨rfl, rfl⟩, h⟩
      exact h

/-- What comes of an operation can be computed without the workspace that it leaves behind. -/
theorem exists_on_of_toOption {m : Work α} {a : α} (h : (m.on w).1.toOption = some a) :
    ∃ w', m.on w = (.ok a, w') := by
  cases hm : m.on w with
  | mk result w' =>
      rw [hm] at h
      cases result with
      | error e => cases h
      | ok b =>
          cases h
          exact ⟨w', rfl⟩

/-- A reading of the disk that succeeds leaves the workspace alone. -/
theorem on_liftM_ok {r : Outcome α} {a : α} :
    (liftM r : Work α).on w = (.ok a, w') ↔ r = .ok a ∧ w' = w := by
  cases r with
  | error e =>
      constructor
      · intro h
        cases h
      · rintro ⟨h, -⟩
        cases h
  | ok b =>
      constructor
      · intro h
        cases h
        exact ⟨rfl, rfl⟩
      · rintro ⟨h, rfl⟩
        cases h
        rfl

/-! ### Held lines -/

namespace Workspace

/-- A workspace with the same disk that holds at least what another one holds. -/
structure Extends (w w' : Workspace) : Prop where
  disk : w'.disk = w.disk
  rereads : w'.rereads = w.rereads
  held : ∀ p ls, w.held? p = some ls → w'.held? p = some ls

theorem Extends.refl (w : Workspace) : w.Extends w := ⟨rfl, rfl, fun _ _ h => h⟩

theorem Extends.trans (h : w.Extends w') (h' : w'.Extends w'') : w.Extends w'' :=
  ⟨h'.disk.trans h.disk, h'.rereads.trans h.rereads, fun p ls hp => h'.held p ls (h.held p ls hp)⟩

/-- A workspace with any disk that holds at least what another one holds. -/
structure Keeps (w w' : Workspace) : Prop where
  rereads : w'.rereads = w.rereads
  held : ∀ p ls, w.held? p = some ls → w'.held? p = some ls

theorem Extends.keeps (h : w.Extends w') : w.Keeps w' := ⟨h.rereads, h.held⟩

/-- Paths that are the same have the same held lines. -/
theorem held?_congr (w : Workspace) (h : p.same q = true) : w.held? p = w.held? q := by
  have hfun : (fun e : Path × List String => e.1.same p) = fun e => e.1.same q := by
    funext e
    rw [Bool.eq_iff_iff, Path.same_iff, Path.same_iff, Path.same_iff.1 h]
  rw [held?, held?, hfun]

theorem extends_holdLines (w : Workspace) (p : Path) (ls : List String) :
    w.Extends (w.holdLines p ls) := by
  rw [holdLines]
  split
  · exact .refl w
  · refine ⟨rfl, rfl, ?_⟩
    intro q ls' hq
    obtain ⟨e, he, rfl⟩ := Option.map_eq_some_iff.1 hq
    rw [held?, List.find?_append, he]
    rfl

/-- The first lines that are given for a file are held. -/
theorem held?_holdLines (h : w.held? p = none) (ls : List String) :
    (w.holdLines p ls).held? p = some ls := by
  rw [held?, Option.map_eq_none_iff] at h
  simp [holdLines, held?, h]

/-- Lines given for a file are not held for others. -/
theorem held?_holdLines_of_not_same (h : p.same q = false) (ls : List String) :
    (w.holdLines p ls).held? q = w.held? q := by
  rw [holdLines]
  split
  · rfl
  · simp [held?, List.find?_append, h]

end Workspace

/-! ### Reading -/

/-- The lines that are read are held from then on. -/
theorem heldLines_ok (h : (heldLines p).on w = (.ok ls, w')) :
    w.Extends w' ∧ w'.held? p = some ls := by
  rw [heldLines, on_bind_ok] at h
  obtain ⟨w₁, w₂, hget, h⟩ := h
  cases hget
  cases hheld : w.held? p with
  | some ls' =>
      rw [hheld] at h
      cases h
      exact ⟨.refl w, hheld⟩
  | none =>
      rw [hheld, on_bind_ok] at h
      obtain ⟨ls', w₁, hread, h⟩ := h
      obtain ⟨-, rfl⟩ := on_liftM_ok.1 hread
      cases h
      exact ⟨Workspace.extends_holdLines _ p ls, Workspace.held?_holdLines hheld ls⟩

/-- Held lines are not read again. -/
theorem heldLines_of_held? (h : w.held? p = some ls) : (heldLines p).on w = (.ok ls, w) := by
  rw [heldLines, on_bind_ok]
  refine ⟨w, w, rfl, ?_⟩
  rw [h]
  rfl

/-- A workspace that rereads takes the lines from the disk. -/
theorem run_currentLines (w : Workspace) (p : Path) : (currentLines p).on w =
    (if w.rereads then (liftM (readLines w.disk p) : Work (List String)) else heldLines p).on w :=
  rfl

/-- The lines that patches compare with can be read as they are. -/
def Workspace.Current (w : Workspace) (p : Path) (ls : List String) : Prop :=
  (currentLines p).on w = (.ok ls, w)

theorem current_iff : w.Current p ls ↔
    if w.rereads then readLines w.disk p = .ok ls else w.held? p = some ls := by
  rw [Workspace.Current, run_currentLines]
  split
  · rw [on_liftM_ok, and_iff_left rfl]
  · exact ⟨fun h => (heldLines_ok h).2, heldLines_of_held?⟩

/-- What patches compare with stays what it is. -/
theorem Workspace.Current.mono (h : w.Current p ls) (hw : w.Extends w') : w'.Current p ls := by
  rw [current_iff] at h ⊢
  rw [hw.rereads, hw.disk]
  split
  · rwa [if_pos ‹_›] at h
  · rw [if_neg ‹_›] at h
    exact hw.held p ls h

/-- Reading what patches compare with leaves it as it is. -/
theorem currentLines_ok (h : (currentLines p).on w = (.ok ls, w')) :
    w.Extends w' ∧ w'.Current p ls := by
  rw [current_iff]
  rw [run_currentLines] at h
  split at h
  · rename_i hrereads
    obtain ⟨hread, rfl⟩ := on_liftM_ok.1 h
    rw [if_pos hrereads]
    exact ⟨.refl w', hread⟩
  · rename_i hrereads
    obtain ⟨hw, hheld⟩ := heldLines_ok h
    rw [hw.rereads, if_neg hrereads]
    exact ⟨hw, hheld⟩

/-! ### Held lines -/

variable {file : Path} {n : Nat} {found : Option String}

/-- A line, counted from one, of a file that is held. -/
def Workspace.lineAt? (w : Workspace) (file : Path) (n : Nat) : Option String :=
  (w.held? file).bind fun ls => if n = 0 then none else ls[n - 1]?

/-- A line of a held file stays what it is. -/
theorem Workspace.lineAt?_extends (hheld : ∃ ls, w.held? file = some ls) (hw : w.Extends w')
    (n : Nat) : w'.lineAt? file n = w.lineAt? file n := by
  obtain ⟨ls, hls⟩ := hheld
  rw [lineAt?, lineAt?, hls, hw.held _ _ hls]

theorem Workspace.Keeps.lineAt? (h : w.Keeps w') {line : String}
    (hline : w.lineAt? file n = some line) : w'.lineAt? file n = some line := by
  obtain ⟨ls, hls, hat⟩ := Option.bind_eq_some_iff.1 hline
  exact Option.bind_eq_some_iff.2 ⟨ls, h.held file ls hls, hat⟩

/-- The lines of a held file. -/
theorem Workspace.lineAt?_succ (h : w.held? file = some ls) (i : Nat) :
    w.lineAt? file (i + 1) = ls[i]? := by
  rw [lineAt?, h, Option.bind_some, if_neg (Nat.succ_ne_zero i), Nat.add_sub_cancel]

theorem heldLine_ok (h : (heldLine file n).on w = (.ok found, w')) :
    w.Extends w' ∧ (∃ ls, w'.held? file = some ls) ∧ w'.lineAt? file n = found := by
  rw [heldLine, on_bind_ok] at h
  obtain ⟨ls, w₁, hls, h⟩ := h
  cases h
  obtain ⟨hext, hheld⟩ := heldLines_ok hls
  refine ⟨hext, ⟨ls, hheld⟩, ?_⟩
  rw [Workspace.lineAt?, hheld]
  rfl

end Files

end Upkeep
