/-
**What an edit answers and what it leaves.**

An edit reads the lines of its file, which are held from then on, and nothing else.  Whether it finds its
line, and what becomes of the working copy of the file, depends on three texts alone: the lines that the
file was first read with, the working copy, if there is one, and the lines that patches compare with,
which become the working copy if there is none.  All other working copies stay as they are.

Main definitions:

* `Upkeep.Files.Workspace.reading` — a workspace after the lines of a file were read;
* `Upkeep.LineEdit.effect` — the answer of an edit and the working copy it leaves;
* `Upkeep.Patch.Stage.answer`, `Upkeep.Patch.Stage.effect` — the same for a patch and its workspace.

Main results:

* `Upkeep.Files.Workspace.held?_reading` — what is held after a reading;
* `Upkeep.Patch.on_edit` — **an edit in one equation**;
* `Upkeep.Patch.Stage.workspace_after`, `Upkeep.Patch.Stage.answer_and_copies` — what an edit answers and
  what it leaves;
* `Upkeep.Patch.deletion_centred` — **what the deletion of a line does to the working copy**.
-/

import Upkeep.Proofs.Patch.Comparison
import Upkeep.Proofs.Patch.History

set_option relaxedAutoImplicit false
set_option autoImplicit false

namespace Upkeep

open Files

namespace Files

variable {w : Workspace} {f g : Path} {ls : List String}

/-! ### Readings -/

namespace Workspace

/-- The workspace after the lines of a file were read. -/
def reading (w : Workspace) (f : Path) : Workspace :=
  match w.seen f with
  | .ok ls => w.holdLines f ls
  | .error _ => w

theorem reading_of_held? (h : w.held? f = some ls) : w.reading f = w := by
  simp only [reading, seen_of_held? h, holdLines, h, Option.isSome_some, if_true]

theorem reading_of_ok (h : w.seen f = .ok ls) : w.reading f = w.holdLines f ls := by rw [reading, h]

theorem reading_of_error {e : Failure} (h : w.seen f = .error e) : w.reading f = w := by
  rw [reading, h]

theorem extends_reading (w : Workspace) (f : Path) : w.Extends (w.reading f) := by
  rw [reading]
  split
  · exact extends_holdLines w f _
  · exact .refl w

/-- The lines that were read are held, and nothing else is that was not held before. -/
theorem held?_reading (w : Workspace) (f g : Path) :
    (w.reading f).held? g = if f.same g then (w.seen f).toOption else w.held? g := by
  cases hheld : w.held? f with
  | some ls =>
      rw [reading_of_held? hheld, seen_of_held? hheld]
      split
      · rw [← w.held?_congr ‹_›, hheld]
        rfl
      · rfl
  | none =>
      cases hseen : w.seen f with
      | error e =>
          rw [reading_of_error hseen]
          split
          · rw [← w.held?_congr ‹_›, hheld]
            rfl
          · rfl
      | ok ls =>
          rw [reading_of_ok hseen]
          split
          · rw [← held?_congr _ ‹_›, held?_holdLines hheld]
            rfl
          · rw [held?_holdLines_of_not_same (Bool.eq_false_iff.2 ‹_›)]

/-- What was read is compared without a trace. -/
theorem settled_reading (h : w.seen f = .ok ls) : (w.reading f).Settled f :=
  .inr ⟨ls, by rw [held?_reading, if_pos (Path.same_self f), h]; rfl⟩

/-- A file that was read is seen as before. -/
theorem seen_reading_self (w : Workspace) (f : Path) : (w.reading f).seen f = w.seen f := by
  cases hseen : w.seen f with
  | error e => rw [reading_of_error hseen, hseen]
  | ok ls => rw [seen_of_held? (by rw [held?_reading, if_pos (Path.same_self f), hseen]; rfl)]

/-- A file that was read is compared with the same lines as before. -/
theorem currentLines_reading (w : Workspace) (f : Path) :
    ((currentLines f).on (w.reading f)).1 = ((currentLines f).on w).1 := by
  have hext := extends_reading w f
  rw [on_currentLines, on_currentLines, hext.rereads, hext.disk, seen_reading_self]

end Workspace

/-- What is read is what is seen, and it is held from then on. -/
theorem heldLines_on (w : Workspace) (f : Path) : (heldLines f).on w = (w.seen f, w.reading f) := by
  cases hheld : w.held? f with
  | some ls =>
      rw [heldLines_of_held? hheld, Workspace.seen_of_held? hheld, Workspace.reading_of_held? hheld]
  | none =>
      rw [heldLines_of_none hheld, Workspace.reading, Workspace.seen_of_none hheld]
      cases readLines w.disk f <;> rfl

end Files

/-! ### Effects -/

/-- A line of some lines, counted from one. -/
def lineOf (ls : List String) (n : Nat) : Option String := if n = 0 then none else ls[n - 1]?

theorem on_heldLine (w : Workspace) (f : Path) (n : Nat) :
    (heldLine f n).on w = ((w.seen f).map (lineOf · n), w.reading f) := by
  rw [heldLine, on_bind, heldLines_on]
  cases w.seen f <;> rfl

/-- What an edit of a line answers, and what it leaves of the working copy of its file: `seen` are the
lines that the file was first read with, and `now` those that patches compare with. -/
def LineEdit.effect (e : LineEdit) (n : Nat) (seen : Outcome (List String))
    (copy : Option (List String)) (now : Outcome (List String)) : Outcome Bool × Option (List String) :=
  match seen with
  | .error err => (.error err, copy)
  | .ok ls =>
    match lineOf ls n with
    | none => (.ok false, copy)
    | some target =>
      match copy.elim now .ok with
      | .error err => (.error err, copy)
      | .ok text =>
        match text.findIdx? (· == target) with
        | none => (.ok false, some text)
        | some i => (.ok true, some (e.applyAt text i))

/-- A working copy that is the text to compare with has the effect that none has; it may be there where
there is still none. -/
theorem LineEdit.effect_some_none (e : LineEdit) (n : Nat) (seen now : Outcome (List String))
    (text : List String) :
    (e.effect n seen (some text) now).1 = (e.effect n seen none (.ok text)).1 ∧
      ((e.effect n seen (some text) now).2 = (e.effect n seen none (.ok text)).2 ∨
        (e.effect n seen (some text) now).2 = some text ∧
          (e.effect n seen none (.ok text)).2 = none) := by
  rw [effect.eq_def, effect.eq_def]
  cases seen with
  | error err => exact ⟨rfl, .inr ⟨rfl, rfl⟩⟩
  | ok ls =>
      dsimp only
      cases lineOf ls n with
      | none => exact ⟨rfl, .inr ⟨rfl, rfl⟩⟩
      | some target => exact ⟨rfl, .inl rfl⟩

/-- An edit that finds its line changes the working copy, or the lines that it is loaded with, where a line
reads like the one it was aimed at. -/
theorem LineEdit.exists_of_effect {e : LineEdit} {n : Nat} {seen now : Outcome (List String)}
    {copy : Option (List String)} (h : (e.effect n seen copy now).1 = .ok true) :
    ∃ ls target text i, seen = .ok ls ∧ lineOf ls n = some target ∧ copy.elim now .ok = .ok text ∧
      text[i]? = some target ∧ (e.effect n seen copy now).2 = some (e.applyAt text i) := by
  rw [effect.eq_def] at h ⊢
  cases seen with
  | error err => cases h
  | ok ls =>
      dsimp only at h ⊢
      cases hline : lineOf ls n with
      | none => simp [hline] at h
      | some target =>
          rw [hline] at h
          dsimp only at h ⊢
          cases hcopy : copy.elim now Except.ok with
          | error err => simp [hcopy] at h
          | ok text =>
              rw [hcopy] at h
              dsimp only at h ⊢
              cases hfind : text.findIdx? (· == target) with
              | none => simp [hfind] at h
              | some i =>
                  obtain ⟨hi, hat, -⟩ := List.findIdx?_eq_some_iff_getElem.1 hfind
                  refine ⟨ls, target, text, i, rfl, hline, rfl, ?_, rfl⟩
                  rw [List.getElem?_eq_getElem hi, beq_iff_eq.1 hat]

namespace Patch

variable {p : Patch} {w : Workspace} {file : Path} {n : Nat} {e : LineEdit}

/-- The patch with a working copy of a file, and this copy: the lines `now` unless there is one. -/
def loaded (p : Patch) (file : Path) (now : Outcome (List String)) : Outcome (Patch × List String) :=
  match p.copy? file with
  | some text => .ok (p, text)
  | none => now.map fun text => ({ p with copies := p.copies ++ [(file, text)] }, text)

theorem on_load {file : Path} (h : w.Settled file) :
    (p.load file).on w = ((p.loaded file ((currentLines file).on w).1).map Prod.fst, w) := by
  rw [load, loaded]
  cases p.copy? file with
  | some text => rfl
  | none =>
      dsimp only
      rw [on_bind, h.on]
      cases ((currentLines file).on w).1 <;> rfl

/-- The working copy that an edit uses. -/
theorem loaded_eq (p : Patch) (file : Path) (now : Outcome (List String)) :
    (p.loaded file now).map Prod.snd = (p.copy? file).elim now .ok := by
  rw [loaded]
  cases p.copy? file with
  | some text => rfl
  | none => cases now <;> rfl

/-- A loaded file has the working copy that it was loaded with. -/
theorem copy?_of_loaded {now : Outcome (List String)} {p₁ : Patch} {text : List String}
    (h : p.loaded file now = .ok (p₁, text)) (g : Path) :
    p₁.copy? g = if file.same g then some text else p.copy? g := by
  rw [loaded] at h
  cases hcopy : p.copy? file with
  | some text' =>
      rw [hcopy] at h
      cases h
      split
      · rw [← copy?_congr p ‹_›, hcopy]
      · rfl
  | none =>
      rw [hcopy] at h
      cases now with
      | error err => cases h
      | ok text' =>
          cases h
          split
          · rename_i hsame
            have hnone := hcopy
            rw [copy?_congr p hsame, copy?, Option.map_eq_none_iff] at hnone
            simp [copy?, List.find?_append, hnone, hsame]
          · simp_all [copy?, List.find?_append]

/-- A file is loaded unless there is a working copy of it. -/
theorem loaded_cases {now : Outcome (List String)} {p₁ : Patch} {text : List String}
    (h : p.loaded file now = .ok (p₁, text)) :
    p.copy? file = some text ∧ p₁ = p ∨
      p.copy? file = none ∧ now = .ok text ∧ p₁ = { p with copies := p.copies ++ [(file, text)] } := by
  rw [loaded] at h
  cases hcopy : p.copy? file with
  | some text' =>
      rw [hcopy] at h
      cases h
      exact .inl ⟨rfl, rfl⟩
  | none =>
      rw [hcopy] at h
      cases now with
      | error err => cases h
      | ok text' =>
          cases h
          exact .inr ⟨rfl, rfl, rfl⟩

/-- A change of the working copy of a file. -/
theorem copy?_modifyCopy (p : Patch) (file : Path) (f : List String → List String) (g : Path) :
    (p.modifyCopy file f).copy? g = if file.same g then (p.copy? g).map f else p.copy? g := by
  split
  · rename_i hsame
    obtain ⟨copies, context⟩ := p
    have hiff : ∀ h : Path, h.same file = h.same g := by
      intro h
      rw [Bool.eq_iff_iff, Path.same_iff, Path.same_iff, Path.same_iff.1 hsame]
    induction copies with
    | nil => rfl
    | cons c copies ih =>
        simp only [copy?, modifyCopy, List.map_cons, List.find?_cons, hiff] at ih ⊢
        cases hc : c.1.same g with
        | true => simp [hc]
        | false => simpa [hc] using ih
  · exact copy?_modifyCopy_of_not_same p f (Bool.eq_false_iff.2 ‹_›)

/-- **An edit in one equation**: the lines of the file are read, the working copy is loaded if the line
is there, and changed if its text is still in it. -/
theorem on_edit (p : Patch) (file : Path) (n : Nat) (e : LineEdit) (w : Workspace) :
    (p.edit file n e).on w =
      (match w.seen file with
        | .error err => .error err
        | .ok ls =>
          match lineOf ls n with
          | none => .ok (false, p)
          | some target =>
            match p.loaded file ((currentLines file).on w).1 with
            | .error err => .error err
            | .ok (p₁, text) =>
              match text.findIdx? (· == target) with
              | none => .ok (false, p₁)
              | some i => .ok (true, p₁.modifyCopy file (e.applyAt · i)), w.reading file) := by
  rw [edit, on_bind, locate, on_bind, on_heldLine]
  cases hseen : w.seen file with
  | error err => rfl
  | ok ls =>
      dsimp only [Except.map]
      cases lineOf ls n with
      | none => rfl
      | some target =>
          dsimp only
          rw [on_bind, on_load (Workspace.settled_reading hseen), Workspace.currentLines_reading]
          cases hload : p.loaded file ((currentLines file).on w).1 with
          | error err => rfl
          | ok r =>
              obtain ⟨p₁, text⟩ := r
              dsimp only [Except.map]
              rw [on_pure, copy?_of_loaded hload, if_pos (Path.same_self file), Option.bind_some]
              cases text.findIdx? (· == target) <;> rfl

namespace Stage

variable {s : Stage}

/-- What an edit answers. -/
def answer (s : Stage) (file : Path) (n : Nat) (e : LineEdit) : Outcome Bool :=
  ((s.patch.edit file n e).on s.workspace).1.map Prod.fst

/-- The effect of an edit on the working copy of its file. -/
def effect (s : Stage) (file : Path) (n : Nat) (e : LineEdit) :
    Outcome Bool × Option (List String) :=
  e.effect n (s.workspace.seen file) (s.patch.copy? file) ((currentLines file).on s.workspace).1

/-- An edit reads the lines of its file. -/
theorem workspace_after (s : Stage) (file : Path) (n : Nat) (e : LineEdit) :
    (s.after (.edit file n e)).workspace = s.workspace.reading file := by
  rw [after]
  split <;> rename_i hedit <;> rw [on_edit] at hedit <;> exact (congrArg Prod.snd hedit).symm

/-- What an edit answers, and what it leaves of the working copies. -/
theorem answer_and_copies (s : Stage) (file : Path) (n : Nat) (e : LineEdit) :
    s.answer file n e = (s.effect file n e).1 ∧ ∀ g,
      (s.after (.edit file n e)).patch.copy? g =
        if file.same g then (s.effect file n e).2 else s.patch.copy? g := by
  have hsame : ∀ g, s.patch.copy? g =
      if file.same g then s.patch.copy? file else s.patch.copy? g := by
    intro g
    split
    · exact (copy?_congr _ ‹_›).symm
    · rfl
  rw [answer, after, effect, LineEdit.effect.eq_def, on_edit]
  cases s.workspace.seen file with
  | error err => exact ⟨rfl, hsame⟩
  | ok ls =>
      dsimp only
      cases lineOf ls n with
      | none => exact ⟨rfl, hsame⟩
      | some target =>
          dsimp only
          rw [← loaded_eq]
          cases hload : s.patch.loaded file ((currentLines file).on s.workspace).1 with
          | error err => exact ⟨rfl, hsame⟩
          | ok r =>
              obtain ⟨p₁, text⟩ := r
              dsimp only [Except.map]
              cases text.findIdx? (· == target) with
              | none => exact ⟨rfl, copy?_of_loaded hload⟩
              | some i =>
                  refine ⟨rfl, fun g => ?_⟩
                  dsimp only
                  rw [copy?_modifyCopy, copy?_of_loaded hload]
                  split <;> rfl

/-- What an edit can do to a patch: leave it as it is, load the file and find nothing in it, or change
the working copy. -/
theorem after_edit_cases (s : Stage) (file : Path) (n : Nat) (e : LineEdit) :
    (s.after (.edit file n e)).patch = s.patch ∨ ∃ ls p₁ text, s.workspace.seen file = .ok ls ∧
      s.patch.loaded file ((currentLines file).on s.workspace).1 = .ok (p₁, text) ∧
      ((s.after (.edit file n e)).patch = p₁ ∨
        s.answer file n e = .ok true ∧
          ∃ f, (s.after (.edit file n e)).patch = p₁.modifyCopy file f) := by
  rw [answer, after, on_edit]
  cases s.workspace.seen file with
  | error err => exact .inl rfl
  | ok ls =>
      dsimp only
      cases lineOf ls n with
      | none => exact .inl rfl
      | some target =>
          dsimp only
          cases s.patch.loaded file ((currentLines file).on s.workspace).1 with
          | error err => exact .inl rfl
          | ok r =>
              obtain ⟨p₁, text⟩ := r
              refine .inr ⟨ls, p₁, text, rfl, rfl, ?_⟩
              dsimp only
              cases text.findIdx? (· == target) with
              | none => exact .inl rfl
              | some i => exact .inr ⟨rfl, (e.applyAt · i), rfl⟩

/-- The files of a patch after an edit. -/
theorem mem_files_after_edit {f : Path} (h : f ∈ (s.after (.edit file n e)).patch.files) :
    f ∈ s.patch.files ∨ f = file ∧ ∃ ls, s.workspace.seen file = .ok ls := by
  rcases s.after_edit_cases file n e with hpatch | ⟨ls, p₁, text, hseen, hload, hpatch⟩
  · rw [hpatch] at h
    exact .inl h
  · have hfiles : f ∈ p₁.files := by
      rcases hpatch with hpatch | ⟨-, g, hpatch⟩ <;> rw [hpatch] at h
      · exact h
      · rwa [files_modifyCopy] at h
    rcases loaded_cases hload with ⟨-, rfl⟩ | ⟨-, -, rfl⟩
    · exact .inl hfiles
    · rw [files, List.map_append, List.mem_append] at hfiles
      rcases hfiles with hfiles | hfiles
      · exact .inl hfiles
      · exact .inr ⟨List.mem_singleton.1 hfiles, ls, hseen⟩

/-- An edit that finds nothing leaves the patch as it is, or has loaded its file. -/
theorem patch_of_answer (h : s.answer file n e ≠ .ok true) :
    (s.after (.edit file n e)).patch = s.patch ∨ ∃ text, s.patch.copy? file = none ∧
      ((currentLines file).on s.workspace).1 = .ok text ∧ (∃ ls, s.workspace.seen file = .ok ls) ∧
      (s.after (.edit file n e)).patch =
        { s.patch with copies := s.patch.copies ++ [(file, text)] } := by
  rcases s.after_edit_cases file n e with
    hpatch | ⟨ls, p₁, text, hseen, hload, hpatch | ⟨htrue, -⟩⟩
  · exact .inl hpatch
  · rcases loaded_cases hload with ⟨-, rfl⟩ | ⟨hcopy, hnow, rfl⟩
    · exact .inl hpatch
    · exact .inr ⟨text, hcopy, hnow, ⟨ls, hseen⟩, hpatch⟩
  · exact absurd htrue h

end Stage

/-! ### Deletions -/

/-- **A deletion is centred on its line.**  The blank lines that go with a place are as many on each side as
there are directly above it or directly below it, whichever are fewer; so they are counted for every index,
except for the last word, where the count stops.  So what a deletion takes out of a text lies inside it, has an
odd number of lines, the line at the place in its middle, and otherwise only blank lines; and so it is with
the deletion of a line in any patch, which takes this out of the working copy around a line that reads like
the one it was aimed at. -/
theorem deletion_centred :
    (∀ (text : List String) (index : UInt64), text.length < UInt64.size →
      (countBlanks text index).map UInt64.toNat =
        if index.toNat + 1 = UInt64.size then .error .overflow
        else .ok (min (blanksAbove text index.toNat) (blanksBelow text index.toNat))) ∧
    (∀ text i, blankRun text i = min (blanksAbove text i) (blanksBelow text i)) ∧
    (∀ text i, i < text.length → CutAround text i (LineEdit.delete.applyAt text i)) ∧
    ∀ (s : Stage) (file : Path) (n : Nat), s.answer file n .delete = .ok true →
      ∃ ls target text i left, s.workspace.seen file = .ok ls ∧ lineOf ls n = some target ∧
        (s.patch.copy? file).elim ((currentLines file).on s.workspace).1 .ok = .ok text ∧
        text[i]? = some target ∧ CutAround text i left ∧
        (s.after (.edit file n .delete)).patch.copy? file = some left := by
  refine ⟨?_, blankRun_eq_min, fun text i h => cutAround_delete h, ?_⟩
  · intro text index h
    rw [countBlanks_eq h, blankRun_eq_min]
  intro s file n h
  obtain ⟨hanswer, hcopies⟩ := s.answer_and_copies file n .delete
  rw [hanswer] at h
  obtain ⟨ls, target, text, i, hseen, hline, htext, hat, hleft⟩ := LineEdit.exists_of_effect h
  refine ⟨ls, target, text, i, _, hseen, hline, htext, hat,
    cutAround_delete (List.getElem?_eq_some_iff.1 hat).1, ?_⟩
  rw [hcopies file, if_pos (Path.same_self file)]
  exact hleft

/-- A file with two blank lines above a line, up to its start, and one below it. -/
def blankTop : List String := ["", "  ", "int a;", "\t", "int b;"]

/-- A patch that touches nothing, and a workspace that holds the file. -/
def beforeDeletion : Stage :=
  .start 3 ((Workspace.ofDisk ⟨[], []⟩ false).holdLines ⟨"a.cpp"⟩ blankTop)

theorem deletion_centred_blankTop :
    (blankTop.length < UInt64.size ∧ (countBlanks blankTop 2).map UInt64.toNat = .ok 1) ∧
      (2 < blankTop.length ∧ CutAround blankTop 2 ["", "int b;"]) ∧
      beforeDeletion.answer ⟨"a.cpp"⟩ 3 .delete = .ok true ∧
      ∃ text i, text[i]? = some "int a;" ∧ CutAround text i ["", "int b;"] := by
  obtain ⟨hcount, -, htext, hstage⟩ := deletion_centred
  have hwords : blankTop.length < UInt64.size := by decide
  have hlt : 2 < blankTop.length := by decide
  have hanswer : beforeDeletion.answer ⟨"a.cpp"⟩ 3 .delete = .ok true := rfl
  have hleft : (beforeDeletion.after (.edit ⟨"a.cpp"⟩ 3 .delete)).patch.copy? ⟨"a.cpp"⟩ =
      some ["", "int b;"] := rfl
  obtain ⟨ls, target, text, i, left, hseen, hline, -, hat, hcut, hcopy⟩ := hstage _ _ _ hanswer
  obtain rfl : left = ["", "int b;"] := Option.some.inj (hcopy.symm.trans hleft)
  have hls : beforeDeletion.workspace.seen ⟨"a.cpp"⟩ = .ok blankTop := rfl
  obtain rfl : blankTop = ls := Except.ok.inj (hls.symm.trans hseen)
  obtain rfl : "int a;" = target := Option.some.inj hline
  exact ⟨⟨hwords, (hcount blankTop 2 hwords).trans (by decide)⟩, ⟨hlt, htext blankTop 2 hlt⟩, hanswer,
    text, i, hat, hcut⟩

/-- Around the last word there are no blank lines, and yet the count stops. -/
theorem count_stops_at_last_word :
    countBlanks ["int a;"] 18446744073709551615 = .error .overflow ∧
      min (blanksAbove ["int a;"] 18446744073709551615) (blanksBelow ["int a;"] 18446744073709551615) =
        0 := by
  refine ⟨?_, by decide +kernel⟩
  have hmap : (countBlanks ["int a;"] 18446744073709551615).map UInt64.toNat = .error .overflow :=
    (countBlanks_eq (by decide) _).trans (if_pos rfl)
  cases hcount : countBlanks ["int a;"] 18446744073709551615 with
  | ok c =>
      rw [hcount] at hmap
      cases hmap
  | error s =>
      rw [hcount] at hmap
      exact congrArg Except.error (Except.error.inj hmap)

end Patch

end Upkeep
