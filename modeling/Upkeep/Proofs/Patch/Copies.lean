/-
**The working copies of a patch.**

A patch has at most one working copy of a file, and takes it when it first touches the file.  A change
of the working copy leaves all others alone.  So what an edit does to a patch is what it does to
one text.

Main definitions:

* `Upkeep.Patch.Distinct` — no file has two working copies;
* `Upkeep.Patch.editFirst`, `Upkeep.Patch.deleteFirst` — the first line with a text is edited in, or
  deleted from, a working copy;
* `Upkeep.Patch.aimsAt` — the edits of a file with the texts that they are aimed at.

Main results:

* `Upkeep.Patch.load_ok` — a file is loaded once;
* `Upkeep.Patch.edit_ok`, `Upkeep.Patch.edit_delete_ok` — **what the edit, or the deletion, of a line
  does to a patch**;
* `Upkeep.Patch.edit_copies`, `Upkeep.Patch.copy?_edit_of_not_same` — the working copies after an edit.
-/

import Mathlib.Data.List.Basic
import Upkeep.Proofs.Files.Workspace
import Upkeep.Proofs.Patch.Stretch

set_option relaxedAutoImplicit false
set_option autoImplicit false

namespace Upkeep

namespace Patch

open Files

/-! ### Copies by file -/

variable {p p' : Patch} {w w' : Workspace} {file : Path}

/-- No file has two working copies. -/
def Distinct (p : Patch) : Prop := p.files.Pairwise fun f f' => f.same f' = false

theorem copy?_eq_none_iff : p.copy? file = none ↔ ∀ f ∈ p.files, f.same file = false := by
  rw [copy?, Option.map_eq_none_iff, List.find?_eq_none, files]
  simp

theorem copy?_congr (p : Patch) {file' : Path} (h : file.same file' = true) :
    p.copy? file = p.copy? file' := by
  have hfun : (fun c : Path × List String => c.1.same file) = fun c => c.1.same file' := by
    funext c
    rw [Bool.eq_iff_iff, Path.same_iff, Path.same_iff, Path.same_iff.1 h]
  rw [copy?, copy?, hfun]

/-- A working copy is found by its file. -/
theorem copy?_of_mem (hd : p.Distinct) {c : Path × List String} (hc : c ∈ p.copies)
    (hfile : c.1.same file = true) : p.copy? file = some c.2 := by
  obtain ⟨copies, context⟩ := p
  induction copies with
  | nil => simp at hc
  | cons c' copies ih =>
      obtain ⟨hc', hd⟩ := List.pairwise_cons.1 hd
      rcases List.mem_cons.1 hc with rfl | hc
      · simp [copy?, hfile]
      · have hne : c'.1.same file ≠ true := by
          intro hsame
          rw [Path.same_comm] at hfile
          have htwice := Path.same_trans hsame hfile
          rw [hc' c.1 (List.mem_map_of_mem hc)] at htwice
          cases htwice
        have hrest := ih hd hc
        simpa [copy?, hne] using hrest

/-! ### Loading -/

/-- A file is loaded once, as it is then. -/
theorem load_ok (h : (p.load file).on w = (.ok p', w')) :
    (∃ text, p.copy? file = some text ∧ p' = p ∧ w' = w) ∨
      p.copy? file = none ∧ ∃ text, w.Extends w' ∧ w'.Current file text ∧
        p' = { p with copies := p.copies ++ [(file, text)] } := by
  rw [load] at h
  cases hcopy : p.copy? file with
  | some text =>
      rw [hcopy] at h
      cases h
      exact .inl ⟨text, rfl, rfl, rfl⟩
  | none =>
      rw [hcopy] at h
      obtain ⟨text, w₁, hcurrent, h⟩ := on_bind_ok.1 h
      cases h
      obtain ⟨hext, hcurrent⟩ := currentLines_ok hcurrent
      exact .inr ⟨rfl, text, hext, hcurrent, rfl⟩

theorem Distinct.load (hd : p.Distinct) (h : (p.load file).on w = (.ok p', w')) :
    p'.Distinct := by
  rcases load_ok h with ⟨_, _, rfl, _⟩ | ⟨hnone, text, _, _, rfl⟩
  · exact hd
  · rw [Distinct, files, List.map_append]
    refine List.pairwise_append.2 ⟨hd, List.pairwise_singleton _ _, ?_⟩
    intro f hf f' hf'
    obtain rfl := List.mem_singleton.1 hf'
    exact copy?_eq_none_iff.1 hnone f hf

/-- Loading only reads. -/
theorem extends_of_load (h : (p.load file).on w = (.ok p', w')) : w.Extends w' := by
  rcases load_ok h with ⟨_, _, _, rfl⟩ | ⟨_, _, hext, _, _⟩
  · exact .refl _
  · exact hext

/-- Loading a file leaves the working copies of others alone. -/
theorem copy?_load_of_not_same (h : (p.load file).on w = (.ok p', w')) {other : Path}
    (hother : file.same other = false) : p'.copy? other = p.copy? other := by
  rcases load_ok h with ⟨_, _, rfl, _⟩ | ⟨_, text, _, _, rfl⟩
  · rfl
  · simp [copy?, List.find?_append, hother]

/-! ### Changes -/

/-- A change of a working copy touches no other file. -/
theorem files_modifyCopy (p : Patch) (file : Path) (f : List String → List String) :
    (p.modifyCopy file f).files = p.files := by
  rw [files, modifyCopy, files, List.map_map]
  apply List.map_congr_left
  intro c _
  rw [Function.comp_apply]
  split <;> rfl

/-- The working copies after a change. -/
theorem exists_of_mem_modifyCopy {f : List String → List String} {c : Path × List String}
    (hc : c ∈ (p.modifyCopy file f).copies) :
    ∃ c₀ ∈ p.copies, c.1 = c₀.1 ∧ c.2 = if c₀.1.same file then f c₀.2 else c₀.2 := by
  obtain ⟨c₀, hc₀, rfl⟩ := List.mem_map.1 hc
  refine ⟨c₀, hc₀, ?_⟩
  split <;> exact ⟨rfl, rfl⟩

/-- A change of a working copy leaves all others alone. -/
theorem copy?_modifyCopy_of_not_same (p : Patch) (f : List String → List String) {other : Path}
    (hother : file.same other = false) : (p.modifyCopy file f).copy? other = p.copy? other := by
  obtain ⟨copies, context⟩ := p
  induction copies with
  | nil => rfl
  | cons c copies ih =>
      simp only [copy?, modifyCopy, List.map_cons, List.find?_cons] at ih ⊢
      by_cases hc : c.1.same file = true
      · have hne : c.1.same other = false := by
          rw [← Bool.not_eq_true]
          intro hsame
          rw [Path.same_comm] at hc
          rw [Path.same_trans hc hsame] at hother
          cases hother
        simpa [hc, hne] using ih
      · cases hsame : c.1.same other with
        | false => simpa [hc, hsame] using ih
        | true => simp [hc, hsame]

/-- Only the working copy of the file matters for a change of it. -/
theorem modifyCopy_congr (hd : p.Distinct) {f g : List String → List String}
    (hfg : ∀ text, p.copy? file = some text → f text = g text) :
    p.modifyCopy file f = p.modifyCopy file g := by
  rw [modifyCopy, modifyCopy, mk.injEq]
  constructor
  · apply List.map_congr_left
    intro c hc
    split
    · rename_i hfile
      rw [hfg c.2 (copy?_of_mem hd hc hfile)]
    · rfl
  · rfl

theorem modifyCopy_self (p : Patch) (file : Path) : p.modifyCopy file (fun text => text) = p := by
  simp [modifyCopy]

/-! ### Edits -/

/-- The patch with the first line with a text edited in the working copy of a file. -/
def editFirst (p : Patch) (file : Path) (e : LineEdit) (target : String) : Patch :=
  p.modifyCopy file (e.atFirst · target)

/-- The patch with the first line with a text deleted from the working copy of a file. -/
def deleteFirst (p : Patch) (file : Path) (target : String) : Patch :=
  p.modifyCopy file (deleteLine · target)

/-- An edit skips a line that is not there, and edits the first line with the text of any other. -/
theorem edit_ok (hd : p.Distinct) {n : Nat} {e : LineEdit} {b : Bool}
    (h : (p.edit file n e).on w = (.ok (b, p'), w')) :
    ∃ w₁, w.Extends w₁ ∧ (∃ ls, w₁.held? file = some ls) ∧
      (w₁.lineAt? file n = none ∧ p' = p ∧ w' = w₁ ∨
        ∃ target p₁, w₁.lineAt? file n = some target ∧ (p.load file).on w₁ = (.ok p₁, w') ∧
          p' = p₁.editFirst file e target) := by
  rw [edit, on_bind_ok] at h
  obtain ⟨⟨place, q⟩, w₂, hlocate, h⟩ := h
  rw [locate, on_bind_ok] at hlocate
  obtain ⟨found, w₁, hline, hlocate⟩ := hlocate
  obtain ⟨hext, hheld, hat⟩ := heldLine_ok hline
  refine ⟨w₁, hext, hheld, ?_⟩
  cases found with
  | none =>
      cases hlocate
      cases h
      exact .inl ⟨hat, rfl, rfl⟩
  | some target =>
      obtain ⟨p₁, w₃, hload, hlocate⟩ := on_bind_ok.1 hlocate
      cases hlocate
      refine .inr ⟨target, q, hat, ?_⟩
      have hd₁ := hd.load hload
      cases hplace : (q.copy? file).bind fun text => text.findIdx? (· == target) with
      | none =>
          rw [hplace] at h
          cases h
          refine ⟨hload, (modifyCopy_self p' file).symm.trans (modifyCopy_congr hd₁ ?_)⟩
          intro text htext
          rw [htext, Option.bind_some] at hplace
          rw [LineEdit.atFirst, hplace]
      | some i =>
          rw [hplace] at h
          cases h
          refine ⟨hload, modifyCopy_congr hd₁ ?_⟩
          intro text htext
          rw [htext, Option.bind_some] at hplace
          rw [LineEdit.atFirst, hplace]

/-- A deletion skips a line that is not there, and deletes the first line with the text of any
other. -/
theorem edit_delete_ok (hd : p.Distinct) {n : Nat} {b : Bool}
    (h : (p.edit file n .delete).on w = (.ok (b, p'), w')) :
    ∃ w₁, w.Extends w₁ ∧ (∃ ls, w₁.held? file = some ls) ∧
      (w₁.lineAt? file n = none ∧ p' = p ∧ w' = w₁ ∨
        ∃ target p₁, w₁.lineAt? file n = some target ∧ (p.load file).on w₁ = (.ok p₁, w') ∧
          p' = p₁.deleteFirst file target) :=
  edit_ok hd h

/-! ### Working copies after an edit -/

/-- The edits of lines of a file with the texts of these lines, as far as they are there. -/
def aimsAt (w : Workspace) (file : Path) (edits : List ((Path × Nat) × LineEdit)) :
    List (LineEdit × String) :=
  edits.filterMap fun d =>
    if d.1.1.same file then (w.lineAt? d.1.1 d.1.2).map fun target => (d.2, target) else none

@[simp] theorem aimsAt_nil (w : Workspace) (file : Path) : aimsAt w file [] = [] := rfl

theorem aimsAt_append (w : Workspace) (file : Path) (edits edits' : List ((Path × Nat) × LineEdit)) :
    aimsAt w file (edits ++ edits') = aimsAt w file edits ++ aimsAt w file edits' :=
  List.filterMap_append

theorem aimsAt_congr (w : Workspace) {file' : Path} (h : file.same file' = true)
    (edits : List ((Path × Nat) × LineEdit)) : aimsAt w file edits = aimsAt w file' edits := by
  apply List.filterMap_congr
  intro d _
  rw [Bool.eq_iff_iff.2 (show d.1.1.same file = true ↔ d.1.1.same file' = true by
    rw [Path.same_iff, Path.same_iff, Path.same_iff.1 h])]

theorem aimsAt_of_same {k : Path × Nat} {target : String} (hfile : k.1.same file = true)
    (hat : w.lineAt? k.1 k.2 = some target) (e : LineEdit) :
    aimsAt w file [(k, e)] = [(e, target)] := by
  simp [aimsAt, hfile, hat]

theorem aimsAt_of_not_same {k : Path × Nat} (hfile : k.1.same file = false) (e : LineEdit) :
    aimsAt w file [(k, e)] = [] := by
  simp [aimsAt, hfile]

theorem aimsAt_of_none {k : Path × Nat} (hat : w.lineAt? k.1 k.2 = none) (e : LineEdit) :
    aimsAt w file [(k, e)] = [] := by
  simp [aimsAt, hat]

/-- What every working copy is after an edit: what it was, or the file as it is if it was just loaded,
with the edit made where it is aimed at the same file. -/
theorem edit_copies (hd : p.Distinct) {n : Nat} {e : LineEdit} {b : Bool}
    (h : (p.edit file n e).on w = (.ok (b, p'), w')) :
    p'.Distinct ∧ w.Extends w' ∧ (∃ ls, w'.held? file = some ls) ∧
      ∀ c ∈ p'.copies, ∃ text, c.2 = editAll (aimsAt w' c.1 [((file, n), e)]) text ∧
        ((c.1, text) ∈ p.copies ∨ c.1 = file ∧ p.copy? file = none ∧ w'.Current file text) := by
  obtain ⟨w₁, hext, ⟨ls, hls⟩, ⟨hnone, rfl, rfl⟩ | ⟨target, p₁, hat, hload, rfl⟩⟩ := edit_ok hd h
  · refine ⟨hd, hext, ⟨ls, hls⟩, ?_⟩
    intro c hc
    exact ⟨c.2, by rw [aimsAt_of_none hnone, editAll_nil], .inl hc⟩
  · have hext₁ := extends_of_load hload
    have hat' : w'.lineAt? file n = some target := by
      rw [Workspace.lineAt?_extends ⟨ls, hls⟩ hext₁, hat]
    refine ⟨?_, hext.trans hext₁, ⟨ls, hext₁.held _ _ hls⟩, ?_⟩
    · rw [Distinct, editFirst, files_modifyCopy]
      exact hd.load hload
    · intro c hc
      obtain ⟨c₀, hc₀, hfile, htext⟩ := exists_of_mem_modifyCopy hc
      refine ⟨c₀.2, ?_, ?_⟩
      · rw [htext, hfile]
        cases hsame : c₀.1.same file with
        | false =>
            rw [Path.same_comm] at hsame
            rw [aimsAt_of_not_same hsame]
            rfl
        | true =>
            rw [Path.same_comm] at hsame
            rw [aimsAt_of_same hsame hat']
            rfl
      · rw [hfile]
        rcases load_ok hload with ⟨_, _, rfl, _⟩ | ⟨hnone, text, _, hcurrent, rfl⟩
        · exact .inl hc₀
        · rcases List.mem_append.1 hc₀ with hc₀ | hc₀
          · exact .inl hc₀
          · obtain rfl := List.mem_singleton.1 hc₀
            exact .inr ⟨rfl, hnone, hcurrent⟩

/-- A file without a working copy after an edit had none before, and no line of it was there to be
edited. -/
theorem copy?_of_edit_none (hd : p.Distinct) {n : Nat} {e : LineEdit} {b : Bool}
    (h : (p.edit file n e).on w = (.ok (b, p'), w')) {other : Path} (hnone : p'.copy? other = none) :
    p.copy? other = none ∧ (other.same file = true → w'.lineAt? file n = none) := by
  obtain ⟨w₁, hext, ⟨ls, hls⟩, ⟨hgone, rfl, rfl⟩ | ⟨target, p₁, hat, hload, rfl⟩⟩ := edit_ok hd h
  · exact ⟨hnone, fun _ => hgone⟩
  · rw [copy?_eq_none_iff, editFirst, files_modifyCopy, ← copy?_eq_none_iff] at hnone
    rcases load_ok hload with ⟨text, hcopy, rfl, -⟩ | ⟨-, text, -, -, rfl⟩
    · refine ⟨hnone, fun hsame => ?_⟩
      rw [copy?_congr p₁ hsame, hcopy] at hnone
      cases hnone
    · rw [copy?_eq_none_iff, files, List.map_append] at hnone
      refine ⟨copy?_eq_none_iff.2 fun f hf => hnone f (List.mem_append_left _ hf), fun hsame => ?_⟩
      have hother := hnone file (List.mem_append_right _ (List.mem_singleton_self _))
      rw [Path.same_comm, hsame] at hother
      cases hother

/-- An edit leaves the working copies of other files alone. -/
theorem copy?_edit_of_not_same (hd : p.Distinct) {n : Nat} {e : LineEdit} {b : Bool}
    (h : (p.edit file n e).on w = (.ok (b, p'), w')) {other : Path}
    (hother : file.same other = false) : p'.copy? other = p.copy? other := by
  obtain ⟨w₁, -, -, ⟨-, rfl, -⟩ | ⟨target, p₁, -, hload, rfl⟩⟩ := edit_ok hd h
  · rfl
  · rw [editFirst, copy?_modifyCopy_of_not_same p₁ _ hother, copy?_load_of_not_same hload hother]

end Patch

end Upkeep
