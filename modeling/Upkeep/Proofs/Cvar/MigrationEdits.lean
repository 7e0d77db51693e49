/-
**What a migration makes of the lines of a file.**

A migration edits every line at most once, by the plan of the line.  So when a file is as it was first
read, its working copy holds what became of every line: lines without a mention stay, and the others
become what their plans say.

Main definitions:

* `Upkeep.Cvar.becomes` — what becomes of the lines of a file under edits of named lines;
* `Upkeep.Cvar.Made` — patches that have made such edits;
* `Upkeep.Cvar.Migration.editFor?` — the edit that a plan makes of a line;
* `Upkeep.Cvar.Migration.outcome` — what becomes of a line with its mentions.

Main results:

* `Upkeep.Cvar.shows_editAll` — **what edits of named lines make of a file**;
* `Upkeep.Cvar.Made.edit` — one more line is edited;
* `Upkeep.Cvar.Migration.patch_shows` — **what a migration makes of the lines of a file**.
-/

import Mathlib.Data.List.Induction
import Upkeep.Proofs.Cvar.Plans
import Upkeep.Proofs.Files.Reading
import Upkeep.Proofs.Patch.Copies

set_option relaxedAutoImplicit false
set_option autoImplicit false

namespace Upkeep

namespace Cvar

open Files

variable {p p' : Patch} {w w' : Workspace} {file : Path} {done : List (LineKey × LineEdit)}

/-! ### Edited lines -/

/-- What is found does not depend on how a key is written. -/
theorem lookupBy_congr {β : Type} {k k' : LineKey} (h : LineKey.order k k' = .eq)
    (entries : List (LineKey × β)) :
    Data.lookupBy LineKey.order k entries = Data.lookupBy LineKey.order k' entries := by
  rw [Data.lookupBy, Data.lookupBy]
  simp only [Std.TransCmp.congr_left h]

/-- What becomes of the lines of a file, counted from zero, under the edits of some lines. -/
def becomes (done : List (LineKey × LineEdit)) (file : Path) (i : Nat) (line : String) :
    List String :=
  LineEdit.rowsAfter (Data.lookupBy LineKey.order (file, i + 1) done) line

/-- Only the line that is edited last becomes something else than before. -/
theorem becomes_append {k : LineKey} {e : LineEdit} {i : Nat} {line : String}
    (hfresh : Data.lookupBy LineKey.order k done = none) :
    becomes (done ++ [(k, e)]) file i line =
      if LineKey.order (file, i + 1) k = .eq then e.rows line else becomes done file i line := by
  rw [becomes, becomes, Data.lookupBy_append, Data.lookupBy_cons, Data.lookupBy_nil]
  by_cases hk : LineKey.order (file, i + 1) k = .eq
  · have hnone := (lookupBy_congr hk done).trans hfresh
    rw [if_pos hk, if_pos hk, hnone]
    rfl
  · rw [if_neg hk, if_neg hk, Option.or_none]

theorem becomes_of_none {i : Nat} {line : String}
    (h : Data.lookupBy LineKey.order (file, i + 1) done = none) :
    becomes done file i line = [line] := by
  rw [becomes, h]
  rfl

/-- The first line with the text of a named line is edited. -/
theorem shows_editFirst {k : LineKey} {e : LineEdit} {target : String} {ls text : List String} {i : Nat}
    (h : Shows (becomes done file) ls text) (hat : ls[i]? = some target)
    (hk : LineKey.order (file, i + 1) k = .eq) (hfresh : Data.lookupBy LineKey.order k done = none) :
    Shows (becomes (done ++ [(k, e)]) file) ls (e.atFirst text target) := by
  have hnone := (lookupBy_congr hk done).trans hfresh
  refine (h.atFirst hat (becomes_of_none hnone) e).congr ?_
  intro i' line _
  rw [becomes_append hfresh, editing]
  by_cases hi' : i' = i
  · rw [if_pos hi', hi', if_pos hk]
  · rw [if_neg hi', if_neg]
    intro hk'
    have hn := (LineKey.order_eq_iff.1 hk').2
    rw [← (LineKey.order_eq_iff.1 hk).2] at hn
    exact hi' (Nat.succ.inj hn)

/-- An edit is aimed at no line of a file, or at one that is there. -/
theorem aimsAt_cases {ls : List String} (hls : w.held? file = some ls) (k : LineKey) (e : LineEdit) :
    (Patch.aimsAt w file [(k, e)] = [] ∧
      ∀ i line, ls[i]? = some line → LineKey.order (file, i + 1) k ≠ .eq) ∨
    ∃ i target, LineKey.order (file, i + 1) k = .eq ∧ ls[i]? = some target ∧
      Patch.aimsAt w file [(k, e)] = [(e, target)] := by
  cases hsame : k.1.same file with
  | false =>
      refine .inl ⟨Patch.aimsAt_of_not_same hsame e, ?_⟩
      intro i line _ hk
      have hfile := (LineKey.order_eq_iff.1 hk).1
      rw [Path.same_comm, hsame] at hfile
      cases hfile
  | true =>
      have hfile : file.same k.1 = true := by rw [Path.same_comm, hsame]
      cases hat : w.lineAt? k.1 k.2 with
      | none =>
          refine .inl ⟨Patch.aimsAt_of_none hat e, ?_⟩
          intro i line hline hk
          rw [← lineAt?_congr w hfile, ← (LineKey.order_eq_iff.1 hk).2, Workspace.lineAt?_succ hls,
            hline] at hat
          cases hat
      | some target =>
          -- Lines are counted from one, and there is no line before the first.
          obtain ⟨i, hi⟩ : ∃ i, k.2 = i + 1 := by
            refine Nat.exists_eq_succ_of_ne_zero ?_
            intro hzero
            rw [← lineAt?_congr w hfile, hzero] at hat
            simp [Workspace.lineAt?, hls] at hat
          refine .inr ⟨i, target, LineKey.order_eq_iff.2 ⟨hfile, hi.symm⟩, ?_,
            Patch.aimsAt_of_same hsame hat e⟩
          rw [← Workspace.lineAt?_succ hls, ← hat, lineAt?_congr w hfile, hi]

/-- Edits of lines in order name every line once. -/
theorem increasing_concat {k : LineKey} {e : LineEdit}
    (h : Data.Increasing LineKey.order (done ++ [(k, e)])) :
    Data.Increasing LineKey.order done ∧ Data.lookupBy LineKey.order k done = none := by
  obtain ⟨hdone, -, hlast⟩ := List.pairwise_append.1 h
  refine ⟨hdone, ?_⟩
  rw [Data.lookupBy, Option.map_eq_none_iff, List.find?_eq_none]
  intro d hd
  have hgt : LineKey.order k d.1 = .gt :=
    Std.OrientedCmp.gt_iff_lt.2 (hlast d hd _ (List.mem_singleton_self _))
  simp [hgt]

/-- **What edits of named lines make of a file**, one after the other in the order of the lines. -/
theorem shows_editAll {ls : List String} (hls : w.held? file = some ls)
    (hdone : Data.Increasing LineKey.order done) :
    Shows (becomes done file) ls (editAll (Patch.aimsAt w file done) ls) := by
  induction done using List.reverseRecOn with
  | nil => exact Upkeep.shows_self ls
  | append_singleton done d ih =>
      obtain ⟨k, e⟩ := d
      obtain ⟨hdone, hfresh⟩ := increasing_concat hdone
      rw [Patch.aimsAt_append, editAll_append]
      rcases aimsAt_cases hls k e with ⟨hnone, hother⟩ | ⟨i, target, hk, hat, haim⟩
      · rw [hnone, editAll_nil]
        refine (ih hdone).congr ?_
        intro i line hline
        rw [becomes_append hfresh, if_neg (hother i line hline)]
      · rw [haim, editAll_cons, editAll_nil]
        exact shows_editFirst (ih hdone) hat hk hfresh

/-! ### Patches that edit named lines -/

/-- A patch that has made the edits of the named lines, as far as they were there. -/
structure Made (w : Workspace) (done : List (LineKey × LineEdit)) (p : Patch) : Prop where
  distinct : p.Distinct
  held : AllHeld w (done.map Prod.fst)
  untouched : ∀ file, p.copy? file = none → Patch.aimsAt w file done = []
  copies : ∀ c ∈ p.copies, ∃ base ls, w.Current c.1 base ∧ w.held? c.1 = some ls ∧
    c.2 = editAll (Patch.aimsAt w c.1 done) base

theorem made_empty (w : Workspace) (context : Nat) : Made w [] (.empty context) :=
  ⟨List.Pairwise.nil, by simp [AllHeld], fun _ _ => rfl, by simp [Patch.empty]⟩

/-- What edits are aimed at does not change when more files are read. -/
theorem aimsAt_extends (hheld : AllHeld w (done.map Prod.fst)) (hw : w.Extends w') (file : Path) :
    Patch.aimsAt w' file done = Patch.aimsAt w file done := by
  apply List.filterMap_congr
  intro d hd
  rw [Workspace.lineAt?_extends (hheld d.1 (List.mem_map_of_mem hd)) hw]

namespace Made

/-- Reading more files changes nothing. -/
theorem mono (h : Made w done p) (hw : w.Extends w') : Made w' done p := by
  refine ⟨h.distinct, ?_, ?_, ?_⟩
  · intro k hk
    obtain ⟨ls, hls⟩ := h.held k hk
    exact ⟨ls, hw.held _ _ hls⟩
  · intro file hfile
    rw [aimsAt_extends h.held hw, h.untouched file hfile]
  · intro c hc
    obtain ⟨base, ls, hcurrent, hls, htext⟩ := h.copies c hc
    exact ⟨base, ls, hcurrent.mono hw, hw.held _ _ hls, by rw [aimsAt_extends h.held hw, htext]⟩

/-- One more line is edited. -/
theorem edit (h : Made w done p) {k : LineKey} {e : LineEdit} {b : Bool}
    (hedit : (p.edit k.1 k.2 e).on w = (.ok (b, p'), w')) :
    Made w' (done ++ [(k, e)]) p' ∧ w.Extends w' := by
  obtain ⟨hdistinct, hext, hheld, hcopies⟩ := Patch.edit_copies h.distinct hedit
  have h' := h.mono hext
  refine ⟨⟨hdistinct, ?_, ?_, ?_⟩, hext⟩
  · rw [List.map_append]
    exact h'.held.append hheld
  · intro file hfile
    obtain ⟨hnone, hgone⟩ := Patch.copy?_of_edit_none h.distinct hedit hfile
    rw [Patch.aimsAt_append, h'.untouched file hnone, List.nil_append]
    cases hsame : k.1.same file with
    | false => exact Patch.aimsAt_of_not_same hsame e
    | true => exact Patch.aimsAt_of_none (hgone (by rw [Path.same_comm, hsame])) e
  · intro c hc
    obtain ⟨text, hc₂, hold | ⟨hfile, hnone, hcurrent⟩⟩ := hcopies c hc
    · obtain ⟨base, ls, hcurrent, hls, htext⟩ := h'.copies (c.1, text) hold
      refine ⟨base, ls, hcurrent, hls, ?_⟩
      rw [hc₂, Patch.aimsAt_append, editAll_append, ← htext]
    · -- No line of a file that was just loaded was there to be edited.
      obtain ⟨ls, hls⟩ := hheld
      rw [hfile] at hc₂ ⊢
      refine ⟨text, ls, hcurrent, hls, ?_⟩
      rw [hc₂, Patch.aimsAt_append, h'.untouched _ hnone, List.nil_append]

/-- An edit leaves the file of its line held. -/
theorem editOnly (h : Made w done p) {k : LineKey} {e : LineEdit}
    (hrun : Work.on (do return (← p.edit k.1 k.2 e).2) w = (.ok p', w')) :
    w.Extends w' ∧ (∃ ls, w'.held? k.1 = some ls) ∧ Made w' (done ++ [(k, e)]) p' := by
  obtain ⟨⟨b, p₂⟩, w₂, hedit, hpure⟩ := on_bind_ok.1 hrun
  cases hpure
  obtain ⟨h', hext⟩ := h.edit hedit
  have hlast : (k, e) ∈ done ++ [(k, e)] := List.mem_append_right _ (List.mem_singleton_self _)
  exact ⟨hext, h'.held k (List.mem_map_of_mem hlast), h'⟩

/-- What the patch leaves of a file that is as it was first read. -/
theorem copy (h : Made w done p) {base : List String} (hcurrent : w.Current file base) :
    (p.copy? file).getD base = editAll (Patch.aimsAt w file done) base := by
  cases hcopy : p.copy? file with
  | none =>
      rw [h.untouched file hcopy]
      rfl
  | some text =>
      -- The working copy may go by another path that is the same.
      obtain ⟨c, hfind, rfl⟩ := Option.map_eq_some_iff.1 hcopy
      have hfile := List.find?_some hfind
      obtain ⟨base', ls, hcurrent', -, htext⟩ := h.copies c (List.mem_of_find?_eq_some hfind)
      obtain rfl : base' = base := hcurrent'.congr hfile hcurrent
      rw [Option.getD_some, htext, Patch.aimsAt_congr w hfile]

end Made

/-! ### The edits of a migration -/

variable {m : Migration} {cfg : Settings} {base : List String}

namespace Migration

/-- The edit that a plan makes of a line, if it is there. -/
def editFor? (m : Migration) (cfg : Settings) (plan : LinePlan) (line : Option String) :
    Option LineEdit :=
  if plan.whole.isNone && plan.latch.isNone && plan.delete then some .delete
  else line.bind (m.editOf cfg plan)

/-- What becomes of a line with some mentions. -/
def outcome (m : Migration) (cfg : Settings) (ms : List Mention) (line : String) : List String :=
  LineEdit.rowsAfter (m.editFor? cfg (m.planOf line ms) (some line)) line

/-- The edits of some lines by their plans. -/
def editsOf (m : Migration) (cfg : Settings) (w : Workspace) (plans : List (LineKey × LinePlan)) :
    List (LineKey × LineEdit) :=
  plans.filterMap fun e =>
    (m.editFor? cfg e.2 (w.lineAt? e.1.1 e.1.2)).map fun edit => (e.1, edit)

/-- A line to which nothing happens is not edited. -/
theorem editFor?_none (m : Migration) (cfg : Settings) (line : Option String) :
    m.editFor? cfg .none line = none := by
  cases line with
  | none => rfl
  | some line =>
      have hline : m.migrateLine cfg .none line = (line, false) := by
        simp [migrateLine, migrateCalls, LinePlan.none, String.ofList_toList]
      simp only [LinePlan.none] at hline ⊢
      simp [editFor?, editOf, hline]

theorem editsOf_singleton (m : Migration) (cfg : Settings) (w : Workspace) (k : LineKey)
    (plan : LinePlan) : m.editsOf cfg w [(k, plan)] =
      ((m.editFor? cfg plan (w.lineAt? k.1 k.2)).map fun edit => (k, edit)).toList := by
  rw [editsOf, List.filterMap_cons]
  cases m.editFor? cfg plan (w.lineAt? k.1 k.2) <;> rfl

/-- A plan is carried out by its edit. -/
theorem applyPlan_ok (h : Made w done p) {k : LineKey} {plan : LinePlan}
    (hrun : (m.applyPlan cfg p (k, plan)).on w = (.ok p', w')) :
    w.Extends w' ∧ (∃ ls, w'.held? k.1 = some ls) ∧
      Made w' (done ++ m.editsOf cfg w' [(k, plan)]) p' := by
  rw [editsOf_singleton, editFor?]
  rw [applyPlan] at hrun
  split at hrun
  · rename_i hdelete
    rw [if_pos hdelete]
    exact h.editOnly hrun
  · rename_i hdelete
    rw [if_neg hdelete]
    obtain ⟨found, w₁, hfound, hrun⟩ := on_bind_ok.1 hrun
    obtain ⟨hext, hheld, hat⟩ := heldLine_ok hfound
    have h₁ := h.mono hext
    cases found with
    | none =>
        cases hrun
        rw [hat, Option.bind_none, Option.map_none, Option.toList_none, List.append_nil]
        exact ⟨hext, hheld, h₁⟩
    | some line =>
        cases he : m.editOf cfg plan line with
        | none =>
            simp only [he] at hrun
            cases hrun
            rw [hat, Option.bind_some, he, Option.map_none, Option.toList_none, List.append_nil]
            exact ⟨hext, hheld, h₁⟩
        | some e =>
            simp only [he] at hrun
            obtain ⟨hext', hheld', h'⟩ := h₁.editOnly hrun
            -- The line is still the one for which the edit was made.
            rw [Workspace.lineAt?_extends hheld hext', hat, Option.bind_some, he]
            exact ⟨hext.trans hext', hheld', h'⟩

/-- The plans are carried out one after the other. -/
theorem made_foldlM {plans : List (LineKey × LinePlan)} (h : Made w done p)
    (hrun : (plans.foldlM (m.applyPlan cfg) p).on w = (.ok p', w')) :
    w.Extends w' ∧ Made w' (done ++ m.editsOf cfg w' plans) p' := by
  induction plans generalizing w done p with
  | nil =>
      cases hrun
      refine ⟨.refl w', ?_⟩
      rwa [editsOf, List.filterMap_nil, List.append_nil]
  | cons entry plans ih =>
      obtain ⟨k, plan⟩ := entry
      rw [List.foldlM_cons, on_bind_ok] at hrun
      obtain ⟨p₁, w₁, happly, hrun⟩ := hrun
      obtain ⟨hext, hheld, h₁⟩ := applyPlan_ok h happly
      obtain ⟨hext', h'⟩ := ih h₁ hrun
      refine ⟨hext.trans hext', ?_⟩
      have hedits : m.editsOf cfg w' ((k, plan) :: plans) =
          m.editsOf cfg w₁ [(k, plan)] ++ m.editsOf cfg w' plans := by
        rw [editsOf, editsOf, editsOf, ← List.singleton_append, List.filterMap_append]
        congr 1
        simp only [Workspace.lineAt?_extends hheld hext', List.filterMap_cons, List.filterMap_nil]
      rwa [hedits, ← List.append_assoc]

/-- The edits of a migration come in the order of the lines. -/
theorem increasing_editsOf {plans : List (LineKey × LinePlan)}
    (h : Data.Increasing LineKey.order plans) :
    Data.Increasing LineKey.order (m.editsOf cfg w plans) := by
  refine List.Pairwise.filterMap _ ?_ h
  intro a b hlt d hd d' hd'
  obtain ⟨e, -, rfl⟩ := Option.map_eq_some_iff.1 hd
  obtain ⟨e', -, rfl⟩ := Option.map_eq_some_iff.1 hd'
  exact hlt

/-- The edit of a line is that of its plan. -/
theorem becomes_editsOf (cfg : Settings) {plans : List (LineKey × LinePlan)}
    (h : m.Planned w m.record.mentions plans) (hheld : w.held? file = some base) {i : Nat}
    {line : String} (hline : base[i]? = some line) :
    becomes (m.editsOf cfg w plans) file i line =
      m.outcome cfg (m.record.mentionsAt (file, i + 1)) line := by
  have hat : w.lineAt? file (i + 1) = some line := (Workspace.lineAt?_succ hheld i).trans hline
  have hplan := h.planned (file, i + 1)
  rw [textAt, hat, Option.getD_some] at hplan
  have hfound : Data.lookupBy LineKey.order (file, i + 1) (m.editsOf cfg w plans) =
      (Data.lookupBy LineKey.order (file, i + 1) plans).bind fun plan =>
        m.editFor? cfg plan (w.lineAt? file (i + 1)) := by
    refine Data.lookupBy_filterMap h.increasing
      (g := fun k plan => m.editFor? cfg plan (w.lineAt? k.1 k.2)) ?_ (file, i + 1)
    intro k k' plan hk
    obtain ⟨hfile, hn⟩ := LineKey.order_eq_iff.1 hk
    rw [lineAt?_congr w hfile, hn]
  rw [becomes, outcome, Record.mentionsAt, ← hplan, hfound, hat]
  cases Data.lookupBy LineKey.order (file, i + 1) plans with
  | none => rw [Option.bind_none, Option.getD_none, m.editFor?_none]
  | some plan => rfl

/-- Only lines with mentions are edited. -/
theorem mentionsAt_of_mem_editsOf {plans : List (LineKey × LinePlan)}
    (h : m.Planned w m.record.mentions plans) {d : LineKey × LineEdit}
    (hd : d ∈ m.editsOf cfg w plans) : m.record.mentionsAt d.1 ≠ [] := by
  obtain ⟨⟨k, plan⟩, hmem, hd⟩ := List.mem_filterMap.1 hd
  obtain ⟨e, he, rfl⟩ := Option.map_eq_some_iff.1 hd
  intro hnil
  have hplan := h.planned k
  rw [Data.lookupBy_of_mem h.increasing hmem (LineKey.order_eq_iff.2 ⟨Path.same_self _, rfl⟩),
    Option.getD_some, ← Record.mentionsAt, hnil] at hplan
  rw [show plan = .none from hplan, m.editFor?_none] at he
  cases he

/-- A migration makes edits of lines with mentions, in the order of the lines; in a file that is as it was
first read they make of every line what becomes of it. -/
theorem patch_made {context : Nat} (hrun : (m.patch cfg context).on w = (.ok p, w')) :
    ∃ done, Made w' done p ∧ Data.Increasing LineKey.order done ∧
      (∀ d ∈ done, m.record.mentionsAt d.1 ≠ []) ∧
      ∀ file base, w'.held? file = some base → ∀ i line, base[i]? = some line →
        becomes done file i line = m.outcome cfg (m.record.mentionsAt (file, i + 1)) line := by
  rw [patch, on_bind_ok] at hrun
  obtain ⟨plans, w₁, hplans, hrun⟩ := hrun
  obtain ⟨hext, hplanned⟩ := plans_ok hplans
  obtain ⟨hext', h⟩ := made_foldlM (made_empty w₁ context) hrun
  have hplanned := hplanned w' hext'
  exact ⟨m.editsOf cfg w' plans, h, increasing_editsOf hplanned.increasing,
    fun d hd => mentionsAt_of_mem_editsOf hplanned hd, fun file base hheld i line hline => becomes_editsOf cfg hplanned hheld hline⟩

/-- **What a migration makes of the lines of a file** that is as it was first read. -/
theorem patch_shows {context : Nat} (hrun : (m.patch cfg context).on w = (.ok p, w'))
    (hheld : w'.held? file = some base) (hcurrent : w'.Current file base) :
    Shows (fun i line => m.outcome cfg (m.record.mentionsAt (file, i + 1)) line) base
      ((p.copy? file).getD base) := by
  obtain ⟨done, hmade, hdone, -, hbecomes⟩ := patch_made hrun
  rw [hmade.copy hcurrent]
  exact (shows_editAll hheld hdone).congr (hbecomes file base hheld)

end Migration

end Cvar

end Upkeep
