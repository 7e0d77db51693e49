/-
**Edits exchange stretches.**

An edit finds a line by its text and exchanges one stretch of the working copy: the line itself, and
for a deletion the blank lines that go with it.  So a line that is not blank and reads unlike every
line that an edit was aimed at stays where it is among its likes, through any number of edits.  Two lines
of which one stands directly behind the other are parted only by an edit that takes one of them, and lines
that one edit put there come to stand together.

Main definitions:

* `Upkeep.editAll` — a text with edits made one after the other;
* `Upkeep.aside` — the lines that edits aimed at other texts leave alone;
* `Upkeep.neighbours` — how often one line stands directly behind another.

Main results:

* `Upkeep.LineEdit.exists_stretch` — **an edit exchanges one stretch of a text**;
* `Upkeep.aside_sublist_editAll`, `Upkeep.aside_editAll` — what edits leave alone;
* `Upkeep.LineEdit.neighbours_atFirst` — **an edit parts no other lines** than those that it takes.
-/

import Mathlib.Data.List.Basic
import Upkeep.Proofs.Patch.Exchange

set_option relaxedAutoImplicit false
set_option autoImplicit false

namespace Upkeep

variable {text targets : List String} {line target : String} {j : Nat}
  {aims : List (LineEdit × String)}

/-! ### One edit -/

/-- **An edit exchanges one stretch of a text**, which holds the line that it is aimed at, and blank
lines. -/
theorem LineEdit.exists_stretch (e : LineEdit) (hj : text[j]? = some target) :
    ∃ above stretch below, text = above ++ stretch ++ below ∧
      e.applyAt text j = above ++ e.rows target ++ below ∧ target ∈ stretch ∧
      ∀ line ∈ stretch, line = target ∨ Text.isBlankLine line = true := by
  have hlt := (List.getElem?_eq_some_iff.1 hj).1
  -- All edits but deletions exchange just the line.
  have hline : ∀ rows, ∃ above stretch below, text = above ++ stretch ++ below ∧
      text.take j ++ rows ++ text.drop (j + 1) = above ++ rows ++ below ∧ target ∈ stretch ∧
      ∀ line ∈ stretch, line = target ∨ Text.isBlankLine line = true := by
    intro rows
    refine ⟨text.take j, [target], text.drop (j + 1), ?_, rfl, List.mem_singleton_self _, ?_⟩
    · rw [List.append_assoc, List.singleton_append, take_append_cons_drop hj]
    · intro line hmem
      exact .inl (List.mem_singleton.1 hmem)
  cases e with
  | delete =>
      obtain ⟨above, stretch, below, htext, hleft, hlength, habove, hblank⟩ := cutAround_delete hlt
      have hat : stretch[blankRun text j]? = some target := by
        rw [htext, List.append_assoc, List.getElem?_append_right (by omega),
          List.getElem?_append_left (by omega), show j - above.length = blankRun text j by omega] at hj
        exact hj
      refine ⟨above, stretch, below, htext, by rw [hleft]; simp [rows], List.mem_of_getElem? hat, ?_⟩
      intro line hmem
      obtain ⟨k, hk⟩ := List.mem_iff_getElem?.1 hmem
      by_cases hne : k = blankRun text j
      · rw [hne, hat] at hk
        exact .inl (Option.some.inj hk).symm
      · exact .inr (hblank k line hk hne)
  | replace new =>
      rw [applyAt, List.set_eq_take_append_cons_drop, if_pos hlt, ← List.singleton_append,
        ← List.append_assoc]
      exact hline [new]
  | splice lines => exact hline lines
  | mark =>
      rw [applyAt, List.modify_eq_take_cons_drop hlt, (List.getElem?_eq_some_iff.1 hj).2,
        ← List.singleton_append, ← List.append_assoc]
      exact hline [marked target]

/-- The first line with a text is exchanged, if there is one. -/
theorem LineEdit.exists_stretch_atFirst (e : LineEdit) (h : target ∈ text) :
    ∃ above stretch below, text = above ++ stretch ++ below ∧
      e.atFirst text target = above ++ e.rows target ++ below ∧ target ∈ stretch ∧
      ∀ line ∈ stretch, line = target ∨ Text.isBlankLine line = true := by
  rw [atFirst]
  cases hfind : text.findIdx? (· == target) with
  | none => simpa using List.findIdx?_eq_none_iff.1 hfind target h
  | some j =>
      obtain ⟨hlt, hat, -⟩ := List.findIdx?_eq_some_iff_getElem.1 hfind
      exact e.exists_stretch (List.getElem?_eq_some_iff.2 ⟨hlt, by simpa using hat⟩)

/-! ### What edits leave alone -/

/-- A text with edits made one after the other, each of the first line that reads like the one it is
aimed at. -/
def editAll (aims : List (LineEdit × String)) (text : List String) : List String :=
  aims.foldl (fun text aim => aim.1.atFirst text aim.2) text

@[simp] theorem editAll_nil (text : List String) : editAll [] text = text := rfl

@[simp] theorem editAll_cons (aim : LineEdit × String) (aims : List (LineEdit × String))
    (text : List String) : editAll (aim :: aims) text = editAll aims (aim.1.atFirst text aim.2) := rfl

theorem editAll_append (aims aims' : List (LineEdit × String)) (text : List String) :
    editAll (aims ++ aims') text = editAll aims' (editAll aims text) := List.foldl_append

/-- The lines that are not blank and are none of some others, in order. -/
def aside (targets text : List String) : List String :=
  text.filter fun line => !Text.isBlankLine line && !targets.contains line

theorem mem_aside : line ∈ aside targets text ↔
    line ∈ text ∧ Text.isBlankLine line = false ∧ line ∉ targets := by
  simp [aside]

theorem aside_append (targets text text' : List String) :
    aside targets (text ++ text') = aside targets text ++ aside targets text' := List.filter_append ..

theorem aside_eq_nil (h : ∀ line ∈ text, line ∈ targets ∨ Text.isBlankLine line = true) :
    aside targets text = [] := by
  rw [List.eq_nil_iff_forall_not_mem]
  intro line hline
  obtain ⟨hmem, hblank, haim⟩ := mem_aside.1 hline
  rcases h line hmem with h | h
  · exact haim h
  · rw [hblank] at h
    cases h

/-- An edit exchanges nothing that stands aside of its target. -/
theorem LineEdit.aside_atFirst (e : LineEdit) (text : List String) (h : target ∈ targets) :
    ∃ above below, aside targets text = above ++ below ∧
      (aside targets (e.atFirst text target) = above ++ aside targets (e.rows target) ++ below ∨
        e.atFirst text target = text) := by
  by_cases hmem : target ∈ text
  · obtain ⟨above, stretch, below, hold, hnew, -, hstretch⟩ := e.exists_stretch_atFirst hmem
    have hgone : aside targets stretch = [] := by
      refine aside_eq_nil fun line hline => ?_
      rcases hstretch line hline with rfl | hblank
      · exact .inl h
      · exact .inr hblank
    refine ⟨aside targets above, aside targets below, ?_, .inl ?_⟩
    · rw [hold, aside_append, aside_append, hgone, List.append_nil]
    · rw [hnew, aside_append, aside_append]
  · exact ⟨aside targets text, [], (List.append_nil _).symm, .inr (e.atFirst_of_not_mem hmem)⟩

/-- All that stands aside of the targets stays, in order. -/
theorem aside_sublist_editAll (h : ∀ aim ∈ aims, aim.2 ∈ targets) (text : List String) :
    (aside targets text).Sublist (aside targets (editAll aims text)) := by
  induction aims generalizing text with
  | nil => exact List.Sublist.refl _
  | cons aim aims ih =>
      obtain ⟨haim, haims⟩ := List.forall_mem_cons.1 h
      rw [editAll_cons]
      obtain ⟨above, below, hold, hnew | hsame⟩ := aim.1.aside_atFirst text haim
      · refine List.Sublist.trans ?_ (ih haims _)
        rw [hold, hnew]
        exact (List.sublist_append_left _ _).append_right below
      · rw [hsame]
        exact ih haims text

/-- Nothing comes to what stands aside of the targets and of all that edits put there. -/
theorem aside_editAll (h : ∀ aim ∈ aims, aim.2 ∈ targets ∧ aim.1.rows aim.2 ⊆ targets)
    (text : List String) : aside targets (editAll aims text) = aside targets text := by
  induction aims generalizing text with
  | nil => rfl
  | cons aim aims ih =>
      obtain ⟨⟨haim, hrows⟩, haims⟩ := List.forall_mem_cons.1 h
      rw [editAll_cons, ih haims]
      obtain ⟨above, below, hold, hnew | hsame⟩ := aim.1.aside_atFirst text haim
      · have hput : aside targets (aim.1.rows aim.2) = [] := aside_eq_nil fun line hline => .inl (hrows hline)
        rw [hnew, hold, hput, List.append_nil]
      · rw [hsame]

/-! ### Lines that stay together -/

section Neighbours

variable {upper lower : String} {above stretch below : List String}

/-- How often a line stands directly behind another. -/
def neighbours (upper lower : String) (text : List String) : Nat :=
  text.consecutivePairs.count (upper, lower)

@[simp] theorem neighbours_nil (upper lower : String) : neighbours upper lower [] = 0 := rfl

@[simp] theorem neighbours_singleton (upper lower line : String) :
    neighbours upper lower [line] = 0 := rfl

theorem neighbours_cons_cons (upper lower a b : String) (text : List String) :
    neighbours upper lower (a :: b :: text) =
      neighbours upper lower (b :: text) + if a = upper ∧ b = lower then 1 else 0 := by
  simp only [neighbours, List.consecutivePairs, List.tail_cons, List.zip_cons_cons, List.count_cons,
    beq_iff_eq, Prod.mk.injEq]

theorem neighbours_append (upper lower : String) (above below : List String) :
    neighbours upper lower (above ++ below) = neighbours upper lower above +
      neighbours upper lower below +
        if above.getLast? = some upper ∧ below.head? = some lower then 1 else 0 := by
  induction above with
  | nil => simp
  | cons a above ih =>
      cases above with
      | nil =>
          cases below with
          | nil => simp
          | cons b below => simp [neighbours_cons_cons]
      | cons a' above =>
          rw [List.cons_append, List.cons_append, neighbours_cons_cons, ← List.cons_append, ih,
            neighbours_cons_cons, List.getLast?_cons_cons]
          omega

/-- In a stretch without a line nothing stands behind it. -/
theorem neighbours_eq_zero (h : upper ∉ stretch) : neighbours upper lower stretch = 0 := by
  rw [neighbours, List.count_eq_zero]
  intro hmem
  exact h (List.of_mem_zip hmem).1

/-- Lines come together when a stretch is taken that holds none of them, and lines that stand together
are put there. -/
theorem neighbours_exchange (hne : stretch ≠ []) (hupper : upper ∉ stretch) (hlower : lower ∉ stretch)
    (rows : List String) :
    neighbours upper lower (above ++ stretch ++ below) + neighbours upper lower rows ≤
      neighbours upper lower (above ++ rows ++ below) := by
  have hlast : stretch.getLast? ≠ some upper := fun h => hupper (List.mem_of_getLast? h)
  have hhead : (stretch ++ below).head? ≠ some lower := by
    rw [List.head?_append_of_ne_nil _ hne]
    exact fun h => hlower (List.mem_of_head? h)
  have hold : neighbours upper lower (above ++ stretch ++ below) =
      neighbours upper lower above + neighbours upper lower below := by
    rw [List.append_assoc, neighbours_append, neighbours_append, neighbours_eq_zero hupper,
      if_neg fun h => hlast h.1, if_neg fun h => hhead h.2]
    omega
  rw [hold, neighbours_append, neighbours_append]
  omega

/-- **An edit parts no other lines** than those that it takes. -/
theorem LineEdit.neighbours_atFirst (e : LineEdit) (h : target ∈ text) (hupper : target ≠ upper)
    (hlower : target ≠ lower) (hblank : Text.isBlankLine upper = false)
    (hblank' : Text.isBlankLine lower = false) :
    neighbours upper lower text + neighbours upper lower (e.rows target) ≤
      neighbours upper lower (e.atFirst text target) := by
  obtain ⟨above, stretch, below, hold, hnew, hmem, hstretch⟩ := e.exists_stretch_atFirst h
  have hnot : ∀ line, target ≠ line → Text.isBlankLine line = false → line ∉ stretch := by
    intro line hne hline hmem
    rcases hstretch line hmem with rfl | hblank
    · exact hne rfl
    · rw [hline] at hblank
      cases hblank
  rw [hnew, hold]
  exact neighbours_exchange (List.ne_nil_of_mem hmem) (hnot upper hupper hblank)
    (hnot lower hlower hblank') _

end Neighbours

end Upkeep
