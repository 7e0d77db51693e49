/-
**What edits of single lines make of a text.**

An edit finds its line by the text, so of equal lines it may take another one.  The law therefore
counts: an edit takes one line with the text away, and puts its own lines there.  A deletion may take
blank lines along, and a blank line may be gone before its edit comes, so the law speaks of the lines
that are not blank.

Main definitions:

* `Upkeep.LineEdit.rows`, `Upkeep.LineEdit.rowsAfter` — the lines that come for a line;
* `Upkeep.LineEdit.atFirst` — an edit of the first line with a text;
* `Upkeep.Shows` — texts that hold what became of all lines.

Main results:

* `Upkeep.LineEdit.count_applyAt` — **an edit takes one line away and puts others there**;
* `Upkeep.Shows.atFirst` — what an edit of one more line shows;
* `Upkeep.Shows.count_eq` — how often a text shows a line.
-/

import Upkeep.Proofs.Patch.Deletion

set_option relaxedAutoImplicit false
set_option autoImplicit false

namespace Upkeep

variable {text base : List String} {line target : String} {i j : Nat}

/-! ### One edit -/

namespace LineEdit

/-- The lines that an edit puts in the place of a line. -/
def rows : LineEdit → String → List String
  | delete, _ => []
  | replace text, _ => [text]
  | splice lines, _ => lines
  | mark, line => [marked line]

/-- The lines that come for a line that may be edited. -/
def rowsAfter (edit : Option LineEdit) (line : String) : List String :=
  match edit with
  | some e => e.rows line
  | none => [line]

/-- The text with the first line with a text edited. -/
def atFirst (e : LineEdit) (text : List String) (target : String) : List String :=
  match text.findIdx? (· == target) with
  | some j => e.applyAt text j
  | none => text

end LineEdit

theorem take_append_cons_drop (h : text[j]? = some target) :
    text.take j ++ target :: text.drop (j + 1) = text := by
  obtain ⟨hj, rfl⟩ := List.getElem?_eq_some_iff.1 h
  rw [List.getElem_cons_drop, List.take_append_drop]

theorem count_blank (h : Text.isBlankLine target = true) (hline : Text.isBlankLine line = false) :
    [target].count line = 0 := by
  rw [List.count_eq_zero, List.mem_singleton]
  rintro rfl
  rw [hline] at h
  cases h

theorem count_eq_of_getElem? (h : text[j]? = some target) (line : String) :
    text.count line =
      (text.take j).count line + [target].count line + (text.drop (j + 1)).count line := by
  calc text.count line = (text.take j ++ ([target] ++ text.drop (j + 1))).count line := by
        rw [List.singleton_append, take_append_cons_drop h]
    _ = (text.take j).count line + [target].count line + (text.drop (j + 1)).count line := by
        rw [List.count_append, List.count_append, Nat.add_assoc]

/-- A stretch without a line holds none of it. -/
theorem count_take_eq (hij : i ≤ j) (h : ∀ k, i ≤ k → k < j → text[k]? ≠ some line) :
    (text.take j).count line = (text.take i).count line := by
  induction j with
  | zero => rw [Nat.le_zero.1 hij]
  | succ j ih =>
      rcases Nat.lt_or_eq_of_le hij with hlt | rfl
      · have hi : i ≤ j := Nat.le_of_lt_succ hlt
        rw [count_take_succ_of_ne (h j hi (Nat.lt_succ_self j)),
          ih hi fun k hk hkj => h k hk (Nat.lt_succ_of_lt hkj)]
      · rfl

/-- A deletion takes no other line that is not blank. -/
theorem count_delete (hj : text[j]? = some target) (hline : Text.isBlankLine line = false) :
    (LineEdit.delete.applyAt text j).count line + [target].count line = text.count line := by
  have hlt := (List.getElem?_eq_some_iff.1 hj).1
  have hle := blankRun_le text j
  have hblank : ∀ k, j - blankRun text j ≤ k → k ≤ j + blankRun text j → k ≠ j →
      text[k]? ≠ some line := by
    intro k hlow hhigh hne hk
    rw [isBlankLine_of_blankRun hlt hlow hhigh hne hk] at hline
    cases hline
  -- What goes along above and below is blank, so the counts up to its ends are the same.
  have habove : (text.take j).count line = (text.take (j - blankRun text j)).count line :=
    count_take_eq (Nat.sub_le _ _) fun k hlow hk => hblank k hlow (by omega) (by omega)
  have hbelow : (text.take (j + blankRun text j + 1)).count line =
      (text.take (j + 1)).count line :=
    count_take_eq (by omega) fun k hk hhigh => hblank k (by omega) (by omega) (by omega)
  have hsplit : ∀ k, (text.take k).count line + (text.drop k).count line = text.count line := by
    intro k
    rw [← List.count_append, List.take_append_drop]
  have hall := count_eq_of_getElem? hj line
  have hrest := hsplit (j + 1)
  have hrun := hsplit (j + blankRun text j + 1)
  rw [LineEdit.applyAt, List.count_append]
  omega

/-- **An edit takes one line away and puts others there.** -/
theorem LineEdit.count_applyAt (e : LineEdit) (hj : text[j]? = some target)
    (hline : Text.isBlankLine line = false) :
    (e.applyAt text j).count line + [target].count line =
      text.count line + (e.rows target).count line := by
  have hall := count_eq_of_getElem? hj line
  have hlt := (List.getElem?_eq_some_iff.1 hj).1
  -- All edits but deletions only touch the place itself.
  have hput : ∀ lines : List String,
      (text.take j ++ lines ++ text.drop (j + 1)).count line + [target].count line =
        text.count line + lines.count line := by
    intro lines
    rw [List.count_append, List.count_append]
    omega
  cases e with
  | delete => simpa [rows] using count_delete hj hline
  | replace new =>
      have hset : text.set j new = text.take j ++ [new] ++ text.drop (j + 1) := by
        rw [List.set_eq_take_append_cons_drop, if_pos hlt, List.append_assoc,
          List.singleton_append]
      rw [applyAt, hset]
      exact hput [new]
  | splice lines => exact hput lines
  | mark =>
      have hmodify : text.modify j marked =
          text.take j ++ [marked target] ++ text.drop (j + 1) := by
        rw [List.modify_eq_take_cons_drop hlt, List.append_assoc, List.singleton_append,
          (List.getElem?_eq_some_iff.1 hj).2]
      rw [applyAt, hmodify]
      exact hput [marked target]

theorem LineEdit.atFirst_of_not_mem (e : LineEdit) (h : target ∉ text) :
    e.atFirst text target = text := by
  have hnone : text.findIdx? (· == target) = none := by
    rw [List.findIdx?_eq_none_iff]
    intro old hold
    rw [beq_eq_false_iff_ne]
    rintro rfl
    exact h hold
  rw [atFirst, hnone]

theorem LineEdit.count_atFirst (e : LineEdit) (h : target ∈ text)
    (hline : Text.isBlankLine line = false) :
    (e.atFirst text target).count line + [target].count line =
      text.count line + (e.rows target).count line := by
  rw [atFirst]
  cases hfind : text.findIdx? (· == target) with
  | none => simpa using List.findIdx?_eq_none_iff.1 hfind target h
  | some j =>
      obtain ⟨hlt, hat, -⟩ := List.findIdx?_eq_some_iff_getElem.1 hfind
      exact e.count_applyAt (List.getElem?_eq_some_iff.2 ⟨hlt, by simpa using hat⟩) hline

/-! ### What becomes of all lines -/

/-- The lines that come for the lines of a text. -/
def rowsOf (become : Nat → String → List String) (base : List String) : List String :=
  (base.mapIdx become).flatten

/-- Only lines that are not blank become something. -/
def visible (become : Nat → String → List String) (i : Nat) (line : String) : List String :=
  if Text.isBlankLine line then [] else become i line

/-- A text holds what became of every line that is not blank, and, blank lines apart, only what became
of some line. -/
structure Shows (become : Nat → String → List String) (base text : List String) : Prop where
  least : ∀ line, Text.isBlankLine line = false →
    (rowsOf (visible become) base).count line ≤ text.count line
  most : ∀ line, Text.isBlankLine line = false → text.count line ≤ (rowsOf become base).count line

variable {become become' : Nat → String → List String}

theorem mapIdx_become_congr (h : ∀ i old, base[i]? = some old → become i old = become' i old) :
    base.mapIdx become = base.mapIdx become' :=
  List.mapIdx_eq_mapIdx_iff.2 fun i hi => h i base[i] (List.getElem?_eq_getElem hi)

theorem rowsOf_congr (h : ∀ i old, base[i]? = some old → become i old = become' i old) :
    rowsOf become base = rowsOf become' base := by
  rw [rowsOf, rowsOf, mapIdx_become_congr h]

theorem Shows.congr (h : Shows become base text)
    (heq : ∀ i old, base[i]? = some old → become i old = become' i old) :
    Shows become' base text := by
  have hvisible : rowsOf (visible become) base = rowsOf (visible become') base := by
    refine rowsOf_congr fun i old hold => ?_
    rw [visible, visible, heq i old hold]
  constructor
  · rw [← hvisible]
    exact h.least
  · rw [← rowsOf_congr heq]
    exact h.most

/-- What becomes of one line only counts there. -/
theorem count_rowsOf (become become' : Nat → String → List String) (hj : base[j]? = some target)
    (hother : ∀ i old, i ≠ j → become i old = become' i old) (line : String) :
    (rowsOf become' base).count line + (become j target).count line =
      (rowsOf become base).count line + (become' j target).count line := by
  -- The functions are shifted along with the place.
  induction base generalizing j become become' with
  | nil => simp at hj
  | cons old base ih =>
      simp only [rowsOf, List.mapIdx_cons, List.flatten_cons, List.count_append]
      cases j with
      | zero =>
          obtain rfl : old = target := by simpa using hj
          have hrest :
              rowsOf (fun i => become' (i + 1)) base = rowsOf (fun i => become (i + 1)) base :=
            rowsOf_congr fun i old _ => (hother (i + 1) old (Nat.succ_ne_zero i)).symm
          rw [rowsOf, rowsOf] at hrest
          rw [hrest]
          omega
      | succ j =>
          have hrest := ih (fun i => become (i + 1)) (fun i => become' (i + 1)) (by simpa using hj)
            fun i old hi => hother (i + 1) old (by omega)
          simp only [rowsOf] at hrest
          rw [hother 0 old (by omega)]
          omega

/-- What became of a line is there. -/
theorem mem_rowsOf (hj : base[j]? = some target) (hline : line ∈ become j target) :
    line ∈ rowsOf become base := by
  obtain ⟨hlt, rfl⟩ := List.getElem?_eq_some_iff.1 hj
  exact List.mem_flatten.2 ⟨_, List.mem_mapIdx.2 ⟨j, hlt, rfl⟩, hline⟩

/-- A text shows its lines themselves. -/
theorem shows_self (base : List String) : Shows (fun _ old => [old]) base base := by
  have hself : rowsOf (fun _ old => [old]) base = base := by
    induction base with
    | nil => rfl
    | cons old base ih =>
        rw [rowsOf, List.mapIdx_cons, List.flatten_cons, ← rowsOf, ih, List.singleton_append]
  have hvisible : ∀ line, (rowsOf (visible fun _ old => [old]) base).count line ≤
      (rowsOf (fun _ old => [old]) base).count line := by
    intro line
    clear hself
    induction base with
    | nil => exact Nat.le_refl _
    | cons old base ih =>
        simp only [rowsOf, List.mapIdx_cons, List.flatten_cons, List.count_append] at ih ⊢
        refine Nat.add_le_add ?_ ih
        rw [visible]
        split <;> simp
  rw [hself] at hvisible
  exact ⟨fun line _ => hvisible line, fun line _ => Nat.le_of_eq (by rw [hself])⟩

/-- What becomes of the lines when one of them is edited. -/
def editing (become : Nat → String → List String) (j : Nat) (e : LineEdit) (i : Nat)
    (line : String) : List String :=
  if i = j then e.rows line else become i line

theorem editing_self (e : LineEdit) : editing become j e j line = e.rows line := if_pos rfl

theorem editing_of_ne (e : LineEdit) (h : i ≠ j) : become i line = editing become j e i line :=
  (if_neg h).symm

theorem visible_of_blank (h : Text.isBlankLine line = true) : visible become i line = [] := if_pos h

theorem visible_of_not_blank (h : Text.isBlankLine line = false) :
    visible become i line = become i line := by
  rw [visible, h]
  rfl

/-- Where blank lines stay, it does not matter for the others that they are not looked at. -/
theorem count_rowsOf_visible
    (h : ∀ i old, base[i]? = some old → Text.isBlankLine old = true → become i old = [old])
    (hline : Text.isBlankLine line = false) :
    (rowsOf (visible become) base).count line = (rowsOf become base).count line := by
  rw [rowsOf, rowsOf, List.count_flatten, List.count_flatten]
  congr 1
  apply List.ext_getElem?
  intro i
  rw [List.getElem?_map, List.getElem?_map, List.getElem?_mapIdx, List.getElem?_mapIdx]
  cases hold : base[i]? with
  | none => rfl
  | some old =>
      simp only [Option.map_some, Option.some.injEq]
      cases hblank : Text.isBlankLine old with
      | false => rw [visible_of_not_blank hblank]
      | true => rw [visible_of_blank hblank, h i old hold hblank, count_blank hblank hline, List.count_nil]

/-- The lines are known, blank lines apart, where blank lines stay. -/
theorem Shows.count_eq (h : Shows become base text)
    (hblanks : ∀ i old, base[i]? = some old → Text.isBlankLine old = true → become i old = [old])
    (hline : Text.isBlankLine line = false) : text.count line = (rowsOf become base).count line := by
  have hleast := h.least line hline
  rw [count_rowsOf_visible hblanks hline] at hleast
  exact Nat.le_antisymm (h.most line hline) hleast

/-- A line that is not blank and was not touched is there. -/
theorem Shows.mem_of_untouched (h : Shows become base text) (hj : base[j]? = some target)
    (huntouched : become j target = [target]) (hblank : Text.isBlankLine target = false) :
    target ∈ text := by
  have hshown : target ∈ rowsOf (visible become) base :=
    mem_rowsOf hj (by simp [visible_of_not_blank hblank, huntouched])
  exact List.count_pos_iff.1
    (Nat.lt_of_lt_of_le (List.count_pos_iff.2 hshown) (h.least target hblank))

/-- What an edit of one more line shows.  A line that is not blank is there to be edited, for it was
not touched yet. -/
theorem Shows.atFirst (h : Shows become base text) (hj : base[j]? = some target)
    (huntouched : become j target = [target]) (e : LineEdit) :
    Shows (editing become j e) base (e.atFirst text target) := by
  have hthere := h.mem_of_untouched hj huntouched
  constructor
  · intro line hline
    have hleast := h.least line hline
    have hrows := count_rowsOf (visible become) (visible (editing become j e)) hj
      (fun i old hi => by rw [visible, visible, ← editing_of_ne e hi]) line
    cases hblank : Text.isBlankLine target with
    | false =>
        have hedited := e.count_atFirst (hthere hblank) hline
        rw [visible_of_not_blank hblank, visible_of_not_blank hblank, editing_self,
          huntouched] at hrows
        omega
    | true =>
        have hne := count_blank hblank hline
        rw [visible_of_blank hblank, visible_of_blank hblank] at hrows
        by_cases hmem : target ∈ text
        · have hedited := e.count_atFirst hmem hline
          omega
        · rw [e.atFirst_of_not_mem hmem]
          omega
  · intro line hline
    have hmost := h.most line hline
    have hrows := count_rowsOf become (editing become j e) hj
      (fun i old hi => editing_of_ne e hi) line
    rw [editing_self, huntouched] at hrows
    by_cases hmem : target ∈ text
    · have hedited := e.count_atFirst hmem hline
      omega
    · have hblank : Text.isBlankLine target = true := by
        rw [← Bool.not_eq_false]
        exact fun hblank => hmem (hthere hblank)
      have hne := count_blank hblank hline
      rw [e.atFirst_of_not_mem hmem]
      omega

end Upkeep
