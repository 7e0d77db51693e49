/-
**Scripts with loose ends.**

While a script is tidied, an edit that moves keeps its own places right, but the edits that it passes
do not learn of it: what is deleted may name a wrong place in the new list, and what is inserted a wrong
place in the old one.  All that shows lines stays right: the kept lines on both sides, the deleted ones
on the old side, the inserted ones on the new side.  Every step of the comparison keeps this.

Main definitions:

* `Upkeep.Diff.Loose` — scripts that are right where they show lines;
* `Upkeep.Diff.Part` — a stretch of a list;
* `Upkeep.Diff.Cursor.edits` — the script around a place in it.

Main results:

* `Upkeep.Diff.loose_rawScript` — what the cuts leave is right where it shows lines;
* `Upkeep.Diff.Loose.moveUp`, `Upkeep.Diff.Loose.moveDown` — a move keeps it right;
* `Upkeep.Diff.loose_compact` — **tidying keeps a script right where it shows lines**.
-/

import Upkeep.Proofs.Diff.Script

set_option relaxedAutoImplicit false
set_option autoImplicit false

namespace Upkeep

namespace Diff

variable {old new : List String} {i j k l i' j' : Nat} {es fs : List Edit} {e : Edit}

/-! ### Loose scripts -/

/-- The edits lead from one pair of places to another, if only the places are read at which they show
lines.  Nothing is replaced yet. -/
def Loose (old new : List String) : Nat → Nat → List Edit → Nat → Nat → Prop
  | i, j, [], i', j' => i = i' ∧ j = j'
  | i, j, .keep a b n :: es, i', j' =>
    a = i ∧ b = j ∧ (Edit.keep a b n).Fits old new ∧ Loose old new (i + n) (j + n) es i' j'
  | i, j, .delete a _ n :: es, i', j' =>
    a = i ∧ i + n ≤ old.length ∧ Loose old new (i + n) j es i' j'
  | i, j, .insert _ b n :: es, i', j' =>
    b = j ∧ j + n ≤ new.length ∧ Loose old new i (j + n) es i' j'
  | _, _, .replace .. :: _, _, _ => False

@[simp] theorem loose_nil : Loose old new i j [] i' j' ↔ i = i' ∧ j = j' := Iff.rfl

@[simp] theorem loose_keep {a b n : Nat} : Loose old new i j (.keep a b n :: es) i' j' ↔
    a = i ∧ b = j ∧ (Edit.keep a b n).Fits old new ∧ Loose old new (i + n) (j + n) es i' j' := Iff.rfl

@[simp] theorem loose_delete {a b n : Nat} : Loose old new i j (.delete a b n :: es) i' j' ↔
    a = i ∧ i + n ≤ old.length ∧ Loose old new (i + n) j es i' j' := Iff.rfl

@[simp] theorem loose_insert {a b n : Nat} : Loose old new i j (.insert a b n :: es) i' j' ↔
    b = j ∧ j + n ≤ new.length ∧ Loose old new i (j + n) es i' j' := Iff.rfl

@[simp] theorem not_loose_replace {a n b m : Nat} :
    ¬ Loose old new i j (.replace a n b m :: es) i' j' := fun h => h

/-- Scripts are put together, and taken apart, between any two edits. -/
theorem loose_append : Loose old new i j (es ++ fs) i' j' ↔
    ∃ k l, Loose old new i j es k l ∧ Loose old new k l fs i' j' := by
  induction es generalizing i j with
  | nil =>
      constructor
      · exact fun h => ⟨i, j, ⟨rfl, rfl⟩, h⟩
      · rintro ⟨k, l, ⟨rfl, rfl⟩, h⟩
        exact h
  | cons e es ih =>
      cases e with
      | keep a b n =>
          simp only [List.cons_append, loose_keep, ih]
          constructor
          · rintro ⟨ha, hb, hf, k, l, h, h'⟩
            exact ⟨k, l, ⟨ha, hb, hf, h⟩, h'⟩
          · rintro ⟨k, l, ⟨ha, hb, hf, h⟩, h'⟩
            exact ⟨ha, hb, hf, k, l, h, h'⟩
      | delete a b n =>
          simp only [List.cons_append, loose_delete, ih]
          constructor
          · rintro ⟨ha, hle, k, l, h, h'⟩
            exact ⟨k, l, ⟨ha, hle, h⟩, h'⟩
          · rintro ⟨k, l, ⟨ha, hle, h⟩, h'⟩
            exact ⟨ha, hle, k, l, h, h'⟩
      | insert a b n =>
          simp only [List.cons_append, loose_insert, ih]
          constructor
          · rintro ⟨hb, hle, k, l, h, h'⟩
            exact ⟨k, l, ⟨hb, hle, h⟩, h'⟩
          · rintro ⟨k, l, ⟨hb, hle, h⟩, h'⟩
            exact ⟨hb, hle, k, l, h, h'⟩
      | replace a n b m => simp

/-- A change in the middle of a script keeps it right if it does so between the ends of what it
changes. -/
theorem Loose.middle {before es' : List Edit} (h : Loose old new i j (before ++ es) i' j')
    (hes : ∀ k l, Loose old new k l es i' j' → Loose old new k l es' i' j') :
    Loose old new i j (before ++ es') i' j' := by
  obtain ⟨k, l, hbefore, h⟩ := loose_append.1 h
  exact loose_append.2 ⟨k, l, hbefore, hes k l h⟩

/-! ### Kept lines -/

/-- Kept lines that follow each other can be kept together. -/
theorem Edit.Fits.keep_append {n m : Nat} (h : (Edit.keep i j n).Fits old new)
    (h' : (Edit.keep (i + n) (j + n) m).Fits old new) : (Edit.keep i j (n + m)).Fits old new := by
  obtain ⟨-, -, hs⟩ := h.of_keep
  obtain ⟨hi, hj, hs'⟩ := h'.of_keep
  refine ⟨by simp only [Edit.oldEnd_keep]; omega, by simp only [Edit.newEnd_keep]; omega, fun _ => ?_⟩
  change slice old i (n + m) = slice new j (n + m)
  rw [← slice_append, ← slice_append, hs, hs']

theorem fits_keep {n : Nat} (hi : i + n ≤ old.length) (hj : j + n ≤ new.length)
    (h : slice old i n = slice new j n) : (Edit.keep i j n).Fits old new := ⟨hi, hj, fun _ => h⟩

/-- Kept lines can be left out if there are none. -/
theorem loose_of_isEmpty {a b n : Nat} (hempty : (Edit.keep a b n).isEmpty = true)
    (h : Loose old new i j (.keep a b n :: es) i' j') : Loose old new i j es i' j' := by
  obtain rfl : n = 0 := by simpa [Edit.isEmpty, Edit.oldLength, Edit.newLength] using hempty
  exact h.2.2.2

theorem loose_consUnlessEmpty {a b n : Nat} (h : Loose old new i j (.keep a b n :: es) i' j') :
    Loose old new i j (consUnlessEmpty (.keep a b n) es) i' j' := by
  rw [consUnlessEmpty]
  split
  · exact loose_of_isEmpty ‹_› h
  · exact h

theorem loose_reverse_consUnlessEmpty {a b n : Nat} {before : List Edit}
    (h : Loose old new i j (before.reverse ++ .keep a b n :: es) i' j') :
    Loose old new i j ((consUnlessEmpty (.keep a b n) before).reverse ++ es) i' j' := by
  rw [consUnlessEmpty]
  split
  · exact h.middle fun _ _ => loose_of_isEmpty ‹_›
  · rwa [List.reverse_cons, List.append_assoc]

/-! ### Parts in common -/

section Common

variable {α : Type} [DecidableEq α]

/-- The parts on which two lists agree at the end are equal. -/
theorem drop_commonEnd (as bs : List α) :
    as.drop (as.length - commonEnd as bs) = bs.drop (bs.length - commonEnd as bs) := by
  have h := take_commonStart as.reverse bs.reverse
  rw [List.take_reverse, List.take_reverse] at h
  exact List.reverse_inj.1 h

end Common

theorem drop_slice {α : Type} (xs : List α) (i n d : Nat) :
    (slice xs i n).drop d = slice xs (i + d) (n - d) := by
  rw [slice, slice, List.drop_take, List.drop_drop]

theorem take_slice {α : Type} (xs : List α) {i n d : Nat} (h : d ≤ n) :
    (slice xs i n).take d = slice xs i d := by
  rw [slice, slice, List.take_take, Nat.min_eq_left h]

/-- The kept lines at the end of which inserted lines end, too. -/
theorem slice_commonEnd {n m : Nat} (hi : i + n ≤ old.length) (hj : j + m ≤ new.length) :
    let d := commonEnd (slice old i n) (slice new j m)
    d ≤ n ∧ d ≤ m ∧ slice old (i + (n - d)) d = slice new (j + (m - d)) d := by
  intro d
  have hn : d ≤ n := by
    have hle := commonEnd_le_left (slice old i n) (slice new j m)
    rwa [length_slice hi] at hle
  have hm : d ≤ m := by
    have hle := commonEnd_le_right (slice old i n) (slice new j m)
    rwa [length_slice hj] at hle
  have heq := drop_commonEnd (slice old i n) (slice new j m)
  rw [length_slice hi, length_slice hj, drop_slice, drop_slice] at heq
  refine ⟨hn, hm, ?_⟩
  rwa [Nat.sub_sub_self hn, Nat.sub_sub_self hm] at heq

/-- The kept lines at the start of which inserted lines start, too. -/
theorem slice_commonStart {n m : Nat} (hi : i + n ≤ old.length) (hj : j + m ≤ new.length) :
    let d := commonStart (slice old i n) (slice new j m)
    d ≤ n ∧ d ≤ m ∧ slice old i d = slice new j d := by
  intro d
  have hn : d ≤ n := by
    have hle := commonStart_le_left (slice old i n) (slice new j m)
    rwa [length_slice hi] at hle
  have hm : d ≤ m := by
    have hle := commonStart_le_right (slice old i n) (slice new j m)
    rwa [length_slice hj] at hle
  have heq := take_commonStart (slice old i n) (slice new j m)
  rw [take_slice _ hn, take_slice _ hm] at heq
  exact ⟨hn, hm, heq⟩

/-! ### Moves -/

/-- The script around a place in it. -/
def Cursor.edits (c : Cursor) : List Edit := c.before.reverse ++ c.this :: c.after

/-- The edit at a place is not one that keeps lines. -/
def Cursor.Changes (c : Cursor) : Prop := c.this.keeps = false

/-- What is put behind an edit that moves up: kept lines up to where it ended. -/
theorem loose_keptAfter (keep this : Edit) {n : Nat} (hle : n ≤ keep.oldEnd) (hle' : n ≤ this.newEnd)
    (hfits : (Edit.keep (keep.oldEnd - n) (this.newEnd - n) n).Fits old new)
    (h : Loose old new keep.oldEnd this.newEnd es i' j') :
    Loose old new (keep.oldEnd - n) (this.newEnd - n) (keptAfter keep this n es) i' j' := by
  have hback : keep.oldEnd - n + n = keep.oldEnd := Nat.sub_add_cancel hle
  have hback' : this.newEnd - n + n = this.newEnd := Nat.sub_add_cancel hle'
  have hnew : Loose old new (keep.oldEnd - n) (this.newEnd - n)
      (.keep (keep.oldEnd - n) (this.newEnd - n) n :: es) i' j' := by
    rw [loose_keep, hback, hback']
    exact ⟨rfl, rfl, hfits, h⟩
  cases es with
  | nil => exact hnew
  | cons e es =>
      rw [keptAfter]
      cases e with
      | keep a b m =>
          obtain ⟨rfl, rfl, hf, h⟩ := h
          rw [← hback, ← hback'] at hf
          have hfits' := hfits.keep_append hf
          have hend : keep.oldEnd - n + (m + n) = keep.oldEnd + m := by omega
          have hend' : this.newEnd - n + (m + n) = this.newEnd + m := by omega
          simp only [Edit.keeps, if_true, Edit.growLeft, Edit.shiftLeft, Edit.growRight, loose_keep,
            true_and, hend, hend']
          rw [Nat.add_comm m n]
          exact ⟨hfits', h⟩
      | delete a b m => exact hnew
      | insert a b m => exact hnew
      | replace a n b m => exact hnew

/-- An insertion moves up past the kept lines with which it ends. -/
theorem loose_shiftUp {p q n a b m : Nat}
    (h : Loose old new k l (.keep p q n :: .insert a b m :: es) i' j') :
    let d := commonEnd (slice old p n) (slice new b m)
    Loose old new k l (.keep p q (n - d) :: .insert (a - d) (b - d) m ::
      keptAfter (.keep p q n) (.insert a b m) d es) i' j' := by
  intro d
  obtain ⟨rfl, rfl, hf, rfl, hm, h⟩ := h
  obtain ⟨hp, hq, -⟩ := hf.of_keep
  obtain ⟨hdn, hdm, heq⟩ := slice_commonEnd hp hm
  have hfirst : (Edit.keep p q (n - d)).Fits old new := by
    simpa using hf.keep_part (d := 0) (m := n - d) (by omega)
  have hstart : q + n - d = q + (n - d) := by omega
  refine ⟨rfl, rfl, hfirst, hstart, by omega, ?_⟩
  have hplace : p + n - d = p + (n - d) := by omega
  have hplace' : q + n + m - d = q + (n - d) + m := by omega
  have hplace'' : q + n + (m - d) = q + n + m - d := by omega
  rw [← hplace, ← hplace']
  refine loose_keptAfter (.keep p q n) (.insert a (q + n) m)
    (show d ≤ p + n by omega) (show d ≤ q + n + m by omega) ?_ h
  refine fits_keep (show p + n - d + d ≤ _ by omega) (show q + n + m - d + d ≤ _ by omega) ?_
  rw [hplace''] at heq
  change slice old (p + n - d) d = slice new (q + n + m - d) d
  rw [hplace]
  exact heq

/-- An insertion moves down past the kept lines with which it starts. -/
theorem loose_shiftDown {a b m p q n : Nat}
    (h : Loose old new k l (.insert a b m :: .keep p q n :: es) i' j') :
    let d := commonStart (slice old p n) (slice new b m)
    Loose old new k l (.keep p b d :: .insert (a + d) (b + d) m ::
      .keep (p + d) (q + d) (n - d) :: es) i' j' := by
  intro d
  obtain ⟨rfl, hm, rfl, rfl, hf, h⟩ := h
  obtain ⟨hp, hq, -⟩ := hf.of_keep
  obtain ⟨hdn, hdm, heq⟩ := slice_commonStart hp hm
  have hswap : b + m + d = b + d + m := by omega
  have hend : p + d + (n - d) = p + n := by omega
  have hend' : b + d + m + (n - d) = b + m + n := by omega
  have hrest : (Edit.keep (p + d) (b + m + d) (n - d)).Fits old new := hf.keep_part (by omega)
  refine ⟨rfl, rfl, fits_keep (by omega) (by omega) heq, rfl, by omega, rfl, hswap, hrest, ?_⟩
  rw [hend, hend']
  exact h

/-- Kept lines join those before them. -/
theorem loose_keptBefore {keep this : Edit} {n : Nat} {before : List Edit}
    (h : Loose old new i j
      (before.reverse ++ .keep keep.oldStart this.newStart n :: es) i' j') :
    Loose old new i j ((keptBefore keep this n before).reverse ++ es) i' j' := by
  have hnew : Loose old new i j
      ((Edit.keep keep.oldStart this.newStart n :: before).reverse ++ es) i' j' := by
    rwa [List.reverse_cons, List.append_assoc]
  cases before with
  | nil => exact hnew
  | cons e before =>
      rw [keptBefore]
      cases e with
      | keep a b m =>
          rw [List.reverse_cons, List.append_assoc] at h
          simp only [Edit.keeps, if_true, Edit.growRight, List.reverse_cons, List.append_assoc]
          refine h.middle ?_
          rintro k l ⟨rfl, rfl, hf, hold, hnew, hf', h⟩
          rw [hold, hnew] at hf'
          refine ⟨rfl, rfl, hf.keep_append hf', ?_⟩
          rwa [← Nat.add_assoc, ← Nat.add_assoc]
      | delete a b m => exact hnew
      | insert a b m => exact hnew
      | replace a n b m => exact hnew

/-- Two edits that change lines are one, if they are of one kind, or change places. -/
theorem loose_meet {e e' : Edit} (he : e.keeps = false) (he' : e'.keeps = false)
    (h : Loose old new k l (e :: e' :: es) i' j') :
    (e.inserts == e'.inserts) = true ∧
        Loose old new k l (e.growRight (e'.oldLength + e'.newLength) :: es) i' j' ∨
      (e.inserts == e'.inserts) = false ∧ Loose old new k l (e' :: e :: es) i' j' := by
  cases e with
  | keep a b n => cases he
  | replace a n b m => exact absurd h not_loose_replace
  | delete a b n =>
      obtain ⟨rfl, hn, h⟩ := h
      cases e' with
      | keep a' b' m => cases he'
      | replace a' n' b' m => exact absurd h not_loose_replace
      | delete a' b' m =>
          obtain ⟨-, hm, h⟩ := h
          refine .inl ⟨rfl, rfl, ?_, ?_⟩
          · simpa [Edit.oldLength, Edit.newLength, Nat.add_assoc] using hm
          · simpa [Edit.oldLength, Edit.newLength, Nat.add_assoc] using h
      | insert a' b' m =>
          obtain ⟨rfl, hm, h⟩ := h
          exact .inr ⟨rfl, rfl, hm, rfl, hn, h⟩
  | insert a b n =>
      obtain ⟨rfl, hn, h⟩ := h
      cases e' with
      | keep a' b' m => cases he'
      | replace a' n' b' m => exact absurd h not_loose_replace
      | insert a' b' m =>
          obtain ⟨-, hm, h⟩ := h
          refine .inl ⟨rfl, rfl, ?_, ?_⟩
          · simpa [Edit.oldLength, Edit.newLength, Nat.add_assoc] using hm
          · simpa [Edit.oldLength, Edit.newLength, Nat.add_assoc] using h
      | delete a' b' m =>
          obtain ⟨rfl, hm, h⟩ := h
          exact .inr ⟨rfl, rfl, hm, rfl, hn, h⟩

theorem keeps_growRight (e : Edit) (n : Nat) : (e.growRight n).keeps = e.keeps := by cases e <;> rfl

theorem keeps_shiftLeft (e : Edit) (n : Nat) : (e.shiftLeft n).keeps = e.keeps := by cases e <;> rfl

theorem keeps_shiftRight (e : Edit) (n : Nat) : (e.shiftRight n).keeps = e.keeps := by cases e <;> rfl

/-- Only insertions have lines in common with kept ones. -/
theorem eq_insert_of_newLines {e : Edit} (he : e.keeps = false) (hne : e.newLines new ≠ [])
    (h : Loose old new i j (e :: es) i' j') : ∃ a b n, e = .insert a b n := by
  cases e with
  | keep a b n => cases he
  | delete a b n => simp [Edit.newLines, Edit.newLength] at hne
  | insert a b n => exact ⟨a, b, n, rfl⟩
  | replace a n b m => exact absurd h not_loose_replace

theorem exists_keep {e : Edit} (h : e.keeps = true) : ∃ p q n, e = .keep p q n := by
  cases e with
  | keep p q n => exact ⟨p, q, n, rfl⟩
  | delete a b n => cases h
  | insert a b n => cases h
  | replace a n b m => cases h

/-- A move up keeps a script right where it shows lines. -/
theorem Loose.moveUp {c c' : Cursor} (h : Loose old new i j c.edits i' j') (hc : c.Changes)
    (hmove : moveUp? old new c = some c') : c'.Changes ∧ Loose old new i j c'.edits i' j' := by
  obtain ⟨before, this, after⟩ := c
  cases before with
  | nil => cases hmove
  | cons prev before =>
      simp only [Cursor.edits, List.reverse_cons, List.append_assoc, List.singleton_append] at h
      cases hkeeps : prev.keeps with
      | true =>
          obtain ⟨p, q, n, rfl⟩ := exists_keep hkeeps
          simp only [moveUp?, hkeeps, if_true] at hmove
          split at hmove
          · rename_i hpos
            cases hmove
            refine ⟨(keeps_shiftLeft this _).trans hc, ?_⟩
            -- A deletion shows no new lines, so only an insertion gets here.
            have hne : this.newLines new ≠ [] := by
              intro hnil
              simp [hnil, commonEnd, commonStart] at hpos
            obtain ⟨k, l, hbefore, hthis⟩ := loose_append.1 h
            obtain ⟨a, b, m, rfl⟩ := eq_insert_of_newLines hc hne hthis.2.2.2
            exact loose_reverse_consUnlessEmpty
              (loose_append.2 ⟨k, l, hbefore, loose_shiftUp hthis⟩)
          · split at hmove
            · cases hmove
              exact ⟨hc, h.middle fun _ _ => loose_of_isEmpty ‹_›⟩
            · cases hmove
      | false =>
          simp only [moveUp?, hkeeps, if_false, Bool.false_eq_true] at hmove
          obtain ⟨k, l, hbefore, hthis⟩ := loose_append.1 h
          rcases loose_meet hkeeps hc hthis with ⟨hkind, hjoin⟩ | ⟨hkind, hswap⟩
          · simp only [hkind, if_true] at hmove
            cases hmove
            exact ⟨(keeps_growRight prev _).trans hkeeps, loose_append.2 ⟨k, l, hbefore, hjoin⟩⟩
          · simp only [hkind, if_false, Bool.false_eq_true] at hmove
            cases hmove
            exact ⟨hc, loose_append.2 ⟨k, l, hbefore, hswap⟩⟩

/-- A move down keeps a script right where it shows lines. -/
theorem Loose.moveDown {c c' : Cursor} (h : Loose old new i j c.edits i' j') (hc : c.Changes)
    (hmove : moveDown? old new c = some c') : c'.Changes ∧ Loose old new i j c'.edits i' j' := by
  obtain ⟨before, this, after⟩ := c
  cases after with
  | nil => cases hmove
  | cons next after =>
      rw [Cursor.edits] at h
      obtain ⟨k, l, hbefore, hthis⟩ := loose_append.1 h
      cases hkeeps : next.keeps with
      | true =>
          obtain ⟨p, q, n, rfl⟩ := exists_keep hkeeps
          simp only [moveDown?, hkeeps, if_true] at hmove
          split at hmove
          · rename_i hpos
            cases hmove
            refine ⟨(keeps_shiftRight this _).trans hc, ?_⟩
            -- Only an insertion has lines to compare with those behind it.
            have hne : this.newLines new ≠ [] := by
              intro hnil
              cases hold : (Edit.keep p q n).oldLines old <;> simp [hnil, hold, commonStart] at hpos
            obtain ⟨a, b, m, rfl⟩ := eq_insert_of_newLines hc hne hthis
            refine loose_keptBefore (loose_append.2 ⟨k, l, hbefore, ?_⟩)
            obtain ⟨hold, hnew, hf, hrest⟩ := loose_shiftDown hthis
            refine ⟨hold, hnew, hf, hrest.1, hrest.2.1, loose_consUnlessEmpty hrest.2.2⟩
          · split at hmove
            · cases hmove
              have hone : Loose old new k l ([this] ++ .keep p q n :: after) i' j' := hthis
              exact ⟨hc, loose_append.2
                ⟨k, l, hbefore, hone.middle fun _ _ => loose_of_isEmpty ‹_›⟩⟩
            · cases hmove
      | false =>
          simp only [moveDown?, hkeeps, if_false, Bool.false_eq_true] at hmove
          rcases loose_meet hc hkeeps hthis with ⟨hkind, hjoin⟩ | ⟨hkind, hswap⟩
          · rw [Bool.beq_comm] at hkind
            simp only [hkind, if_true] at hmove
            cases hmove
            exact ⟨(keeps_growRight this _).trans hc, loose_append.2 ⟨k, l, hbefore, hjoin⟩⟩
          · rw [Bool.beq_comm] at hkind
            simp only [hkind, if_false, Bool.false_eq_true] at hmove
            cases hmove
            refine ⟨hc, ?_⟩
            rw [Cursor.edits, List.reverse_cons, List.append_assoc]
            exact loose_append.2 ⟨k, l, hbefore, hswap⟩

/-- Moves in any number keep a script right where it shows lines. -/
theorem Loose.moveAll {move : Cursor → Option Cursor}
    (hmove : ∀ c c', Loose old new i j c.edits i' j' → c.Changes → move c = some c' →
      c'.Changes ∧ Loose old new i j c'.edits i' j') (budget : Nat) {c : Cursor}
    (h : Loose old new i j c.edits i' j') (hc : c.Changes) :
    (moveAll move budget c).Changes ∧ Loose old new i j (moveAll move budget c).edits i' j' := by
  induction budget generalizing c with
  | zero => exact ⟨hc, h⟩
  | succ budget ih =>
      rw [Diff.moveAll]
      split
      · exact ⟨hc, h⟩
      · rename_i c' hc'
        obtain ⟨hchanges, hloose⟩ := hmove c c' h hc hc'
        exact ih hloose hchanges

/-! ### Tidying -/

/-- Tidying the edits of one kind keeps a script right where it shows lines. -/
theorem Loose.tidy {kind : Edit → Bool} (hkind : ∀ e, kind e = true → e.keeps = false)
    {budget : Nat} (done : List Edit) {rest : List Edit}
    (h : Loose old new i j (done.reverse ++ rest) i' j') :
    Loose old new i j (tidy kind old new budget done rest) i' j' := by
  fun_induction Diff.tidy kind old new budget done rest with
  | case1 => exact h
  | case2 => rwa [List.append_nil] at h
  | case3 budget done e rest he c ih =>
      obtain ⟨hchanges, hup⟩ := Loose.moveAll (fun _ _ h hc => h.moveUp hc)
        (bulk done) (c := ⟨done, e, rest⟩) h (hkind e he)
      obtain ⟨-, hdown⟩ := Loose.moveAll (fun _ _ h hc => h.moveDown hc)
        (bulk (shiftUp old new ⟨done, e, rest⟩).after) hup hchanges
      refine ih ?_
      rw [List.reverse_cons, List.append_assoc]
      exact hdown
  | case4 budget done e rest he ih =>
      refine ih ?_
      rwa [List.reverse_cons, List.append_assoc]

/-- **Tidying keeps a script right where it shows lines.** -/
theorem loose_compact (h : Loose old new i j es i' j') :
    Loose old new i j (compact old new es) i' j' := by
  have hdeletes : ∀ e : Edit, e.deletes = true → e.keeps = false := by
    intro e he
    cases e <;> simp_all [Edit.deletes, Edit.keeps]
  have hinserts : ∀ e : Edit, e.inserts = true → e.keeps = false := by
    intro e he
    cases e <;> simp_all [Edit.inserts, Edit.keeps]
  exact Loose.tidy hinserts [] (Loose.tidy hdeletes [] h)

/-! ### Cutting -/

/-- A stretch of a list that begins at a place. -/
structure Part (xs : List String) (i : Nat) (ys : List String) : Prop where
  le : i + ys.length ≤ xs.length
  eq : slice xs i ys.length = ys

theorem part_self (xs : List String) : Part xs 0 xs := ⟨by simp, by simp [slice]⟩

variable {xs ys : List String}

theorem Part.take (h : Part xs i ys) {n : Nat} (hn : n ≤ ys.length) : Part xs i (ys.take n) := by
  have hlen : (ys.take n).length = n := List.length_take_of_le hn
  have htake := take_slice xs (i := i) hn
  rw [h.eq] at htake
  refine ⟨?_, by rw [hlen, htake]⟩
  have hle := h.le
  omega

theorem Part.drop (h : Part xs i ys) {n : Nat} (hn : n ≤ ys.length) : Part xs (i + n) (ys.drop n) := by
  have hlen : (ys.drop n).length = ys.length - n := List.length_drop
  have hdrop := drop_slice xs i ys.length n
  rw [h.eq] at hdrop
  refine ⟨?_, by rw [hlen, hdrop]⟩
  have hle := h.le
  omega

/-- Equal stretches are kept. -/
theorem loose_keepSome {n : Nat} (h : Part old i ys) (h' : Part new j ys) (hn : ys.length = n) :
    Loose old new i j (keepSome i j n) (i + n) (j + n) := by
  subst hn
  rw [keepSome]
  split
  · rename_i hzero
    rw [hzero]
    exact ⟨rfl, rfl⟩
  · exact ⟨rfl, rfl, fits_keep h.le h'.le (h.eq.trans h'.eq.symm), rfl, rfl⟩

/-- Stretches without the parts on which they agree at their ends, and these parts. -/
theorem loose_ends {as bs : List String} (h : Part old i as) (h' : Part new j bs) :
    let first := commonStart as bs
    let last := commonEnd (as.drop first) (bs.drop first)
    let as' := (as.drop first).take (as.length - first - last)
    let bs' := (bs.drop first).take (bs.length - first - last)
    Part old (i + first) as' ∧ Part new (j + first) bs' ∧
      as'.length + bs'.length ≤ as.length + bs.length ∧
      ∀ es, Loose old new (i + first) (j + first) es (i + first + as'.length)
          (j + first + bs'.length) →
        Loose old new i j (keepSome i j first ++ es ++
          keepSome (i + first + as'.length) (j + first + bs'.length) last)
          (i + as.length) (j + bs.length) := by
  intro first last as' bs'
  have hfirst : first ≤ as.length := commonStart_le_left as bs
  have hfirst' : first ≤ bs.length := commonStart_le_right as bs
  have hlast : last ≤ as.length - first := by
    simpa using commonEnd_le_left (as.drop first) (bs.drop first)
  have hlast' : last ≤ bs.length - first := by
    simpa using commonEnd_le_right (as.drop first) (bs.drop first)
  have hlen : as'.length = as.length - first - last := by simp [as']
  have hlen' : bs'.length = bs.length - first - last := by simp [bs']
  refine ⟨(h.drop hfirst).take (by simp), (h'.drop hfirst').take (by simp), by omega, ?_⟩
  intro es hes
  have hstart : Loose old new i j (keepSome i j first) (i + first) (j + first) := by
    have htake := h'.take hfirst'
    rw [← take_commonStart as bs] at htake
    exact loose_keepSome (h.take hfirst) htake (List.length_take_of_le hfirst)
  have hend : Loose old new (i + first + as'.length) (j + first + bs'.length)
      (keepSome (i + first + as'.length) (j + first + bs'.length) last)
      (i + as.length) (j + bs.length) := by
    have hpart := (h.drop hfirst).drop (n := as'.length) (by simp [as'])
    have hpart' := (h'.drop hfirst').drop (n := bs'.length) (by simp [bs'])
    have heq := drop_commonEnd (as.drop first) (bs.drop first)
    rw [List.length_drop, List.length_drop] at heq
    rw [hlen] at hpart
    rw [hlen', ← heq] at hpart'
    have hkeep := loose_keepSome hpart hpart' (n := last) (by simp; omega)
    rw [← hlen, ← hlen'] at hkeep
    have hi : i + first + as'.length + last = i + as.length := by omega
    have hj : j + first + bs'.length + last = j + bs.length := by omega
    rwa [hi, hj] at hkeep
  exact loose_append.2 ⟨_, _, loose_append.2 ⟨_, _, hstart, hes⟩, hend⟩

/-- The scripts on both sides of a cut. -/
theorem loose_cut {as bs : List String} {x y : Nat} (hx : x ≤ as.length) (hy : y ≤ bs.length)
    (hbefore : Loose old new i j es (i + (as.take x).length) (j + (bs.take y).length))
    (hafter : Loose old new (i + x) (j + y) fs (i + x + (as.drop x).length)
      (j + y + (bs.drop y).length)) :
    Loose old new i j (es ++ fs) (i + as.length) (j + bs.length) := by
  rw [List.length_take_of_le hx, List.length_take_of_le hy] at hbefore
  rw [List.length_drop, List.length_drop, Nat.add_assoc, Nat.add_assoc, Nat.add_sub_cancel' hx,
    Nat.add_sub_cancel' hy] at hafter
  exact loose_append.2 ⟨_, _, hbefore, hafter⟩

/-- The script of two stretches is right where it shows lines. -/
theorem loose_scriptFrom (budget : Nat) {as bs : List String} (fs : Frontiers)
    (h : Part old i as) (h' : Part new j bs) (hbudget : as.length + bs.length < budget) :
    Loose old new i j (scriptFrom budget i j as bs fs).1 (i + as.length) (j + bs.length) := by
  induction budget generalizing i j as bs fs with
  | zero => omega
  | succ budget ih =>
      have hends := loose_ends h h'
      rw [scriptFrom]
      dsimp only at hends ⊢
      -- All that matters of the middle is that it is a stretch of both lists.
      generalize commonStart as bs = first at hends ⊢
      generalize commonEnd (as.drop first) (bs.drop first) = last at hends ⊢
      generalize (as.drop first).take (as.length - first - last) = as' at hends ⊢
      generalize (bs.drop first).take (bs.length - first - last) = bs' at hends ⊢
      obtain ⟨hold, hnew, hle, hends⟩ := hends
      split
      · rename_i hempty
        simp only [Bool.and_eq_true, List.isEmpty_iff] at hempty
        obtain ⟨rfl, rfl⟩ := hempty
        simpa using hends [] ⟨rfl, rfl⟩
      · split
        · rename_i hempty
          obtain rfl := List.isEmpty_iff.1 hempty
          exact hends _ ⟨rfl, hold.le, rfl, rfl⟩
        · split
          · rename_i hempty
            obtain rfl := List.isEmpty_iff.1 hempty
            exact hends _ ⟨rfl, hnew.le, rfl, rfl⟩
          · generalize middle? as' bs' fs = found
            obtain ⟨fs', cut⟩ := found
            dsimp only
            split
            · rename_i x y hcut
              have hproper := (Option.filter_eq_some_iff.1 hcut).2
              simp only [properCut, Bool.and_eq_true, decide_eq_true_eq] at hproper
              obtain ⟨⟨⟨hx, hy⟩, hpos⟩, hlt⟩ := hproper
              have hbefore := ih fs' (hold.take hx) (hnew.take hy) (by
                rw [List.length_take_of_le hx, List.length_take_of_le hy]
                omega)
              rcases hcut₁ : scriptFrom budget (i + first) (j + first) (as'.take x) (bs'.take y) fs'
                with ⟨before, fs₁⟩
              have hafter := ih fs₁ (hold.drop hx) (hnew.drop hy) (by
                rw [List.length_drop, List.length_drop]
                omega)
              rcases hcut₂ : scriptFrom budget (i + first + x) (j + first + y) (as'.drop x)
                (bs'.drop y) fs₁ with ⟨after, fs₂⟩
              rw [hcut₁] at hbefore
              rw [hcut₂] at hafter
              dsimp only
              rw [List.append_assoc _ before after]
              exact hends _ (loose_cut hx hy hbefore hafter)
            · -- No cut was found: all old lines go, and all new lines come.
              exact hends _ ⟨rfl, hold.le, rfl, hnew.le, rfl, rfl⟩

/-- What the cuts leave is right where it shows lines. -/
theorem loose_rawScript (old new : List String) :
    Loose old new 0 0 (rawScript old new) old.length new.length := by
  have h := loose_scriptFrom (old.length + new.length + 1) (.ofLengths old.length new.length)
    (part_self old) (part_self new) (Nat.lt_succ_self _)
  rwa [Nat.zero_add, Nat.zero_add] at h

end Diff

end Upkeep
