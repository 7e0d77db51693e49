/-
**Edit scripts.**

An edit script says how one list of lines becomes another: its edits follow each other without a gap
on both sides, and what is kept is equal on both sides.  The relation behind it speaks of places in
both lists at once, so that parts of a script can be taken apart and put together: edits lead from a
place in the old list and a place in the new list to a later pair of places.

Trimming the kept ends of a script moves the pair at its start forward and the pair at its end back,
and what is left out on the way is equal on both sides.

Main definitions:

* `Upkeep.Diff.Edit.Fits` — an edit that fits two lists;
* `Upkeep.Diff.Leads`, `Upkeep.Diff.IsScript` — edits without gaps, and edit scripts.

Main results:

* `Upkeep.Diff.Leads.append`, `Upkeep.Diff.Leads.head`, `Upkeep.Diff.Leads.last` — parts of a script;
* `Upkeep.Diff.trimFirst_leads`, `Upkeep.Diff.trimLast_leads` — **trimming takes equal lines off the
  ends**.
-/

import Upkeep.Diff.Compact
import Upkeep.Diff.Group

set_option relaxedAutoImplicit false
set_option autoImplicit false

namespace Upkeep

namespace Diff

variable {old new : List String}

/-! ### Edit scripts -/

/-- An edit that fits two lists: its stretches lie inside them, and what it keeps is equal on both
sides. -/
structure Edit.Fits (old new : List String) (e : Edit) : Prop where
  oldEnd_le : e.oldEnd ≤ old.length
  newEnd_le : e.newEnd ≤ new.length
  kept : e.keeps = true → e.oldLines old = e.newLines new

instance (old new : List String) (e : Edit) : Decidable (e.Fits old new) :=
  decidable_of_iff (e.oldEnd ≤ old.length ∧ e.newEnd ≤ new.length ∧
      (e.keeps = true → e.oldLines old = e.newLines new))
    ⟨fun h => ⟨h.1, h.2.1, h.2.2⟩, fun h => ⟨h.1, h.2, h.3⟩⟩

/-- The edits lead from one pair of places to another: each fits and begins where the one before it
ends. -/
def Leads (old new : List String) : Nat → Nat → List Edit → Nat → Nat → Prop
  | i, j, [], i', j' => i = i' ∧ j = j'
  | i, j, e :: es, i', j' =>
    e.oldStart = i ∧ e.newStart = j ∧ e.Fits old new ∧ Leads old new e.oldEnd e.newEnd es i' j'

instance decidableLeads (old new : List String) : (i j : Nat) → (es : List Edit) → (i' j' : Nat) →
    Decidable (Leads old new i j es i' j')
  | i, j, [], i', j' => inferInstanceAs (Decidable (i = i' ∧ j = j'))
  | i, j, e :: es, i', j' =>
    have := decidableLeads old new e.oldEnd e.newEnd es i' j'
    inferInstanceAs (Decidable (e.oldStart = i ∧ e.newStart = j ∧ e.Fits old new ∧
      Leads old new e.oldEnd e.newEnd es i' j'))

/-- The edits are a script that turns `old` into `new`. -/
def IsScript (old new : List String) (es : List Edit) : Prop :=
  Leads old new 0 0 es old.length new.length

instance (old new : List String) (es : List Edit) : Decidable (IsScript old new es) :=
  inferInstanceAs (Decidable (Leads old new 0 0 es old.length new.length))

@[simp] theorem leads_nil {i j i' j' : Nat} : Leads old new i j [] i' j' ↔ i = i' ∧ j = j' := Iff.rfl

@[simp] theorem leads_cons {i j i' j' : Nat} {e : Edit} {es : List Edit} :
    Leads old new i j (e :: es) i' j' ↔ e.oldStart = i ∧ e.newStart = j ∧ e.Fits old new ∧
      Leads old new e.oldEnd e.newEnd es i' j' := Iff.rfl

/-- Edits that lead on from where others end. -/
theorem Leads.append {i j k l i' j' : Nat} {es fs : List Edit} (h : Leads old new i j es k l)
    (h' : Leads old new k l fs i' j') : Leads old new i j (es ++ fs) i' j' := by
  induction es generalizing i j with
  | nil =>
      obtain ⟨rfl, rfl⟩ := leads_nil.1 h
      exact h'
  | cons e es ih =>
      obtain ⟨hi, hj, hf, h⟩ := leads_cons.1 h
      exact leads_cons.2 ⟨hi, hj, hf, ih h⟩

/-- Edits lead forward. -/
theorem Leads.le {i j i' j' : Nat} {es : List Edit} (h : Leads old new i j es i' j') :
    i ≤ i' ∧ j ≤ j' := by
  induction es generalizing i j with
  | nil =>
      obtain ⟨rfl, rfl⟩ := leads_nil.1 h
      exact ⟨Nat.le_refl _, Nat.le_refl _⟩
  | cons e es ih =>
      obtain ⟨rfl, rfl, -, h⟩ := leads_cons.1 h
      obtain ⟨hi, hj⟩ := ih h
      simp only [Edit.oldEnd, Edit.newEnd] at hi hj
      exact ⟨by omega, by omega⟩

/-- Edits lead no farther than the ends of the lists. -/
theorem Leads.le_length {i j i' j' : Nat} {es : List Edit} (h : Leads old new i j es i' j')
    (hi : i ≤ old.length) (hj : j ≤ new.length) : i' ≤ old.length ∧ j' ≤ new.length := by
  induction es generalizing i j with
  | nil =>
      obtain ⟨rfl, rfl⟩ := leads_nil.1 h
      exact ⟨hi, hj⟩
  | cons e es ih =>
      obtain ⟨-, -, hf, h⟩ := leads_cons.1 h
      exact ih h hf.oldEnd_le hf.newEnd_le

/-- Where the first edit begins. -/
theorem Leads.head {i j i' j' : Nat} {e : Edit} {es : List Edit}
    (h : Leads old new i j es i' j') (he : es.head? = some e) : e.oldStart = i ∧ e.newStart = j := by
  cases es with
  | nil => simp at he
  | cons a es =>
      obtain rfl : a = e := by simpa using he
      obtain ⟨hi, hj, -, -⟩ := leads_cons.1 h
      exact ⟨hi, hj⟩

/-- Where the last edit ends. -/
theorem Leads.last {i j i' j' : Nat} {e : Edit} {es : List Edit}
    (h : Leads old new i j es i' j') (he : es.getLast? = some e) : e.oldEnd = i' ∧ e.newEnd = j' := by
  induction es generalizing i j with
  | nil => simp at he
  | cons a es ih =>
      obtain ⟨-, -, -, h⟩ := leads_cons.1 h
      cases es with
      | nil =>
          obtain rfl : a = e := by simpa using he
          exact leads_nil.1 h
      | cons b es => exact ih h (by simpa using he)

/-! ### Kept lines -/

/-- A part of a stretch of lines that is equal on both sides is equal on both sides. -/
theorem slice_congr {i j n d m : Nat} (h : slice old i n = slice new j n) (hm : d + m ≤ n) :
    slice old (i + d) m = slice new (j + d) m := by
  rw [← slice_slice hm, ← slice_slice hm, h]

/-- Lines that are equal on both sides before ends that are equal make longer equal ends. -/
theorem drop_congr {i j n : Nat} (h : slice old i n = slice new j n)
    (hd : old.drop (i + n) = new.drop (j + n)) : old.drop i = new.drop j := by
  rw [← slice_append_drop old i n, ← slice_append_drop new j n, h, hd]

theorem Edit.Fits.of_keep {i j n : Nat} (h : (Edit.keep i j n).Fits old new) :
    i + n ≤ old.length ∧ j + n ≤ new.length ∧ slice old i n = slice new j n :=
  ⟨h.oldEnd_le, h.newEnd_le, h.kept rfl⟩

/-- A part of kept lines can be kept on its own. -/
theorem Edit.Fits.keep_part {i j n d m : Nat} (h : (Edit.keep i j n).Fits old new)
    (hm : d + m ≤ n) : (Edit.keep (i + d) (j + d) m).Fits old new := by
  obtain ⟨hi, hj, hs⟩ := h.of_keep
  exact ⟨by simp only [Edit.oldEnd_keep]; omega, by simp only [Edit.newEnd_keep]; omega,
    fun _ => slice_congr hs hm⟩

/-! ### Trimming -/

/-- Trimming the start takes equal lines off both lists. -/
theorem trimFirst_leads {i j i' j' : Nat} {es : List Edit} (context : Nat)
    (h : Leads old new i j es i' j') :
    ∃ d, slice old i d = slice new j d ∧ (i + d ≤ old.length ∧ j + d ≤ new.length ∨ d = 0) ∧
      Leads old new (i + d) (j + d) (trimFirst context es) i' j' := by
  unfold trimFirst
  split
  · rename_i a b n es
    obtain ⟨rfl, rfl, hf, h⟩ := leads_cons.1 h
    obtain ⟨hi, hj, hs⟩ := hf.of_keep
    refine ⟨n - context, ?_, .inl ?_, ?_⟩
    · simpa using slice_congr (d := 0) (m := n - context) hs (by omega)
    · simp only [Edit.oldStart_keep, Edit.newStart_keep]
      omega
    · have hl : a + (n - context) + (n - (n - context)) = a + n := by omega
      have hr : b + (n - context) + (n - (n - context)) = b + n := by omega
      refine leads_cons.2 ⟨rfl, rfl, hf.keep_part (by omega), ?_⟩
      simpa [hl, hr] using h
  · exact ⟨0, by simp, .inr rfl, by simpa using h⟩

/-- Trimming the end takes equal lines off both lists. -/
theorem trimLast_leads {i j i' j' : Nat} {es : List Edit} (context : Nat)
    (h : Leads old new i j es i' j') (hd : old.drop i' = new.drop j') :
    ∃ k l, Leads old new i j (trimLast context es) k l ∧ old.drop k = new.drop l := by
  fun_induction trimLast context es generalizing i j with
  | case1 => exact ⟨i', j', h, hd⟩
  | case2 a b n =>
      obtain ⟨rfl, rfl, hf, h⟩ := leads_cons.1 h
      obtain ⟨rfl, rfl⟩ := leads_nil.1 h
      refine ⟨a + min n context, b + min n context,
        leads_cons.2 ⟨rfl, rfl, ?_, leads_nil.2 ⟨rfl, rfl⟩⟩, ?_⟩
      · simpa using hf.keep_part (d := 0) (m := min n context) (by omega)
      · have hs := slice_congr (d := min n context) (m := n - min n context) hf.of_keep.2.2
          (by omega)
        have hn : min n context + (n - min n context) = n := by omega
        refine drop_congr hs ?_
        rw [Nat.add_assoc, Nat.add_assoc, hn]
        exact hd
  | case3 e => exact ⟨i', j', h, hd⟩
  | case4 e e' es ih =>
      obtain ⟨hi, hj, hf, h⟩ := leads_cons.1 h
      obtain ⟨k, l, h', hd'⟩ := ih h
      exact ⟨k, l, leads_cons.2 ⟨hi, hj, hf, h'⟩, hd'⟩

end Diff

end Upkeep
