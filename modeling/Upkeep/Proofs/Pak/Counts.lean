/-
**Counts of texts.**

Counts that are built by adding one text at a time have each text once, with a number that is not
zero: how often it was added.

Main definitions:

* `Upkeep.Pak.Counts.Proper` — counts in order, with no number zero.

Main results:

* `Upkeep.Pak.Counts.Proper.of_add` — one more of a text changes its number alone;
* `Upkeep.Pak.Counts.mem_foldl_add` — **what is counted is how often each text was added**.
-/

import Mathlib.Data.List.Count
import Upkeep.Pak.Entities
import Upkeep.Proofs.Data.Ordered

set_option relaxedAutoImplicit false
set_option autoImplicit false

namespace Upkeep

namespace Pak

namespace Counts

variable {c : Counts} {name w : String}

/-- Counts in order, in which nothing is counted zero times. -/
abbrev Proper (c : Counts) : Prop := Data.Sparse compare 0 c

@[simp] theorem of_nil (w : String) : Counts.of [] w = 0 := rfl

namespace Proper

/-- The texts with their numbers are those that have a number. -/
theorem mem_iff (h : c.Proper) {n : Nat} : (w, n) ∈ c ↔ 0 < n ∧ n = c.of w := by
  rw [Data.Sparse.mem_iff h, Nat.pos_iff_ne_zero]
  rfl

theorem add (h : c.Proper) (name : String) : (c.add name).Proper := by
  have hsucc : ∀ n, n + 1 ≠ 0 := Nat.succ_ne_zero
  exact h.upsertBy hsucc name

/-- **One more of a text changes its number alone.** -/
theorem of_add (h : c.Proper) (name w : String) :
    (c.add name).of w = c.of w + if name = w then 1 else 0 := by
  rw [of, Counts.add, h.getD_upsertBy w name (· + 1), of]
  split
  · rfl
  · rfl

theorem foldl_add (h : c.Proper) (names : List String) : (names.foldl Counts.add c).Proper := by
  induction names generalizing c with
  | nil => exact h
  | cons name names ih => exact ih (h.add name)

theorem of_foldl_add (h : c.Proper) (names : List String) (w : String) :
    (names.foldl Counts.add c).of w = c.of w + names.count w := by
  induction names generalizing c with
  | nil => rfl
  | cons name names ih =>
      rw [List.foldl_cons, ih (h.add name), h.of_add, List.count_cons]
      simp only [beq_iff_eq]
      omega

end Proper

/-- **What is counted is how often each text was added.** -/
theorem mem_foldl_add {names : List String} {n : Nat} :
    (w, n) ∈ names.foldl Counts.add [] ↔ 0 < n ∧ n = names.count w := by
  rw [(Proper.foldl_add .nil names).mem_iff, Proper.of_foldl_add .nil, of_nil, Nat.zero_add]

end Counts

end Pak

end Upkeep
