/-
**Braces that match.**

A closing brace is matched with the nearest opening brace before it that no earlier closing brace is
matched with; where there is none it is left over.  Whoever only counts how many braces are open, and
never below zero, knows as much: the braces that are open at a place are a stack, from which a closing
brace takes the last, and the count is its height.

Main definitions:

* `Upkeep.Pak.Script.braces` — the braces of a text;
* `Upkeep.Pak.Script.Balanced` — rows of braces that are nested;
* `Upkeep.Pak.Script.partner?`, `Upkeep.Pak.Script.openBefore` — the brace that a closing brace is
  matched with, and the braces that are open at a place;
* `Upkeep.Pak.Script.Level` — what is known from counting.

Main results:

* `Upkeep.Pak.Script.openBefore_opening`, `Upkeep.Pak.Script.openBefore_closing` — the open braces are a
  stack;
* `Upkeep.Pak.Script.level_eq` — counting follows it;
* `Upkeep.Pak.Script.depth_ne_zero_iff`, `Upkeep.Pak.Script.surplus_iff` — **what the count says of
  braces without a partner**;
* `Upkeep.Pak.Script.balanced_iff` — **braces are nested if counting ends at zero and was never below**.
-/

import Mathlib.Data.List.Basic
import Upkeep.Pak.Script

set_option relaxedAutoImplicit false
set_option autoImplicit false

namespace Upkeep

namespace Pak

namespace Script

variable {t : List UInt8} {i j : Nat}

/-! ### Matching -/

/-- Whether a byte is a brace. -/
def isBrace (b : UInt8) : Bool := b == openBrace || b == closeBrace

/-- The braces of a text, in order. -/
def braces (t : List UInt8) : List UInt8 := t.filter isBrace

/-- Rows of braces that are nested. -/
inductive Balanced : List UInt8 → Prop
  | nil : Balanced []
  | nest {a b : List UInt8} : Balanced a → Balanced b → Balanced (openBrace :: (a ++ closeBrace :: b))

/-- The place of the opening brace that the closing brace at a place is matched with: the nearest one
before it that no earlier closing brace is matched with. -/
def partner? (t : List UInt8) (j : Nat) : Option Nat :=
  if t[j]? = some closeBrace then
    ((List.range j).filter fun i =>
      t[i]? = some openBrace ∧ ∀ k : Fin j, partner? t k ≠ some i).getLast?
  else none
termination_by j
decreasing_by all_goals exact Fin.isLt _

/-- The places of the braces that are open in front of a place. -/
def openBefore (t : List UInt8) (j : Nat) : List Nat :=
  (List.range j).filter fun i => t[i]? = some openBrace ∧ ∀ k : Fin j, partner? t k ≠ some i

theorem mem_openBefore : i ∈ openBefore t j ↔
    i < j ∧ t[i]? = some openBrace ∧ ∀ k < j, partner? t k ≠ some i := by
  simp only [openBefore, List.mem_filter, List.mem_range, decide_eq_true_eq, Fin.forall_iff]

theorem nodup_openBefore (t : List UInt8) (j : Nat) : (openBefore t j).Nodup :=
  List.nodup_range.filter _

theorem partner?_closing (h : t[j]? = some closeBrace) :
    partner? t j = (openBefore t j).getLast? := by
  rw [partner?, if_pos h, openBefore]

theorem partner?_of_ne (h : t[j]? ≠ some closeBrace) : partner? t j = none := by
  rw [partner?, if_neg h]

/-- Partners stand before the braces they are matched with. -/
theorem partner?_lt (h : partner? t j = some i) : i < j := by
  by_cases hclose : t[j]? = some closeBrace
  · rw [partner?_closing hclose] at h
    exact (mem_openBefore.1 (List.mem_of_getLast? h)).1
  · rw [partner?_of_ne hclose] at h
    cases h

/-! ### The open braces are a stack -/

/-- What is open behind a place was open in front of it and is not matched there, or stands there. -/
theorem openBefore_succ (t : List UInt8) (j : Nat) :
    openBefore t (j + 1) = (openBefore t j).filter (fun i => partner? t j ≠ some i) ++
      if t[j]? = some openBrace then [j] else [] := by
  have hfree : ∀ k < j + 1, partner? t k ≠ some j := by
    intro k hk h
    have := partner?_lt h
    omega
  rw [openBefore, List.range_succ, List.filter_append, openBefore, List.filter_filter]
  congr 1
  · refine List.filter_congr fun i _ => ?_
    rw [← Bool.decide_and, decide_eq_decide]
    simp only [Fin.forall_iff, Nat.lt_succ_iff_lt_or_eq]
    constructor
    · rintro ⟨hopen, hnone⟩
      exact ⟨hnone j (.inr rfl), hopen, fun k hk => hnone k (.inl hk)⟩
    · rintro ⟨hj, hopen, hnone⟩
      refine ⟨hopen, ?_⟩
      rintro k (hk | rfl)
      · exact hnone k hk
      · exact hj
  · by_cases hopen : t[j]? = some openBrace
    · rw [if_pos hopen, List.filter_cons_of_pos, List.filter_nil]
      simp only [hopen, true_and, Fin.forall_iff, decide_eq_true_eq]
      exact hfree
    · rw [if_neg hopen, List.filter_cons_of_neg, List.filter_nil]
      simp [hopen]

/-- An opening brace is open from then on. -/
theorem openBefore_opening (h : t[j]? = some openBrace) :
    openBefore t (j + 1) = openBefore t j ++ [j] := by
  have hclose : t[j]? ≠ some closeBrace := by rw [h]; decide
  rw [openBefore_succ, partner?_of_ne hclose, if_pos h]
  simp

/-- **A closing brace takes the last of the braces that are open.** -/
theorem openBefore_closing (h : t[j]? = some closeBrace) :
    openBefore t (j + 1) = (openBefore t j).dropLast := by
  have hopen : t[j]? ≠ some openBrace := by rw [h]; decide
  rw [openBefore_succ, partner?_closing h, if_neg hopen, List.append_nil]
  rcases List.eq_nil_or_concat (openBefore t j) with hnil | ⟨init, last, hinit⟩
  · rw [hnil]
    rfl
  · have hnodup := nodup_openBefore t j
    rw [hinit, List.concat_eq_append] at hnodup ⊢
    have hlast : ∀ i ∈ init, last ≠ i := by
      rintro i hi rfl
      exact (List.nodup_append.1 hnodup).2.2 last hi last (List.mem_singleton_self _) rfl
    rw [List.getLast?_concat, List.dropLast_concat, List.filter_append,
      List.filter_eq_self.2 fun i hi => by simpa using hlast i hi,
      List.filter_cons_of_neg (by simp), List.filter_nil, List.append_nil]

/-- What is no brace leaves the open braces alone. -/
theorem openBefore_other (hopen : t[j]? ≠ some openBrace) (hclose : t[j]? ≠ some closeBrace) :
    openBefore t (j + 1) = openBefore t j := by
  rw [openBefore_succ, partner?_of_ne hclose, if_neg hopen]
  simp

/-! ### Counting -/

/-- What is known from counting: how many braces are open, and whether one was closed that was not. -/
structure Level where
  depth : Nat
  surplus : Bool
deriving DecidableEq, Repr

namespace Level

/-- Nothing is open. -/
def zero : Level := ⟨0, false⟩

/-- The level behind a brace. -/
def step (l : Level) (b : UInt8) : Level :=
  if b = openBrace then ⟨l.depth + 1, l.surplus⟩
  else if l.depth = 0 then ⟨0, true⟩ else ⟨l.depth - 1, l.surplus⟩

theorem step_opening (l : Level) : l.step openBrace = ⟨l.depth + 1, l.surplus⟩ := rfl

theorem step_closing (l : Level) : l.step closeBrace =
    if l.depth = 0 then ⟨0, true⟩ else ⟨l.depth - 1, l.surplus⟩ := rfl

/-- What was closed too often stays so. -/
theorem surplus_foldl (bs : List UInt8) (d : Nat) : (bs.foldl step ⟨d, true⟩).surplus = true := by
  induction bs generalizing d with
  | nil => rfl
  | cons b bs ih =>
      rw [List.foldl_cons, step]
      split
      · exact ih _
      · split
        · exact ih _
        · exact ih _

end Level

/-- The level in front of a place. -/
def level (t : List UInt8) (j : Nat) : Level := (braces (t.take j)).foldl Level.step .zero

theorem level_succ (t : List UInt8) (j : Nat) :
    level t (j + 1) = (braces t[j]?.toList).foldl Level.step (level t j) := by
  rw [level, List.take_add_one, braces, List.filter_append, List.foldl_append]
  rfl

/-- **Counting follows the stack of open braces**, and notes when a closing brace finds none. -/
theorem level_eq (t : List UInt8) (j : Nat) :
    (level t j).depth = (openBefore t j).length ∧
      ((level t j).surplus = true ↔ ∃ k < j, t[k]? = some closeBrace ∧ partner? t k = none) := by
  induction j with
  | zero => simp [level, braces, openBefore, Level.zero]
  | succ j ih =>
      obtain ⟨hdepth, hsurplus⟩ := ih
      have hexists : (∃ k < j + 1, t[k]? = some closeBrace ∧ partner? t k = none) ↔
          (∃ k < j, t[k]? = some closeBrace ∧ partner? t k = none) ∨
            t[j]? = some closeBrace ∧ partner? t j = none := by
        simp only [Nat.lt_succ_iff_lt_or_eq, or_and_right, exists_or, exists_eq_left]
      rw [level_succ, hexists, ← hsurplus]
      by_cases hopen : t[j]? = some openBrace
      · rw [hopen, openBefore_opening hopen, List.length_append, ← hdepth]
        exact ⟨rfl, (or_iff_left (by rintro ⟨h, -⟩; cases h)).symm⟩
      · by_cases hclose : t[j]? = some closeBrace
        · rw [partner?_closing hclose, openBefore_closing hclose, List.length_dropLast, ← hdepth,
            List.getLast?_eq_none_iff, ← List.length_eq_zero_iff, ← hdepth, hclose]
          have hone : (braces (some closeBrace).toList).foldl Level.step (level t j) =
              (level t j).step closeBrace := rfl
          rw [hone, Level.step_closing]
          split
          · rename_i hzero
            simp [hzero]
          · rename_i hzero
            simp [hzero]
        · have hnone : braces t[j]?.toList = [] := by
            cases hb : t[j]? with
            | none => rfl
            | some b =>
                rw [hb, Option.some.injEq] at hopen hclose
                simp [braces, isBrace, hopen, hclose]
          rw [hnone, openBefore_other hopen hclose]
          exact ⟨hdepth, (or_iff_left fun h => hclose h.1).symm⟩

theorem level_length (t : List UInt8) :
    level t t.length = (braces t).foldl Level.step .zero := by rw [level, List.take_length]

/-- **Braces are open at the end when some opening brace is no partner.** -/
theorem depth_ne_zero_iff : ((braces t).foldl Level.step .zero).depth ≠ 0 ↔
    ∃ i, t[i]? = some openBrace ∧ ∀ j, partner? t j ≠ some i := by
  rw [← level_length, (level_eq t t.length).1, Ne, List.length_eq_zero_iff,
    List.eq_nil_iff_forall_not_mem, not_forall_not]
  constructor
  · rintro ⟨i, hi⟩
    obtain ⟨-, hopen, hfree⟩ := mem_openBefore.1 hi
    refine ⟨i, hopen, fun j => ?_⟩
    by_cases hj : j < t.length
    · exact hfree j hj
    · rw [partner?_of_ne (by simp [List.getElem?_eq_none (Nat.le_of_not_lt hj)])]
      exact (Option.some_ne_none i).symm
  · rintro ⟨i, hopen, hfree⟩
    obtain ⟨hi, -⟩ := List.getElem?_eq_some_iff.1 hopen
    exact ⟨i, mem_openBefore.2 ⟨hi, hopen, fun j _ => hfree j⟩⟩

/-- **A brace was closed that was not open when some closing brace has no partner.** -/
theorem surplus_iff : ((braces t).foldl Level.step .zero).surplus = true ↔
    ∃ j, t[j]? = some closeBrace ∧ partner? t j = none := by
  rw [← level_length, (level_eq t t.length).2]
  constructor
  · rintro ⟨j, -, h⟩
    exact ⟨j, h⟩
  · rintro ⟨j, hclose, h⟩
    obtain ⟨hj, -⟩ := List.getElem?_eq_some_iff.1 hclose
    exact ⟨j, hj, hclose, h⟩

/-! ### Nesting -/

/-- Nested braces leave the level as it was. -/
theorem Balanced.foldl_step {bs : List UInt8} (h : Balanced bs) (l : Level) :
    bs.foldl Level.step l = l := by
  induction h generalizing l with
  | nil => rfl
  | nest _ _ iha ihb =>
      rw [List.foldl_cons, List.foldl_append, iha, List.foldl_cons, ihb, Level.step_opening,
        Level.step_closing, if_neg (Nat.succ_ne_zero _)]
      rfl

/-- A pair of braces fits in anywhere. -/
theorem Balanced.insert {a b : List UInt8} (h : Balanced (a ++ b)) :
    Balanced (a ++ openBrace :: closeBrace :: b) := by
  generalize hbs : a ++ b = bs at h
  induction h generalizing a b with
  | nil =>
      obtain ⟨rfl, rfl⟩ := List.append_eq_nil_iff.1 hbs
      exact .nest .nil .nil
  | @nest c d hc hd ihc ihd =>
      cases a with
      | nil =>
          rw [List.nil_append] at hbs
          rw [hbs]
          exact .nest .nil (.nest hc hd)
      | cons x a =>
          obtain ⟨rfl, htail⟩ := List.cons.inj hbs
          rcases List.append_eq_append_iff.1 htail with ⟨c', rfl, hb⟩ | ⟨d', rfl, hb⟩
          · -- The pair goes between the braces, where `c` is cut into `a` and `c'`.
            have := Balanced.nest (ihc rfl) hd
            rw [hb]
            simpa using this
          · cases d' with
            | nil =>
                rw [List.nil_append] at hb
                have := Balanced.nest (ihc (List.append_nil c)) hd
                rw [← hb]
                simpa using this
            | cons y d' =>
                obtain ⟨rfl, rfl⟩ := List.cons.inj hb
                have := Balanced.nest hc (ihd rfl)
                simpa using this

/-- Braces that close what is open, and are nested otherwise. -/
theorem balanced_of_foldl_step {bs : List UInt8} (hbs : ∀ b ∈ bs, isBrace b = true) {d : Nat}
    (h : bs.foldl Level.step ⟨d, false⟩ = .zero) : Balanced (List.replicate d openBrace ++ bs) := by
  induction bs generalizing d with
  | nil =>
      cases h
      exact .nil
  | cons b bs ih =>
      obtain ⟨hb, hrest⟩ := List.forall_mem_cons.1 hbs
      rw [isBrace, Bool.or_eq_true, beq_iff_eq, beq_iff_eq] at hb
      rw [List.foldl_cons] at h
      rcases hb with rfl | rfl
      · have := ih hrest h
        rwa [List.replicate_succ', List.append_assoc] at this
      · rw [Level.step_closing] at h
        cases d with
        | zero =>
            have := Level.surplus_foldl bs 0
            rw [if_pos rfl] at h
            rw [h] at this
            cases this
        | succ d =>
            rw [if_neg (Nat.succ_ne_zero d)] at h
            have := (ih hrest h).insert
            rwa [List.replicate_succ', List.append_assoc]

/-- **Braces are nested if counting ends at zero and was never below.** -/
theorem balanced_iff : Balanced (braces t) ↔ (braces t).foldl Level.step .zero = .zero := by
  refine ⟨fun h => h.foldl_step _, fun h => ?_⟩
  exact balanced_of_foldl_step (fun b hb => (List.mem_filter.1 hb).2) h

end Script

end Pak

end Upkeep
