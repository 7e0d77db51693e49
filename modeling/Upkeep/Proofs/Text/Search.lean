/-
**The first place of a part.**

The search for a part of a text goes from the left and stops where the part stands.  So it finds the
first place, and finds none only if the part stands nowhere.

Main definitions:

* `Upkeep.Text.FirstAt` — the two sides of the first place where a list stands in another.

Main results:

* `Upkeep.Text.occursIn_iff` — a part is noticed where it stands;
* `Upkeep.Text.splitOnce?_eq_some_iff`, `Upkeep.Text.splitOnce?_eq_none_iff` — **what is found** when a
  text is split at a part;
* `Upkeep.Text.splitLast?_singleton_eq_some_iff` — the same at the last place of a single member.
-/

import Upkeep.Text.Search

set_option relaxedAutoImplicit false
set_option autoImplicit false

namespace Upkeep

namespace Text

variable {α : Type} {p s before rest : List α}

/-- The two sides of the first place where `p` stands in `s`. -/
structure FirstAt (p s before rest : List α) : Prop where
  eq : s = before ++ p ++ rest
  first : ∀ a b, s = a ++ p ++ b → before.length ≤ a.length

/-- There is one first place. -/
theorem FirstAt.unique {before' rest' : List α} (h : FirstAt p s before rest)
    (h' : FirstAt p s before' rest') : before = before' ∧ rest = rest' := by
  have hlength : before.length = before'.length :=
    Nat.le_antisymm (h.first _ _ h'.eq) (h'.first _ _ h.eq)
  have heq := h.eq.symm.trans h'.eq
  rw [List.append_assoc, List.append_assoc] at heq
  obtain ⟨rfl, heq⟩ := List.append_inj heq hlength
  exact ⟨rfl, List.append_cancel_left (List.append_cancel_left heq)⟩

/-- A single member stands first where it was not met before. -/
theorem firstAt_singleton_iff {x : α} : FirstAt [x] s before rest ↔ s = before ++ x :: rest ∧ x ∉ before := by
  constructor
  · rintro ⟨rfl, hfirst⟩
    refine ⟨by simp, fun hx => ?_⟩
    obtain ⟨a, b, rfl⟩ := List.append_of_mem hx
    have hlength := hfirst a (b ++ [x] ++ rest) (by simp)
    simp only [List.length_append, List.length_cons] at hlength
    omega
  · rintro ⟨rfl, hx⟩
    refine ⟨by simp, fun a b hab => Nat.le_of_not_lt fun hlt => ?_⟩
    -- What stands in front would hold the member at an earlier place.
    have hmem : (before ++ x :: rest)[a.length]? = some x := by
      rw [hab, List.append_assoc, List.getElem?_append_right (Nat.le_refl _), Nat.sub_self]
      rfl
    rw [List.getElem?_append_left hlt] at hmem
    exact hx (List.mem_of_getElem? hmem)

variable [BEq α] [LawfulBEq α]

theorem occursIn_iff : occursIn p s = true ↔ p <:+: s := by
  induction s with
  | nil => simp [occursIn]
  | cons c s ih =>
      rw [occursIn, Bool.or_eq_true, ih, List.isPrefixOf_iff_prefix, List.infix_cons_iff]

theorem firstAt_cons {c : α} (hnone : stripPrefix? p (c :: s) = none) (h : FirstAt p s before rest) :
    FirstAt p (c :: s) (c :: before) rest := by
  refine ⟨by rw [h.eq]; rfl, ?_⟩
  intro a b hab
  cases a with
  | nil =>
      rw [List.nil_append] at hab
      rw [hab, stripPrefix?_append] at hnone
      cases hnone
  | cons d a =>
      have hs := (List.cons.inj hab).2
      exact Nat.succ_le_succ (h.first a b hs)

/-- What is found behind the characters that were passed. -/
theorem splitOnceAfter_spec (p passed s : List α) :
    (∃ before rest, splitOnceAfter p passed s = some (passed.reverse ++ before, rest) ∧
      FirstAt p s before rest) ∨ (splitOnceAfter p passed s = none ∧ ¬p <:+: s) := by
  induction s generalizing passed with
  | nil =>
      rw [splitOnceAfter]
      cases p with
      | nil => exact .inl ⟨[], [], by simp, rfl, fun _ _ _ => Nat.zero_le _⟩
      | cons a p => exact .inr ⟨rfl, by simp⟩
  | cons c s ih =>
      rw [splitOnceAfter]
      cases hprefix : stripPrefix? p (c :: s) with
      | some rest =>
          exact .inl ⟨[], rest, by simp, eq_append_of_stripPrefix? hprefix, fun _ _ _ => Nat.zero_le _⟩
      | none =>
          rcases ih (c :: passed) with ⟨before, rest, heq, hfirst⟩ | ⟨heq, hnot⟩
          · refine .inl ⟨c :: before, rest, ?_, firstAt_cons hprefix hfirst⟩
            simpa using heq
          · refine .inr ⟨heq, ?_⟩
            intro hinfix
            rcases List.infix_cons_iff.1 hinfix with ⟨t, ht⟩ | hinfix
            · rw [← ht, stripPrefix?_append] at hprefix
              cases hprefix
            · exact hnot hinfix

/-- **The first place is found.** -/
theorem splitOnce?_eq_some_iff : splitOnce? p s = some (before, rest) ↔ FirstAt p s before rest := by
  rcases splitOnceAfter_spec p [] s with ⟨before', rest', heq, hfirst⟩ | ⟨hnone, hnot⟩
  · rw [splitOnce?, heq, Option.some.injEq, Prod.mk.injEq, List.reverse_nil, List.nil_append]
    constructor
    · rintro ⟨rfl, rfl⟩
      exact hfirst
    · exact hfirst.unique
  · rw [splitOnce?, hnone]
    constructor
    · intro h
      cases h
    · intro h
      exact absurd ⟨before, rest, h.eq.symm⟩ hnot

/-- The last place of a single member is found. -/
theorem splitLast?_singleton_eq_some_iff {x : α} :
    splitLast? [x] s = some (before, rest) ↔ s = before ++ x :: rest ∧ x ∉ rest := by
  rw [splitLast?, Option.map_eq_some_iff]
  constructor
  · rintro ⟨⟨after, front⟩, hsplit, heq⟩
    obtain ⟨rfl, rfl⟩ := Prod.mk.inj heq
    obtain ⟨hs, hx⟩ := firstAt_singleton_iff.1 (splitOnce?_eq_some_iff.1 hsplit)
    rw [List.reverse_eq_iff] at hs
    exact ⟨by simp [hs], by simpa using hx⟩
  · rintro ⟨rfl, hx⟩
    refine ⟨(rest.reverse, before.reverse), splitOnce?_eq_some_iff.2 (firstAt_singleton_iff.2 ?_), by simp⟩
    exact ⟨by simp, by simpa using hx⟩

/-- **A part that stands somewhere is found.** -/
theorem splitOnce?_eq_none_iff : splitOnce? p s = none ↔ ¬p <:+: s := by
  rcases splitOnceAfter_spec p [] s with ⟨before, rest, heq, hfirst⟩ | ⟨hnone, hnot⟩
  · rw [splitOnce?, heq]
    constructor
    · intro h
      cases h
    · intro h
      exact absurd ⟨before, rest, hfirst.eq.symm⟩ h
  · rw [splitOnce?, hnone]
    exact ⟨fun _ => hnot, fun _ => rfl⟩

end Text

end Upkeep
