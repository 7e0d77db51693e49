/-
**Where the stretches of a list stand.**

The separators of a list cut it into stretches, and each of these has a place: the number of members in
front of it.  Stretches that hold the same are told apart by their places, so that they can be counted.

Main definitions:

* `Upkeep.Text.StretchAt` — a stretch between separators, or an end of the list, at its place;
* `Upkeep.Text.placed` — stretches with their places.

Main results:

* `Upkeep.Text.mem_placed_segments` — **the stretches of a list are found, each at its place**;
* `Upkeep.Text.pairwise_placed` — no two of them stand at one place;
* `Upkeep.Text.infix_iff_exists_segment` — what has no separator stands in one of the stretches.
-/

import Upkeep.Proofs.Text.ByteLines

set_option relaxedAutoImplicit false
set_option autoImplicit false

namespace Upkeep

namespace Text

variable {α : Type} {isSep : α → Bool} {s seg : List α} {segs segs' : List (List α)} {k o : Nat}

/-! ### Places -/

/-- A stretch without separators stands behind `offset` members, and what is next to it on either side
is a separator. -/
def StretchAt (isSep : α → Bool) (s : List α) (offset : Nat) (seg : List α) : Prop :=
  ∃ before after, s = before ++ seg ++ after ∧ offset = before.length ∧ (∀ x ∈ seg, isSep x = false) ∧
    (∀ x ∈ before.getLast?, isSep x = true) ∧ ∀ x ∈ after.head?, isSep x = true

theorem StretchAt.not_isSep (h : StretchAt isSep s k seg) : ∀ x ∈ seg, isSep x = false := by
  obtain ⟨before, after, -, -, hseg, -, -⟩ := h
  exact hseg

theorem stretchAt_self (hs : ∀ x ∈ s, isSep x = false) : StretchAt isSep s 0 s :=
  ⟨[], [], by simp, rfl, hs, by simp, by simp⟩

/-- The first stretch ends at the first separator. -/
theorem stretchAt_first {c : α} (hs : ∀ x ∈ s, isSep x = false) (hc : isSep c = true) (t : List α) :
    StretchAt isSep (s ++ c :: t) 0 s :=
  ⟨[], c :: t, by simp, rfl, hs, by simp, by simpa using hc⟩

/-- A stretch stays one with more in front of it, if a separator stands between. -/
theorem StretchAt.behind {c : α} (h : StretchAt isSep s k seg) (hc : isSep c = true) (a : List α) :
    StretchAt isSep (a ++ c :: s) (a.length + 1 + k) seg := by
  obtain ⟨before, after, rfl, rfl, hseg, hbefore, hafter⟩ := h
  refine ⟨a ++ c :: before, after, by simp, by simp; omega, hseg, ?_, hafter⟩
  intro x hx
  rw [List.getLast?_append, List.getLast?_cons] at hx
  cases hlast : before.getLast? with
  | none => simp_all
  | some y => simp_all

/-- Stretches with their places, if the first of them stands behind `o` members, and one separator
behind each. -/
def placed (o : Nat) : List (List α) → List (Nat × List α)
  | [] => []
  | seg :: rest => (o, seg) :: placed (o + seg.length + 1) rest

@[simp] theorem map_snd_placed (o : Nat) (segs : List (List α)) : (placed o segs).map Prod.snd = segs := by
  induction segs generalizing o with
  | nil => rfl
  | cons seg segs ih => rw [placed, List.map_cons, ih]

theorem le_of_mem_placed {e : Nat × List α} (h : e ∈ placed o segs) : o ≤ e.1 := by
  induction segs generalizing o with
  | nil => cases h
  | cons seg segs ih =>
      rcases List.mem_cons.1 h with rfl | h
      · exact Nat.le_refl _
      · have hle := ih h
        omega

/-- No two stretches stand at one place. -/
theorem pairwise_placed (o : Nat) (segs : List (List α)) :
    (placed o segs).Pairwise fun a b => a.1 < b.1 := by
  induction segs generalizing o with
  | nil => exact .nil
  | cons seg segs ih =>
      refine List.pairwise_cons.2 ⟨fun e he => ?_, ih _⟩
      have hle := le_of_mem_placed he
      show o < e.1
      omega

/-- How far some stretches reach, with the separators behind them. -/
def reach : List (List α) → Nat
  | [] => 0
  | seg :: rest => seg.length + 1 + reach rest

theorem placed_append (o : Nat) (segs segs' : List (List α)) :
    placed o (segs ++ segs') = placed o segs ++ placed (o + reach segs) segs' := by
  induction segs generalizing o with
  | nil => rfl
  | cons seg segs ih =>
      rw [List.cons_append, placed, placed, ih, List.cons_append, reach, ← Nat.add_assoc,
        ← Nat.add_assoc]

theorem reach_segments (s : List α) : reach (segments isSep s) = s.length + 1 := by
  induction s using cuts_induction isSep with
  | last s hs => simp [segments_of_not_mem hs, reach]
  | cut a c t ha hc ih =>
      rw [segments_append_sep ha hc, reach, ih, List.length_append, List.length_cons]
      omega

/-- With more in front of them, all stretches stand that much further behind. -/
theorem placed_add (n o : Nat) (segs : List (List α)) :
    placed (n + o) segs = (placed o segs).map fun e => (n + e.1, e.2) := by
  induction segs generalizing o with
  | nil => rfl
  | cons seg segs ih => rw [placed, placed, Nat.add_assoc, Nat.add_assoc, ih, ← Nat.add_assoc, List.map_cons]

/-- **The stretches of a list are found, each at its place.** -/
theorem mem_placed_segments :
    (k, seg) ∈ placed 0 (segments isSep s) ↔ StretchAt isSep s k seg := by
  constructor
  · induction s using cuts_induction isSep generalizing k with
    | last s hs =>
        intro h
        rw [segments_of_not_mem hs] at h
        obtain ⟨rfl, rfl⟩ := Prod.mk.inj (List.mem_singleton.1 h)
        exact stretchAt_self hs
    | cut a c t ha hc ih =>
        intro h
        rw [segments_append_sep ha hc, placed, Nat.zero_add] at h
        rcases List.mem_cons.1 h with h | h
        · obtain ⟨rfl, rfl⟩ := Prod.mk.inj h
          exact stretchAt_first ha hc t
        · rw [← Nat.add_zero (a.length + 1), placed_add] at h
          obtain ⟨⟨j, seg'⟩, hj, he⟩ := List.mem_map.1 h
          obtain ⟨rfl, rfl⟩ := Prod.mk.inj he
          exact (ih hj).behind hc a
  · rintro ⟨before, after, rfl, rfl, hseg, hbefore, hafter⟩
    have hfirst : ∃ rest, segments isSep (seg ++ after) = seg :: rest := by
      cases after with
      | nil => exact ⟨[], by rw [List.append_nil, segments_of_not_mem hseg]⟩
      | cons y after => exact ⟨_, segments_append_sep hseg (hafter y rfl) after⟩
    obtain ⟨rest, hrest⟩ := hfirst
    rcases List.eq_nil_or_concat before with rfl | ⟨init, x, rfl⟩
    · rw [List.nil_append, hrest]
      exact List.mem_cons_self
    · have hx : isSep x = true := hbefore x (by simp)
      rw [List.concat_eq_append, List.append_assoc, List.append_assoc, List.singleton_append,
        segments_append hx, placed_append, reach_segments, hrest]
      refine List.mem_append_right _ ?_
      simp [placed]

/-! ### What stands in a stretch -/

theorem infix_append_cons_iff {x a t : List α} {c : α} (hc : c ∉ x) :
    x <:+: a ++ c :: t ↔ x <:+: a ∨ x <:+: t := by
  induction a with
  | nil =>
      have hnil : x <+: c :: t ↔ x <+: [] := prefix_append_cons_iff (y := []) hc
      rw [List.nil_append, List.infix_cons_iff, hnil, List.prefix_nil, List.infix_nil]
  | cons d a ih =>
      have hfirst : x <+: d :: (a ++ c :: t) ↔ x <+: d :: a := prefix_append_cons_iff (y := d :: a) hc
      rw [List.cons_append, List.infix_cons_iff, List.infix_cons_iff, hfirst, ih, or_assoc]

/-- **What has no separator stands in a list exactly if it stands in one of its stretches.** -/
theorem infix_iff_exists_segment {x : List α} (hx : ∀ c ∈ x, isSep c = false) :
    x <:+: s ↔ ∃ seg ∈ segments isSep s, x <:+: seg := by
  induction s using cuts_induction isSep with
  | last s hs => simp [segments_of_not_mem hs]
  | cut a c t ha hc ih =>
      have hnot : c ∉ x := by
        intro hmem
        rw [hx c hmem] at hc
        cases hc
      rw [segments_append_sep ha hc, infix_append_cons_iff hnot, ih]
      simp only [List.mem_cons, exists_eq_or_imp]

end Text

end Upkeep
