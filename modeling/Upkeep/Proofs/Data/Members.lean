/-
**Members of lists by their keys.**

Every member of a list has a key.  The keys in the order in which they come first, each of them with the
members that have it, are all of the list again; and where some members come to nothing, what they came
to is what is missing.

Main results:

* `Upkeep.Data.eraseDups_concat`, `Upkeep.Data.nodup_eraseDups` — lists without repetitions;
* `Upkeep.Data.pairwise_idxOf_eraseDups` — the order of what comes first;
* `Upkeep.Data.perm_flatMap_filter`, `Upkeep.Data.idxOf_of_mem_head?` — the members that have a key;
* `Upkeep.Data.flatMap_perm_append_filter` — members that are lost.
-/

import Mathlib.Data.List.Induction
import Mathlib.Data.List.Perm.Basic

set_option relaxedAutoImplicit false
set_option autoImplicit false

namespace Upkeep

namespace Data

variable {α β : Type}

section Keys

variable [DecidableEq β]

theorem eraseDups_concat (l : List β) (b : β) :
    (l ++ [b]).eraseDups = l.eraseDups ++ if b ∈ l then [] else [b] := by
  rw [List.eraseDups_append]
  split
  · next hb => simp [List.removeAll, hb]
  · next hb => simp [List.removeAll, hb, List.eraseDups_cons]

/-- Without repetitions, members come in the order in which they come first. -/
theorem pairwise_idxOf_eraseDups (l : List β) :
    l.eraseDups.Pairwise fun a b => l.idxOf a < l.idxOf b := by
  induction l using List.reverseRecOn with
  | nil => exact List.Pairwise.nil
  | append_singleton l b ih =>
      have hkeep : ∀ {a : β}, a ∈ l → (l ++ [b]).idxOf a = l.idxOf a := List.idxOf_append_of_mem
      rw [eraseDups_concat, List.pairwise_append]
      refine ⟨ih.imp_of_mem fun ha hc hlt => ?_, by split <;> simp, fun a ha c hc => ?_⟩
      · rwa [hkeep (List.mem_eraseDups.1 ha), hkeep (List.mem_eraseDups.1 hc)]
      · split at hc
        · cases hc
        · next hb =>
            rw [List.mem_singleton.1 hc, hkeep (List.mem_eraseDups.1 ha), List.idxOf_append_of_notMem hb]
            exact Nat.lt_add_right _ (List.idxOf_lt_length_of_mem (List.mem_eraseDups.1 ha))

theorem nodup_eraseDups (l : List β) : l.eraseDups.Nodup :=
  (pairwise_idxOf_eraseDups l).imp fun h hab => absurd h (by rw [hab]; exact Nat.lt_irrefl _)

/-- If every member has one of the keys, all members are found by their keys, each once. -/
theorem perm_flatMap_filter {f : α → β} {keys : List β} (hkeys : keys.Nodup) {l : List α}
    (h : ∀ a ∈ l, f a ∈ keys) : (keys.flatMap fun k => l.filter (f · = k)).Perm l := by
  induction keys generalizing l with
  | nil =>
      rw [List.eq_nil_iff_forall_not_mem.2 fun a ha => List.not_mem_nil (h a ha)]
      exact .refl _
  | cons k keys ih =>
      obtain ⟨hk, hkeys⟩ := List.nodup_cons.1 hkeys
      have hothers : (keys.flatMap fun k' => l.filter (f · = k')) =
          keys.flatMap fun k' => (l.filter fun a => !decide (f a = k)).filter (f · = k') := by
        refine List.flatMap_congr fun k' hk' => ?_
        rw [List.filter_filter]
        refine List.filter_congr fun a _ => ?_
        rw [Bool.and_eq_left_iff_imp.2]
        intro ha
        have hne : f a ≠ k := fun hak => hk (hak ▸ of_decide_eq_true ha ▸ hk')
        simp [hne]
      have hrest : ∀ a ∈ l.filter fun a => !decide (f a = k), f a ∈ keys := by
        intro a ha
        obtain ⟨ha, hne⟩ := List.mem_filter.1 ha
        exact (List.mem_cons.1 (h a ha)).resolve_left (by simpa using hne)
      rw [List.flatMap_cons, hothers]
      exact ((ih hkeys hrest).append_left _).trans (List.filter_append_perm _ l)

/-- The first member with a key comes where the key comes first. -/
theorem idxOf_of_mem_head? [DecidableEq α] {f : α → β} {k : β} {l : List α} {a : α}
    (h : a ∈ (l.filter (f · = k)).head?) : l.idxOf a = (l.map f).idxOf k := by
  induction l with
  | nil => cases h
  | cons b l ih =>
      by_cases hb : f b = k
      · rw [List.filter_cons, if_pos (decide_eq_true hb), List.head?_cons, Option.mem_some_iff] at h
        rw [List.map_cons, hb, List.idxOf_cons_self, h, List.idxOf_cons_self]
      · rw [List.filter_cons, if_neg (by simpa using hb)] at h
        have hkey : f a = k := of_decide_eq_true (List.mem_filter.1 (List.mem_of_mem_head? h)).2
        have hne : b ≠ a := fun hba => hb (hba ▸ hkey)
        rw [List.idxOf_cons_ne _ hne, List.map_cons, List.idxOf_cons_ne _ hb, ih h]

end Keys

/-- Where some members of a list give nothing any more, what they gave is what is missing. -/
theorem flatMap_perm_append_filter {lost : α → Bool} {f g : α → List β}
    (hlost : ∀ a, lost a = true → g a = []) (hkept : ∀ a, lost a = false → g a = f a) (l : List α) :
    (l.flatMap f).Perm (l.flatMap g ++ (l.filter lost).flatMap f) := by
  induction l with
  | nil => exact List.Perm.refl _
  | cons a l ih =>
      rw [List.flatMap_cons, List.flatMap_cons]
      cases ha : lost a with
      | true =>
          rw [List.filter_cons_of_pos ha, List.flatMap_cons, hlost a ha, List.nil_append]
          exact (ih.append_left _).trans (List.perm_append_comm_assoc _ _ _)
      | false =>
          rw [List.filter_cons_of_neg (by simp [ha]), hkept a ha, List.append_assoc]
          exact ih.append_left _

end Data

end Upkeep
