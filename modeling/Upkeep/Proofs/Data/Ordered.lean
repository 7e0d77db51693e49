/-
**Ordered sets and maps behave like sets and maps.**

Main definitions:

* `Upkeep.Data.Ascending` — sets whose members increase;
* `Upkeep.Data.Increasing` — maps whose keys increase;
* `Upkeep.Data.Sparse` — maps in which a key with a certain value is left out.

Main results:

* `Upkeep.Data.pairwise_mergeSort`, `Upkeep.Data.mergeSort_eq_of_perm` — lists that are sorted by an order;
* `Upkeep.Data.Ascending.insertBy`, `Upkeep.Data.exists_mem_insertBy` — an insertion keeps the members
  in order, and the new one is there;
* `Upkeep.Data.map_eq_of_mem_iff` — sets and maps are determined by what their members show;
* `Upkeep.Data.Increasing.upsertBy` — a change of a value keeps the keys in order;
* `Upkeep.Data.Ascending.insertBy_eq_self`, `Upkeep.Data.Ascending.filter_insertBy` — insertions of what
  is there, and insertions before and after a choice;
* `Upkeep.Data.map_fst_upsertBy` — a change of a value inserts its key;
* `Upkeep.Data.lookupBy_upsertBy`, `Upkeep.Data.lookupBy_upsertBy_self`,
  `Upkeep.Data.lookupBy_upsertBy_of_ne` — what is found after a change;
* `Upkeep.Data.lookupBy_filterMap` — what is found among what entries become;
* `Upkeep.Data.lookupBy_eq_some_iff` — what is found is what is there;
* `Upkeep.Data.Sparse.upsertBy`, `Upkeep.Data.Sparse.mem_iff` — changes of sparse maps, and their
  entries.
-/

import Mathlib.Data.List.Sort
import Mathlib.Tactic.Tauto
import Upkeep.Data.Ordered

set_option relaxedAutoImplicit false
set_option autoImplicit false

namespace Upkeep

namespace Data

variable {κ β γ : Type} {order : κ → κ → Ordering}

/-- What is ordered by a part of it is ordered as this part is. -/
theorem transCmp_on {α : Type} [Std.TransCmp order] (f : α → κ) :
    Std.TransCmp fun a b => order (f a) (f b) where
  eq_swap := Std.OrientedCmp.eq_swap
  isLE_trans := Std.TransCmp.isLE_trans

/-! ### Sorted lists -/

/-- What is sorted by an order is in order. -/
theorem pairwise_mergeSort [Std.TransCmp order] (l : List κ) :
    (l.mergeSort fun a b => (order a b).isLE).Pairwise fun a b => (order a b).isLE = true := by
  refine List.pairwise_mergeSort ?_ ?_ l
  · intro a b c hab hbc
    exact Std.TransCmp.isLE_trans hab hbc
  · intro a b
    have hswap : order b a = (order a b).swap := Std.OrientedCmp.eq_swap
    rw [hswap]
    cases order a b <;> rfl

/-- Lists with the same members are the same once they are sorted, if members equal by the order are. -/
theorem mergeSort_eq_of_perm [Std.TransCmp order] [Std.LawfulEqCmp order] {l l' : List κ}
    (h : l.Perm l') : (l.mergeSort fun a b => (order a b).isLE) =
      l'.mergeSort fun a b => (order a b).isLE := by
  refine List.Perm.eq_of_pairwise ?_ (pairwise_mergeSort l) (pairwise_mergeSort l')
    ((l.mergeSort_perm _).trans (h.trans (l'.mergeSort_perm _).symm))
  intro a b _ _ hab hba
  exact Std.LawfulEqCmp.eq_of_compare (Std.OrientedCmp.isLE_antisymm hab hba)

/-! ### Sets -/

/-- The members of a set increase. -/
def Ascending (order : κ → κ → Ordering) (s : List κ) : Prop := s.Pairwise fun a b => order a b = .lt

/-- An insertion keeps the members in order. -/
theorem Ascending.insertBy [Std.TransCmp order] {s : List κ} (h : Ascending order s) (a : κ) :
    Ascending order (insertBy order a s) := by
  induction s with
  | nil => exact List.pairwise_singleton _ a
  | cons b s ih =>
      obtain ⟨hlt, hs⟩ := List.pairwise_cons.1 h
      rw [Data.insertBy]
      split
      · rename_i hab
        refine List.pairwise_cons.2 ⟨?_, h⟩
        intro c hc
        rcases List.mem_cons.1 hc with rfl | hc
        · exact hab
        · exact Std.TransCmp.lt_trans hab (hlt c hc)
      · exact h
      · rename_i hab
        refine List.pairwise_cons.2 ⟨?_, ih hs⟩
        intro c hc
        rcases mem_insertBy hc with rfl | hc
        · exact Std.OrientedCmp.gt_iff_lt.1 hab
        · exact hlt c hc

/-- What is inserted is there, or something equal by the order. -/
theorem exists_mem_insertBy [Std.ReflCmp order] (a : κ) (s : List κ) :
    ∃ b ∈ insertBy order a s, order a b = .eq := by
  induction s with
  | nil => exact ⟨a, List.mem_cons_self, Std.ReflCmp.compare_self⟩
  | cons b s ih =>
      rw [insertBy]
      split
      · exact ⟨a, List.mem_cons_self, Std.ReflCmp.compare_self⟩
      · rename_i hab
        exact ⟨b, List.mem_cons_self, hab⟩
      · obtain ⟨c, hc, hac⟩ := ih
        exact ⟨c, List.mem_cons_of_mem _ hc, hac⟩

/-- What members show after an insertion is what they showed before, and what the new one shows, if
members equal by the order show the same. -/
theorem mem_map_insertBy {f : κ → γ} (hf : ∀ a b, order a b = .eq → f a = f b) {a : κ} {c : γ}
    {s : List κ} : c ∈ (insertBy order a s).map f ↔ c ∈ s.map f ∨ c = f a := by
  induction s with
  | nil => simp
  | cons b s ih =>
      rw [insertBy]
      split
      · simp only [List.map_cons, List.mem_cons]
        tauto
      · rename_i hab
        simp only [List.map_cons, List.mem_cons, hf a b hab]
        tauto
      · simp only [List.map_cons, List.mem_cons, ih]
        tauto

theorem mem_insertBy_iff [Std.LawfulEqCmp order] {a b : κ} {s : List κ} :
    b ∈ insertBy order a s ↔ b ∈ s ∨ b = a := by
  have heq : ∀ a b, order a b = .eq → id a = id b := fun _ _ => Std.LawfulEqCmp.eq_of_compare
  simpa using mem_map_insertBy heq (a := a) (c := b) (s := s)

/-- What is in front of all members is inserted in front of them. -/
theorem insertBy_of_forall_lt {a : κ} {s : List κ} (h : ∀ b ∈ s, order a b = .lt) :
    insertBy order a s = a :: s := by
  cases s with
  | nil => rfl
  | cons b s => rw [insertBy, h b List.mem_cons_self]

/-- An insertion of what is there changes nothing. -/
theorem Ascending.insertBy_eq_self [Std.TransCmp order] {s : List κ} (h : Ascending order s) {a b : κ}
    (hb : b ∈ s) (hab : order a b = .eq) : Data.insertBy order a s = s := by
  induction s with
  | nil => simp at hb
  | cons c s ih =>
      obtain ⟨hlt, hs⟩ := List.pairwise_cons.1 h
      rw [Data.insertBy]
      rcases List.mem_cons.1 hb with rfl | hb
      · rw [hab]
      · have hgt : order a c = .gt := by
          rw [Std.TransCmp.congr_left hab]
          exact Std.OrientedCmp.gt_of_lt (hlt b hb)
        rw [hgt, ih hs hb]

/-- What is kept of the members can be chosen before or after an insertion of what is kept. -/
theorem Ascending.filter_insertBy [Std.TransCmp order] {s : List κ} (h : Ascending order s) {a : κ}
    {p : κ → Bool} (ha : p a = true) (hp : ∀ b, order a b = .eq → p b = true) :
    (Data.insertBy order a s).filter p = Data.insertBy order a (s.filter p) := by
  induction s with
  | nil => simp [ha]
  | cons b s ih =>
      obtain ⟨hlt, hs⟩ := List.pairwise_cons.1 h
      rw [Data.insertBy]
      split
      · rename_i hab
        have hfront : ∀ c ∈ (b :: s).filter p, order a c = .lt := by
          intro c hc
          rcases List.mem_cons.1 (List.mem_of_mem_filter hc) with rfl | hc
          · exact hab
          · exact Std.TransCmp.lt_trans hab (hlt c hc)
        rw [List.filter_cons_of_pos ha, insertBy_of_forall_lt hfront]
      · rename_i hab
        rw [List.filter_cons_of_pos (hp b hab), Data.insertBy, hab]
      · rename_i hab
        cases hb : p b with
        | true =>
            rw [List.filter_cons_of_pos hb, List.filter_cons_of_pos hb, Data.insertBy, hab, ih hs]
        | false =>
            have hb : ¬ p b = true := by simp [hb]
            rw [List.filter_cons_of_neg hb, List.filter_cons_of_neg hb, ih hs]

/-- Two lists in one order show the same one after the other if they show the same at all, and what
shows the same is equal by the order. -/
theorem map_eq_of_mem_iff {α : Type} [Std.TransCmp order] {g : α → κ} {f : α → γ}
    (hf : ∀ a b, f a = f b → order (g a) (g b) = .eq) {s s' : List α}
    (h : s.Pairwise fun a b => order (g a) (g b) = .lt)
    (h' : s'.Pairwise fun a b => order (g a) (g b) = .lt)
    (hmem : ∀ c, c ∈ s.map f ↔ c ∈ s'.map f) : s.map f = s'.map f := by
  let R (c d : γ) : Prop := ∃ a b, f a = c ∧ f b = d ∧ order (g a) (g b) = .lt
  have hirrefl : Std.Irrefl R := by
    constructor
    rintro c ⟨a, b, ha, hb, hlt⟩
    rw [hf a b (ha.trans hb.symm)] at hlt
    cases hlt
  have hantisymm : Std.Antisymm R := by
    constructor
    rintro c d ⟨a, b, ha, hb, hlt⟩ ⟨b', a', hb', ha', hgt⟩
    rw [Std.TransCmp.congr_left (hf a a' (ha.trans ha'.symm)),
      Std.TransCmp.congr_right (hf b b' (hb.trans hb'.symm))] at hlt
    rw [Std.OrientedCmp.gt_of_lt hgt] at hlt
    cases hlt
  have hmap : ∀ {s : List α}, s.Pairwise (fun a b => order (g a) (g b) = .lt) →
      (s.map f).Pairwise R := by
    intro s hs
    rw [List.pairwise_map]
    exact hs.imp fun hlt => ⟨_, _, rfl, rfl, hlt⟩
  exact (hmap h).eq_of_mem_iff (hmap h') hmem

/-! ### Members -/

/-- The entries after a change are those before, and the one that was changed or begun. -/
theorem mem_upsertBy {k : κ} {f : Option β → β} {m : List (κ × β)} {e : κ × β}
    (h : e ∈ upsertBy order k f m) :
    e ∈ m ∨ e = (k, f none) ∨
      ∃ k' v, (k', v) ∈ m ∧ order k k' = .eq ∧ e = (k', f (some v)) := by
  induction m with
  | nil => simpa using h
  | cons e' m ih =>
      obtain ⟨k', v⟩ := e'
      rw [upsertBy] at h
      split at h
      · rcases List.mem_cons.1 h with rfl | h
        · exact .inr (.inl rfl)
        · exact .inl h
      · rename_i heq
        rcases List.mem_cons.1 h with rfl | h
        · exact .inr (.inr ⟨k', v, List.mem_cons_self, heq, rfl⟩)
        · exact .inl (List.mem_cons_of_mem _ h)
      · rcases List.mem_cons.1 h with rfl | h
        · exact .inl List.mem_cons_self
        · rcases ih h with h | h | ⟨k'', v', h, heq, he⟩
          · exact .inl (List.mem_cons_of_mem _ h)
          · exact .inr (.inl h)
          · exact .inr (.inr ⟨k'', v', List.mem_cons_of_mem _ h, heq, he⟩)

/-- A value that is given to a new key joins those before. -/
theorem mem_upsertBy_of_new {k : κ} {f : Option β → β} {m : List (κ × β)} {e : κ × β}
    (hnew : ∀ e' ∈ m, order k e'.1 ≠ .eq) :
    e ∈ upsertBy order k f m ↔ e ∈ m ∨ e = (k, f none) := by
  induction m with
  | nil => simp
  | cons e' m ih =>
      obtain ⟨k', v⟩ := e'
      obtain ⟨hne, hnew⟩ := List.forall_mem_cons.1 hnew
      rw [upsertBy]
      split
      · simp only [List.mem_cons]
        tauto
      · exact absurd ‹order k k' = .eq› hne
      · simp only [List.mem_cons, ih hnew]
        tauto

/-- A change of a value changes the keys as an insertion of its key does. -/
theorem map_fst_upsertBy (k : κ) (f : Option β → β) (m : List (κ × β)) :
    (upsertBy order k f m).map Prod.fst = insertBy order k (m.map Prod.fst) := by
  induction m with
  | nil => rfl
  | cons e m ih =>
      obtain ⟨k', v⟩ := e
      simp only [upsertBy, List.map_cons, insertBy]
      cases order k k' with
      | lt => rfl
      | eq => rfl
      | gt => rw [← ih, List.map_cons]

/-- A change of one value can be made before or after a change of all values. -/
theorem upsertBy_map {g : κ → β → γ} {k : κ} {f : Option β → β} {f' : Option γ → γ}
    {m : List (κ × β)} (hnone : g k (f none) = f' none)
    (hsome : ∀ e ∈ m, order k e.1 = .eq → g e.1 (f (some e.2)) = f' (some (g e.1 e.2))) :
    (upsertBy order k f m).map (fun e => (e.1, g e.1 e.2)) =
      upsertBy order k f' (m.map fun e => (e.1, g e.1 e.2)) := by
  induction m with
  | nil => rw [upsertBy_nil, List.map_cons, hnone, List.map_nil, upsertBy_nil]
  | cons e m ih =>
      obtain ⟨k', v⟩ := e
      obtain ⟨hv, hsome⟩ := List.forall_mem_cons.1 hsome
      simp only [upsertBy, List.map_cons]
      cases hk : order k k' with
      | lt => rw [List.map_cons, List.map_cons, hnone]
      | eq => rw [List.map_cons, hv hk]
      | gt => rw [List.map_cons, ih hsome]

/-- What holds of all entries, and of what a change makes of them, holds after it. -/
theorem forall_mem_upsertBy {P : κ × β → Prop} {k : κ} {f : Option β → β} {m : List (κ × β)}
    (hm : ∀ e ∈ m, P e) (hnone : P (k, f none))
    (hsome : ∀ k' v, P (k', v) → order k k' = .eq → P (k', f (some v))) :
    ∀ e ∈ upsertBy order k f m, P e := by
  intro e he
  rcases mem_upsertBy he with h | rfl | ⟨k', v, h, heq, rfl⟩
  · exact hm e h
  · exact hnone
  · exact hsome k' v (hm _ h) heq

/-! ### Increasing keys -/

/-- The keys of a map increase. -/
def Increasing (order : κ → κ → Ordering) (m : List (κ × β)) : Prop :=
  m.Pairwise fun a b => order a.1 b.1 = .lt

@[simp] theorem increasing_nil : Increasing order ([] : List (κ × β)) := List.Pairwise.nil

theorem increasing_cons {e : κ × β} {m : List (κ × β)} :
    Increasing order (e :: m) ↔ (∀ e' ∈ m, order e.1 e'.1 = .lt) ∧ Increasing order m :=
  List.pairwise_cons

/-- Nothing is found in front of all keys. -/
theorem lookupBy_eq_none_of_lt {k : κ} {m : List (κ × β)} (h : ∀ e ∈ m, order k e.1 = .lt) :
    lookupBy order k m = none := by
  rw [lookupBy, Option.map_eq_none_iff, List.find?_eq_none]
  intro e he
  simp [h e he]

theorem lookupBy_cons (k k' : κ) (v : β) (m : List (κ × β)) :
    lookupBy order k ((k', v) :: m) = if order k k' = .eq then some v else lookupBy order k m := by
  unfold lookupBy
  rw [List.find?_cons]
  split <;> simp_all

/-- What is found is there, perhaps by an equal key. -/
theorem exists_of_lookupBy {k : κ} {v : β} {m : List (κ × β)} (h : lookupBy order k m = some v) :
    ∃ k', (k', v) ∈ m ∧ order k k' = .eq := by
  obtain ⟨⟨k', v'⟩, hfind, rfl⟩ := Option.map_eq_some_iff.1 h
  have hk := List.find?_some hfind
  rw [beq_iff_eq] at hk
  exact ⟨k', List.mem_of_find?_eq_some hfind, hk⟩

/-- A change of a value keeps the keys in order. -/
theorem Increasing.upsertBy [Std.TransCmp order] {m : List (κ × β)} (h : Increasing order m) (k : κ)
    (f : Option β → β) : Increasing order (upsertBy order k f m) := by
  induction m with
  | nil => simp [Data.upsertBy, increasing_cons]
  | cons e m ih =>
      obtain ⟨k', v⟩ := e
      obtain ⟨hlt, h⟩ := increasing_cons.1 h
      rw [Data.upsertBy]
      split
      · rename_i hk
        refine increasing_cons.2 ⟨?_, increasing_cons.2 ⟨hlt, h⟩⟩
        intro e' he'
        rcases List.mem_cons.1 he' with rfl | he'
        · exact hk
        · exact Std.TransCmp.lt_trans hk (hlt e' he')
      · exact increasing_cons.2 ⟨hlt, h⟩
      · rename_i hk
        refine increasing_cons.2 ⟨forall_mem_upsertBy hlt ?_ fun _ _ h _ => h, ih h⟩
        exact Std.OrientedCmp.gt_iff_lt.1 hk

theorem lookupBy_append (k : κ) (m m' : List (κ × β)) :
    lookupBy order k (m ++ m') = (lookupBy order k m).or (lookupBy order k m') := by
  rw [lookupBy, lookupBy, lookupBy, List.find?_append]
  cases m.find? fun e => order k e.1 == .eq <;> rfl

section Equal

variable [Std.TransCmp order]

/-- What is found after a change, for keys that may be equal by the order alone. -/
theorem lookupBy_upsertBy {m : List (κ × β)} (h : Increasing order m) (k k' : κ)
    (f : Option β → β) : lookupBy order k (Data.upsertBy order k' f m) =
      if order k k' = .eq then some (f (lookupBy order k m)) else lookupBy order k m := by
  induction m with
  | nil => rw [upsertBy_nil, lookupBy_cons, lookupBy_nil]
  | cons e m ih =>
      obtain ⟨k'', v⟩ := e
      obtain ⟨hlt, h⟩ := increasing_cons.1 h
      rw [Data.upsertBy]
      split
      · rename_i hk
        rw [lookupBy_cons]
        split
        · rename_i heq
          -- Nothing is equal to a key in front of all.
          have hnone : lookupBy order k ((k'', v) :: m) = none := by
            refine lookupBy_eq_none_of_lt ?_
            intro e' he'
            rw [Std.TransCmp.congr_left heq]
            rcases List.mem_cons.1 he' with rfl | he'
            · exact hk
            · exact Std.TransCmp.lt_trans hk (hlt e' he')
          rw [hnone]
        · rfl
      · rename_i hk
        rw [lookupBy_cons, lookupBy_cons, Std.TransCmp.congr_right hk]
        split <;> rfl
      · rename_i hk
        rw [lookupBy_cons, lookupBy_cons, ih h]
        -- A key equal to both would make them equal.
        by_cases heq : order k k'' = .eq
        · have hne : order k k' ≠ .eq := by
            intro heq'
            rw [Std.TransCmp.congr_left heq', hk] at heq
            cases heq
          rw [if_pos heq, if_neg hne, if_pos heq]
        · rw [if_neg heq, if_neg heq]

/-- What is there is found, by every key equal to its own. -/
theorem lookupBy_of_mem {m : List (κ × β)} (h : Increasing order m) {k k' : κ} {v : β}
    (hmem : (k', v) ∈ m) (heq : order k k' = .eq) : lookupBy order k m = some v := by
  induction m with
  | nil => simp at hmem
  | cons e m ih =>
      obtain ⟨k'', v'⟩ := e
      obtain ⟨hlt, h⟩ := increasing_cons.1 h
      rw [lookupBy_cons]
      rcases List.mem_cons.1 hmem with hhead | hmem
      · rw [Prod.mk.injEq] at hhead
        rw [← hhead.1, if_pos heq, hhead.2]
      · have hgt : order k k'' = .gt := by
          rw [Std.TransCmp.congr_left heq]
          exact Std.OrientedCmp.gt_of_lt (hlt _ hmem)
        rw [if_neg (by simp [hgt]), ih h hmem]

/-- What is found among the entries that some of those of a map become. -/
theorem lookupBy_filterMap {m : List (κ × β)} (h : Increasing order m) {g : κ → β → Option γ}
    (hg : ∀ k k' v, order k k' = .eq → g k v = g k' v) (k : κ) :
    lookupBy order k (m.filterMap fun e => (g e.1 e.2).map fun c => (e.1, c)) =
      (lookupBy order k m).bind (g k) := by
  induction m with
  | nil => rfl
  | cons e m ih =>
      obtain ⟨k', v⟩ := e
      obtain ⟨hlt, h⟩ := increasing_cons.1 h
      rw [lookupBy_cons, List.filterMap_cons]
      by_cases heq : order k k' = .eq
      · have hnone : lookupBy order k m = none :=
          lookupBy_eq_none_of_lt fun e he => by rw [Std.TransCmp.congr_left heq, hlt e he]
        rw [if_pos heq, Option.bind_some, hg k k' v heq]
        cases hc : g k' v with
        | none => rw [Option.map_none, ih h, hnone, Option.bind_none]
        | some c => rw [Option.map_some, lookupBy_cons, if_pos heq]
      · rw [if_neg heq]
        cases hc : g k' v with
        | none => rw [Option.map_none, ih h]
        | some c => rw [Option.map_some, lookupBy_cons, if_neg heq, ih h]

end Equal

section Lookup

variable [Std.LawfulEqCmp order]

/-- What is found is there. -/
theorem mem_of_lookupBy {k : κ} {v : β} {m : List (κ × β)} (h : lookupBy order k m = some v) :
    (k, v) ∈ m := by
  obtain ⟨k', hmem, hk⟩ := exists_of_lookupBy h
  rwa [Std.LawfulEqCmp.eq_of_compare hk]

/-- A change of one value leaves all others alone. -/
theorem lookupBy_upsertBy_of_ne {k k' : κ} (hne : k ≠ k') (f : Option β → β) (m : List (κ × β)) :
    lookupBy order k (upsertBy order k' f m) = lookupBy order k m := by
  have hk : order k k' ≠ .eq := fun h => hne (Std.LawfulEqCmp.eq_of_compare h)
  induction m with
  | nil => rw [upsertBy, lookupBy_cons, if_neg hk]
  | cons e m ih =>
      obtain ⟨k'', v⟩ := e
      rw [upsertBy]
      split
      · rw [lookupBy_cons, if_neg hk]
      · rw [lookupBy_cons, lookupBy_cons]
        rename_i heq
        rw [Std.LawfulEqCmp.eq_of_compare heq] at hk
        rw [if_neg hk, if_neg hk]
      · rw [lookupBy_cons, lookupBy_cons, ih]

end Lookup

section Order

variable [Std.TransCmp order] [Std.LawfulEqCmp order]

/-- What is found after a change is what the change makes of what was there. -/
theorem lookupBy_upsertBy_self {m : List (κ × β)} (h : Increasing order m) (k : κ)
    (f : Option β → β) :
    lookupBy order k (Data.upsertBy order k f m) = some (f (lookupBy order k m)) := by
  have hself : order k k = .eq := Std.ReflCmp.compare_self
  induction m with
  | nil => rw [upsertBy_nil, lookupBy_cons, if_pos hself, lookupBy_nil]
  | cons e m ih =>
      obtain ⟨k', v⟩ := e
      obtain ⟨hlt, h⟩ := increasing_cons.1 h
      rw [Data.upsertBy]
      split
      · rename_i hk
        have hnone : lookupBy order k m = none :=
          lookupBy_eq_none_of_lt fun e' he' => Std.TransCmp.lt_trans hk (hlt e' he')
        rw [lookupBy_cons, if_pos hself, lookupBy_cons, if_neg (by simp [hk]), hnone]
      · rename_i hk
        rw [lookupBy_cons, if_pos hk, lookupBy_cons, if_pos hk]
      · rename_i hk
        rw [lookupBy_cons, if_neg (by simp [hk]), lookupBy_cons, if_neg (by simp [hk]), ih h]

/-- What is found is what is there. -/
theorem lookupBy_eq_some_iff {m : List (κ × β)} (h : Increasing order m) {k : κ} {v : β} :
    lookupBy order k m = some v ↔ (k, v) ∈ m := by
  refine ⟨mem_of_lookupBy, ?_⟩
  intro hmem
  induction m with
  | nil => simp at hmem
  | cons e m ih =>
      obtain ⟨k', v'⟩ := e
      obtain ⟨hlt, h⟩ := increasing_cons.1 h
      rw [lookupBy_cons]
      rcases List.mem_cons.1 hmem with heq | hmem
      · rw [Prod.mk.injEq] at heq
        rw [heq.1, heq.2, if_pos Std.ReflCmp.compare_self]
      · have hgt : order k k' = .gt := Std.OrientedCmp.gt_iff_lt.2 (hlt _ hmem)
        rw [if_neg (by simp [hgt]), ih h hmem]

/-- A change of a value that is there only shows where the value is looked at. -/
theorem map_upsertBy {g : κ × β → γ} {k : κ} {v : β} {f : Option β → β} {m : List (κ × β)}
    (h : Increasing order m) (hfound : lookupBy order k m = some v)
    (hg : g (k, f (some v)) = g (k, v)) : (Data.upsertBy order k f m).map g = m.map g := by
  induction m with
  | nil => simp at hfound
  | cons e m ih =>
      obtain ⟨k', v'⟩ := e
      obtain ⟨hlt, h⟩ := increasing_cons.1 h
      rw [lookupBy_cons] at hfound
      rw [Data.upsertBy]
      split
      · rename_i hk
        have hnone : lookupBy order k m = none :=
          lookupBy_eq_none_of_lt fun e' he' => Std.TransCmp.lt_trans hk (hlt e' he')
        simp [hk, hnone] at hfound
      · rename_i hk
        rw [if_pos hk, Option.some.injEq] at hfound
        obtain rfl := Std.LawfulEqCmp.eq_of_compare hk
        rw [hfound, List.map_cons, List.map_cons, hg]
      · rename_i hk
        rw [if_neg (by simp [hk])] at hfound
        rw [List.map_cons, List.map_cons, ih h hfound]

end Order

/-! ### Values that are given where there is none -/

section Default

variable {m : List (κ × β)} {d : β}

/-- Maps with increasing keys in which a key with the value `d` is left out. -/
structure Sparse (order : κ → κ → Ordering) (d : β) (m : List (κ × β)) : Prop where
  increasing : Increasing order m
  ne : ∀ e ∈ m, e.2 ≠ d

namespace Sparse

theorem nil : Sparse order d ([] : List (κ × β)) := ⟨increasing_nil, by simp⟩

variable [Std.TransCmp order]

/-- A change of a value that does not make it `d` leaves nothing more out. -/
theorem upsertBy (h : Sparse order d m) {f : β → β} (hf : ∀ v, f v ≠ d) (k : κ) :
    Sparse order d (Data.upsertBy order k (fun v => f (v.getD d)) m) where
  increasing := h.increasing.upsertBy _ _
  ne := forall_mem_upsertBy h.ne (hf _) fun _ _ _ _ => hf _

variable [Std.LawfulEqCmp order]

/-- What is found after a change of a value. -/
theorem getD_upsertBy [DecidableEq κ] (h : Sparse order d m) (k k' : κ) (f : β → β) :
    (lookupBy order k (Data.upsertBy order k' (fun v => f (v.getD d)) m)).getD d =
      if k' = k then f ((lookupBy order k m).getD d) else (lookupBy order k m).getD d := by
  by_cases hk : k' = k
  · rw [if_pos hk, hk, lookupBy_upsertBy_self h.increasing, Option.getD_some]
  · rw [if_neg hk, lookupBy_upsertBy_of_ne (Ne.symm hk)]

/-- The entries are the keys with a value that is not `d`. -/
theorem mem_iff (h : Sparse order d m) {k : κ} {v : β} :
    (k, v) ∈ m ↔ v ≠ d ∧ v = (lookupBy order k m).getD d := by
  rw [← lookupBy_eq_some_iff h.increasing]
  constructor
  · intro hfound
    exact ⟨h.ne _ (mem_of_lookupBy hfound), by rw [hfound, Option.getD_some]⟩
  · rintro ⟨hne, hv⟩
    cases hfound : lookupBy order k m with
    | none =>
        rw [hfound] at hv
        exact absurd hv hne
    | some v' => rw [hv, hfound, Option.getD_some]

end Sparse

end Default

end Data

end Upkeep
