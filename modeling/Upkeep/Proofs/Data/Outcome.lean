/-
**Operations that can fail.**

An operation made of others succeeds when all of them do, and then its result is made of theirs.

Main results:

* `Upkeep.Outcome.bind_ok`, `Upkeep.Outcome.bind_error` — an operation made of two;
* `Upkeep.mapM_cons_ok`, `Upkeep.exists_of_mem_mapM`, `Upkeep.exists_mapM_of_mem` — an operation for
  every member of a list;
* `Upkeep.mapM_ok_of_forall`, `Upkeep.mapM_error_of_mem` — when it succeeds, and when it does not;
* `Upkeep.filterM_ok`, `Upkeep.exists_error_of_filterM` — a choice of members.
-/

import Mathlib.Data.List.Forall2
import Upkeep.Failure

set_option relaxedAutoImplicit false
set_option autoImplicit false

namespace Upkeep

variable {α β γ : Type}

/-- An operation made of two succeeds when both do. -/
theorem Outcome.bind_ok {x : Outcome α} {f : α → Outcome β} {b : β} :
    x >>= f = .ok b ↔ ∃ a, x = .ok a ∧ f a = .ok b := by
  cases x with
  | error e => exact iff_of_false (by simp [bind, Except.bind]) (by simp)
  | ok a =>
      constructor
      · exact fun h => ⟨a, rfl, h⟩
      · rintro ⟨_, ⟨⟩, h⟩
        exact h

/-- An operation made of two fails when one of them does. -/
theorem Outcome.bind_error {x : Outcome α} {f : α → Outcome β} {e : Failure} :
    x >>= f = .error e ↔ x = .error e ∨ ∃ a, x = .ok a ∧ f a = .error e := by
  cases x with
  | error e' =>
      constructor
      · intro h
        cases h
        exact .inl rfl
      · rintro (⟨⟨⟩⟩ | ⟨_, ⟨⟩, -⟩)
        rfl
  | ok a =>
      constructor
      · exact fun h => .inr ⟨a, rfl, h⟩
      · rintro (⟨⟨⟩⟩ | ⟨_, ⟨⟩, h⟩)
        exact h

/-- What can be computed of a result is the result. -/
theorem ok_of_toOption {r : Outcome α} {x : α} (h : r.toOption = some x) : r = .ok x := by
  cases r with
  | error e => cases h
  | ok y => exact congrArg Except.ok (Option.some.inj h)

/-! ### Runs over lists -/

variable {f : α → Outcome β} {xs : List α} {ys : List β}

/-- A run over a list succeeds when it does at every member. -/
theorem mapM_cons_ok {x : α} (h : (x :: xs).mapM f = .ok ys) :
    ∃ y ys', f x = .ok y ∧ xs.mapM f = .ok ys' ∧ ys = y :: ys' := by
  rw [List.mapM_cons, Outcome.bind_ok] at h
  obtain ⟨y, hx, h⟩ := h
  obtain ⟨ys', hxs, h⟩ := Outcome.bind_ok.1 h
  cases h
  exact ⟨y, ys', hx, hxs, rfl⟩

/-- A run over a list succeeds if it does at every member. -/
theorem mapM_ok_of_forall {ε : Type} {f : α → Except ε β} {g : α → β} (h : ∀ x ∈ xs, f x = .ok (g x)) :
    xs.mapM f = .ok (xs.map g) := by
  induction xs with
  | nil => rfl
  | cons x xs ih =>
      rw [List.mapM_cons, h x List.mem_cons_self, ih fun x' hx' => h x' (List.mem_cons_of_mem _ hx')]
      rfl

/-- A run over a list ends where it does at a member, if there is one way to end alone. -/
theorem mapM_error_of_mem {ε : Type} {f : α → Except ε β} {g : α → β} {Ends : α → Prop} {e : ε}
    (hends : ∀ x, Ends x → f x = .error e) (hgoes : ∀ x, ¬Ends x → f x = .ok (g x)) {x : α}
    (hx : x ∈ xs) (h : Ends x) : xs.mapM f = .error e := by
  induction xs with
  | nil => cases hx
  | cons x' xs ih =>
      rw [List.mapM_cons]
      by_cases hhead : Ends x'
      · rw [hends x' hhead]
        rfl
      · rcases List.mem_cons.1 hx with rfl | hx
        · exact absurd h hhead
        · rw [hgoes x' hhead, ih hx]
          rfl

/-- What comes out of a list was made of one of its members. -/
theorem exists_of_mem_mapM (h : xs.mapM f = .ok ys) {y : β} (hy : y ∈ ys) :
    ∃ x ∈ xs, f x = .ok y := by
  induction xs generalizing ys with
  | nil =>
      cases h
      simp at hy
  | cons x xs ih =>
      obtain ⟨y', ys', hx, hxs, rfl⟩ := mapM_cons_ok h
      rcases List.mem_cons.1 hy with rfl | hy
      · exact ⟨x, List.mem_cons_self, hx⟩
      · obtain ⟨x', hx', hy⟩ := ih hxs hy
        exact ⟨x', List.mem_cons_of_mem _ hx', hy⟩

/-- A run over a list succeeds at every member. -/
theorem exists_mapM_of_mem (h : xs.mapM f = .ok ys) {x : α} (hx : x ∈ xs) :
    ∃ y ∈ ys, f x = .ok y := by
  induction xs generalizing ys with
  | nil => cases hx
  | cons x' xs ih =>
      obtain ⟨y, ys', hy, hys, rfl⟩ := mapM_cons_ok h
      rcases List.mem_cons.1 hx with rfl | hx
      · exact ⟨y, List.mem_cons_self, hy⟩
      · obtain ⟨y', hy', hx'⟩ := ih hys hx
        exact ⟨y', List.mem_cons_of_mem _ hy', hx'⟩

/-- What a run makes of the members stands in their order. -/
theorem forall₂_of_mapM (h : xs.mapM f = .ok ys) : List.Forall₂ (fun x y => f x = .ok y) xs ys := by
  induction xs generalizing ys with
  | nil =>
      cases h
      exact .nil
  | cons x xs ih =>
      obtain ⟨y, ys', hx, hxs, rfl⟩ := mapM_cons_ok h
      exact .cons hx (ih hxs)

/-- What a run keeps of every member, it keeps of the list. -/
theorem map_of_mapM {g : β → γ} {k : α → γ} (hf : ∀ x y, f x = .ok y → g y = k x)
    (h : xs.mapM f = .ok ys) : ys.map g = xs.map k := by
  induction xs generalizing ys with
  | nil =>
      cases h
      rfl
  | cons x xs ih =>
      obtain ⟨y, ys', hx, hxs, rfl⟩ := mapM_cons_ok h
      rw [List.map_cons, List.map_cons, hf x y hx, ih hxs]

/-! ### Selections -/

section Select

variable {p : α → Outcome Bool} {acc kept : List α}

theorem filterAuxM_ok (h : xs.filterAuxM p acc = .ok kept) :
    (∀ x ∈ xs, ∃ b, p x = .ok b) ∧
      kept = (xs.filter fun x => (p x).toOption == some true).reverse ++ acc := by
  induction xs generalizing acc with
  | nil =>
      cases h
      exact ⟨by simp, rfl⟩
  | cons x xs ih =>
      rw [List.filterAuxM, Outcome.bind_ok] at h
      obtain ⟨b, hb, h⟩ := h
      obtain ⟨hall, hkept⟩ := ih h
      refine ⟨List.forall_mem_cons.2 ⟨⟨b, hb⟩, hall⟩, ?_⟩
      rw [hkept]
      cases b with
      | false => rw [List.filter_cons_of_neg (by rw [hb]; decide)]; rfl
      | true =>
          rw [List.filter_cons_of_pos (by rw [hb]; decide), List.reverse_cons, List.append_assoc]
          rfl

/-- A selection succeeds when it can be made of every member, and keeps the order. -/
theorem filterM_ok (h : xs.filterM p = .ok kept) :
    (∀ x ∈ xs, ∃ b, p x = .ok b) ∧ kept = xs.filter fun x => (p x).toOption == some true := by
  rw [List.filterM, Outcome.bind_ok] at h
  obtain ⟨found, hfound, h⟩ := h
  cases h
  obtain ⟨hall, rfl⟩ := filterAuxM_ok hfound
  exact ⟨hall, by rw [List.append_nil, List.reverse_reverse]⟩

/-- A selection fails where it cannot be made of a member. -/
theorem exists_error_of_filterM {e : Failure} (h : xs.filterM p = .error e) :
    ∃ x ∈ xs, p x = .error e := by
  have hsome : ∀ {xs acc : List α}, xs.filterAuxM p acc = .error e → ∃ x ∈ xs, p x = .error e := by
    intro xs
    induction xs with
    | nil =>
        intro acc h
        cases h
    | cons x xs ih =>
        intro acc h
        rw [List.filterAuxM, Outcome.bind_error] at h
        rcases h with hx | ⟨b, -, h⟩
        · exact ⟨x, List.mem_cons_self, hx⟩
        · obtain ⟨x', hx', he⟩ := ih h
          exact ⟨x', List.mem_cons_of_mem _ hx', he⟩
  rw [List.filterM, Outcome.bind_error] at h
  rcases h with h | ⟨found, -, h⟩
  · exact hsome h
  · cases h

end Select

end Upkeep
