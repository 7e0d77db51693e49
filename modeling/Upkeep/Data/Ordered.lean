/-
**Ordered sets and maps as lists.**

A set is a list in increasing order, a map a list of entries with increasing keys.  What is found
equal by the order is one member: the one that came first stays.

Main definitions:

* `Upkeep.Data.insertBy` — a set with one more member;
* `Upkeep.Data.upsertBy` — a map with the value of a key changed or given;
* `Upkeep.Data.lookupBy` — the value of a key.
-/

set_option relaxedAutoImplicit false
set_option autoImplicit false

namespace Upkeep

namespace Data

variable {α κ β : Type}

/-- The set with one more member; a member that is equal by the order stays as it is. -/
def insertBy (order : α → α → Ordering) (a : α) : List α → List α
  | [] => [a]
  | b :: rest =>
    match order a b with
    | .lt => a :: b :: rest
    | .eq => b :: rest
    | .gt => b :: insertBy order a rest

/-- The map in which `f` has changed the value of a key, or given it one. -/
def upsertBy (order : κ → κ → Ordering) (k : κ) (f : Option β → β) : List (κ × β) → List (κ × β)
  | [] => [(k, f none)]
  | (k', v) :: rest =>
    match order k k' with
    | .lt => (k, f none) :: (k', v) :: rest
    | .eq => (k', f (some v)) :: rest
    | .gt => (k', v) :: upsertBy order k f rest

/-- The value of a key. -/
def lookupBy (order : κ → κ → Ordering) (k : κ) (m : List (κ × β)) : Option β :=
  (m.find? fun e => order k e.1 == .eq).map Prod.snd

@[simp] theorem insertBy_nil (order : α → α → Ordering) (a : α) : insertBy order a [] = [a] := rfl

@[simp] theorem upsertBy_nil (order : κ → κ → Ordering) (k : κ) (f : Option β → β) :
    upsertBy order k f [] = [(k, f none)] := rfl

@[simp] theorem lookupBy_nil (order : κ → κ → Ordering) (k : κ) :
    lookupBy order k ([] : List (κ × β)) = none := rfl

/-- The members after an insertion are the new one, or the one equal to it, and those before. -/
theorem mem_insertBy {order : α → α → Ordering} {a x : α} {s : List α}
    (h : x ∈ insertBy order a s) : x = a ∨ x ∈ s := by
  induction s with
  | nil => simpa using h
  | cons b rest ih =>
      simp only [insertBy] at h
      split at h
      · simpa using h
      · exact .inr h
      · rcases List.mem_cons.1 h with rfl | h
        · simp
        · rcases ih h with h | h
          · exact .inl h
          · exact .inr (List.mem_cons_of_mem _ h)

/-- An insertion loses no member. -/
theorem mem_insertBy_of_mem {order : α → α → Ordering} {a x : α} {s : List α} (h : x ∈ s) :
    x ∈ insertBy order a s := by
  induction s with
  | nil => simp at h
  | cons b rest ih =>
      simp only [insertBy]
      split
      · exact List.mem_cons_of_mem _ h
      · exact h
      · rcases List.mem_cons.1 h with rfl | h
        · simp
        · exact List.mem_cons_of_mem _ (ih h)

end Data

end Upkeep
