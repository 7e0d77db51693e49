/-
**Access to bytes at given places.**

Whoever reads at places of its own choosing has to stay within the bytes: an access beyond them stops
the program.  Such a stop is kept apart from everything that a reader answers.

Main definitions:

* `Upkeep.Bytes.Word` — numbers of thirty-two bits;
* `Upkeep.Bytes.Access` — what comes of reading at places;
* `Upkeep.Bytes.span`, `Upkeep.Bytes.byteAt` — the bytes between two places, and the byte at one;
* `Upkeep.Bytes.word`, `Upkeep.Bytes.wordAt` — the word that some bytes begin with, and the word at a
  place;
* `Upkeep.Bytes.within?` — the bytes between two places, if there are as many.
-/

import Upkeep.Bytes.Field

set_option relaxedAutoImplicit false
set_option autoImplicit false

namespace Upkeep

namespace Bytes

/-! ### Words -/

/-- Numbers of thirty-two bits. -/
abbrev Word := Fin UInt32.size

/-- The word in four bytes, the lowest first. -/
def Word.ofBytes (a b c d : UInt8) : Word :=
  ⟨littleEndian [a, b, c, d], by
    have := a.toNat_lt
    have := b.toNat_lt
    have := c.toNat_lt
    have := d.toNat_lt
    simp only [littleEndian_cons, littleEndian_nil, UInt32.size]
    omega⟩

/-- The sum of two places, if it is a number of sixty-four bits. -/
def checkedSum? (m n : Nat) : Option Nat := if m + n < UInt64.size then some (m + n) else none

/-! ### Accesses -/

/-- An access that does not stay within some bytes. -/
structure OutOfRange where
  first : Nat
  last : Nat
  size : Nat
deriving DecidableEq, Repr

/-- What comes of reading at places: a result, or the access that stopped it. -/
abbrev Access (α : Type) := Except OutOfRange α

/-- The bytes from one place up to another. -/
def span (data : List UInt8) (first last : Nat) : Access (List UInt8) :=
  if first ≤ last ∧ last ≤ data.length then .ok ((data.drop first).take (last - first))
  else .error ⟨first, last, data.length⟩

/-- The byte at a place. -/
def byteAt (data : List UInt8) (place : Nat) : Access UInt8 :=
  match data[place]? with
  | some b => .ok b
  | none => .error ⟨place, place + 1, data.length⟩

/-- The word that some bytes begin with. -/
def word (data : List UInt8) : Access Word := do
  return .ofBytes (← byteAt data 0) (← byteAt data 1) (← byteAt data 2) (← byteAt data 3)

/-- The word at a place. -/
def wordAt (data : List UInt8) (place : Nat) : Access Word := do
  word (← span data place (place + 4))

/-- The bytes from one place up to another, if there are as many. -/
def within? (data : List UInt8) (first last : Nat) : Option (List UInt8) :=
  (span data first last).toOption

namespace Access

/-- The result of an access that is not stopped. -/
def result {α : Type} : (x : Access α) → (∃ a, x = .ok a) → α
  | .ok a, _ => a
  | .error _, h => absurd h (by simp)

/-- An access that is not stopped comes to its result. -/
theorem eq_ok_result {α : Type} (x : Access α) (h : ∃ a, x = .ok a) : x = .ok (x.result h) := by
  obtain ⟨a, rfl⟩ := h
  rfl

theorem ok_bind {α β : Type} (a : α) (f : α → Access β) : (.ok a : Access α) >>= f = f a := rfl

/-- Two accesses come to a result when both do. -/
theorem bind_eq_ok_iff {α β : Type} {x : Access α} {f : α → Access β} {b : β} :
    x >>= f = .ok b ↔ ∃ a, x = .ok a ∧ f a = .ok b := by
  cases x with
  | error e => simp [bind, Except.bind]
  | ok a => simp [bind, Except.bind]

/-- A run over places comes to what is found at each of them. -/
theorem ofFnM_eq_ok {α : Type} {n : Nat} {f : Fin n → Access α} {g : Fin n → α}
    (h : ∀ i, f i = .ok (g i)) : Vector.ofFnM f = .ok (Vector.ofFn g) := by
  have hf : f = fun i => pure (g i) := funext h
  rw [hf]
  exact Vector.ofFnM_pure

end Access

section Within

variable {data : List UInt8}

theorem span_eq {first last : Nat} (h : first ≤ last) (hlast : last ≤ data.length) :
    span data first last = .ok ((data.drop first).take (last - first)) := if_pos ⟨h, hlast⟩

/-- Bytes that are four are a word. -/
theorem exists_word (h : data.length = 4) : ∃ w, word data = .ok w := by
  match data, h with
  | [a, b, c, d], _ => exact ⟨.ofBytes a b c d, rfl⟩

/-- A word that lies within the bytes can be read. -/
theorem exists_wordAt {place : Nat} (h : place + 4 ≤ data.length) : ∃ w, wordAt data place = .ok w := by
  rw [wordAt, span_eq (Nat.le_add_right _ _) h]
  apply exists_word
  rw [List.length_take, List.length_drop]
  omega

end Within

end Bytes

end Upkeep
