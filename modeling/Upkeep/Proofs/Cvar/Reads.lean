/-
**Reads in a text.**

A read of a cvar is its name behind a word boundary, a dot or an arrow with blanks around it, and a typed
field in front of a word boundary.  The search for reads goes from the left and passes over what it
found, so a text is cut into its reads and characters at which no read begins.

Main definitions:

* `Upkeep.Cvar.ReadParts`, `Upkeep.Cvar.ReadParts.Fits` — the parts of a read, and where they are one;
* `Upkeep.Cvar.HasRead` — texts with a read;
* `Upkeep.Cvar.Cut` — a text cut at its reads;
* `Upkeep.Cvar.Swaps` — a text with some stretches put in the place of others.

Main results:

* `Upkeep.Cvar.readAt?_ok`, `Upkeep.Cvar.ReadParts.Fits.readAt?_ne_none` — where a read is found;
* `Upkeep.Cvar.cut_pieces` — **the pieces of a text are its reads and what is between them**;
* `Upkeep.Cvar.hasRead_iff` — which texts have a read.
-/

import Mathlib.Data.List.Basic
import Upkeep.Cvar.Reads

set_option relaxedAutoImplicit false
set_option autoImplicit false

namespace Upkeep

namespace Cvar

variable {name : String} {fields : FieldNames} {before : Option Char} {s t : List Char}

/-! ### The parts of a read -/

/-- What follows the name in a read. -/
structure ReadParts where
  blanks : List Char
  access : List Char
  inner : List Char
  field : String

namespace ReadParts

/-- The dot or the arrow, and all that follows. -/
def tail (q : ReadParts) : List Char := q.access ++ q.inner ++ q.field.toList

/-- The text of a read. -/
def text (q : ReadParts) (name : String) : List Char := name.toList ++ q.blanks ++ q.tail

/-- The parts make up a read between two characters. -/
structure Fits (q : ReadParts) (name : String) (fields : FieldNames) (before after : Option Char) :
    Prop where
  blanks : ∀ c ∈ q.blanks, Unicode.isBlank c = true
  access : q.access = ['.'] ∨ q.access = ['-', '>']
  inner : ∀ c ∈ q.inner, Unicode.isBlank c = true
  field : q.field ∈ fields
  starts : Text.boundary before (q.text name).head? = true
  ends : Text.boundary q.tail.getLast? after = true

theorem Fits.tail_ne_nil {q : ReadParts} {after : Option Char} (h : q.Fits name fields before after) :
    q.tail ≠ [] := by
  rcases h.access with haccess | haccess <;> simp [tail, haccess]

theorem Fits.text_ne_nil {q : ReadParts} {after : Option Char} (h : q.Fits name fields before after) :
    q.text name ≠ [] := by
  simp [text, h.tail_ne_nil]

end ReadParts

/-- There is a read in a text; `before` is the character in front of the text. -/
def HasReadAfter (name : String) (fields : FieldNames) (before : Option Char) (s : List Char) : Prop :=
  ∃ q : ReadParts, ∃ front rest, s = front ++ q.text name ++ rest ∧
    q.Fits name fields (lastOf before front) rest.head?

/-- There is a read in a text. -/
def HasRead (name : String) (fields : FieldNames) (s : List Char) : Prop :=
  HasReadAfter name fields none s

/-! ### Finding a read -/

@[simp] theorem lastOf_nil (before : Option Char) : lastOf before [] = before := rfl

theorem lastOf_cons (before : Option Char) (c : Char) (s : List Char) :
    lastOf before (c :: s) = lastOf (some c) s := by
  rw [lastOf, lastOf, List.getLast?_cons]
  cases s.getLast? <;> rfl

theorem lastOf_append (before : Option Char) (s t : List Char) :
    lastOf before (s ++ t) = lastOf (lastOf before s) t := by
  simp [lastOf, Option.or_assoc]

theorem lastOf_of_ne_nil (before : Option Char) (h : s ≠ []) : lastOf before s = s.getLast? := by
  rw [lastOf, List.getLast?_eq_some_getLast h]
  rfl

/-- Blanks can be skipped in all ways. -/
theorem mem_blankSplits {b r : List Char} :
    (b, r) ∈ blankSplits s ↔ s = b ++ r ∧ ∀ c ∈ b, Unicode.isBlank c = true := by
  simp only [blankSplits, List.mem_map, List.mem_reverse, List.mem_range, Prod.mk.injEq]
  constructor
  · rintro ⟨i, hi, rfl, rfl⟩
    refine ⟨(List.take_append_drop i s).symm, ?_⟩
    intro c hc
    have htake : s.take i <+: s.takeWhile Unicode.isBlank :=
      List.prefix_of_prefix_length_le (List.take_prefix i s) (List.takeWhile_prefix _)
        (by rw [List.length_take]; omega)
    exact List.all_eq_true.1 List.all_takeWhile c (htake.subset hc)
  · rintro ⟨rfl, hb⟩
    refine ⟨b.length, ?_, List.take_left, List.drop_left⟩
    rw [List.takeWhile_append_of_pos hb, List.length_append]
    omega

theorem accessAt?_ok {access rest : List Char} (h : accessAt? s = some (access, rest)) :
    s = access ++ rest ∧ (access = ['.'] ∨ access = ['-', '>']) := by
  unfold accessAt? at h
  split at h
  · cases h
    exact ⟨rfl, .inl rfl⟩
  · cases h
    exact ⟨rfl, .inr rfl⟩
  · cases h

theorem fieldAt?_ok {f : String} (h : fieldAt? fields before s = some f) :
    f ∈ fields ∧ ∃ rest, s = f.toList ++ rest ∧
      Text.boundary (lastOf before f.toList) rest.head? = true := by
  refine ⟨List.mem_of_find?_eq_some h, ?_⟩
  have hfits := List.find?_some h
  split at hfits
  · rename_i rest hrest
    exact ⟨rest, Text.eq_append_of_stripPrefix? hrest, hfits⟩
  · cases hfits

theorem fieldAt?_ne_none {f : String} {rest : List Char} (hf : f ∈ fields)
    (hends : Text.boundary (lastOf before f.toList) rest.head? = true) :
    fieldAt? fields before (f.toList ++ rest) ≠ none := by
  intro hnone
  have hnot := List.find?_eq_none.1 hnone f hf
  simp [Text.stripPrefix?_append, hends] at hnot

/-- What is found at the start of a text is a read. -/
theorem readAt?_ok {r : TypedRead} (h : readAt? name fields before s = some r) :
    ∃ q : ReadParts, ∃ rest, r = ⟨q.text name, q.field⟩ ∧ s = q.text name ++ rest ∧
      q.Fits name fields before rest.head? := by
  rw [readAt?] at h
  split at h
  · cases h
  · rename_i rest hname
    split at h
    · rename_i hstarts
      obtain ⟨⟨blanks, rest₁⟩, hsplit, h⟩ := List.exists_of_findSome?_eq_some h
      obtain ⟨⟨access, rest₂⟩, haccess, h⟩ := Option.bind_eq_some_iff.1 h
      obtain ⟨⟨inner, rest₃⟩, hsplit', h⟩ := List.exists_of_findSome?_eq_some h
      obtain ⟨f, hf, rfl⟩ := Option.map_eq_some_iff.1 h
      obtain ⟨rfl, hblanks⟩ := mem_blankSplits.1 hsplit
      obtain ⟨rfl, hdot⟩ := accessAt?_ok haccess
      obtain ⟨rfl, hinner⟩ := mem_blankSplits.1 hsplit'
      obtain ⟨hfield, rest₄, rfl, hends⟩ := fieldAt?_ok hf
      let q : ReadParts := ⟨blanks, access, inner, f⟩
      have hne : access ≠ [] := by rcases hdot with rfl | rfl <;> simp
      have hs : s = q.text name ++ rest₄ := by
        rw [Text.eq_append_of_stripPrefix? hname]
        simp [q, ReadParts.text, ReadParts.tail]
      refine ⟨q, rest₄, ?_, hs, hblanks, hdot, hinner, hfield, ?_, ?_⟩
      · simp [q, ReadParts.text, ReadParts.tail]
      · rwa [hs, List.head?_append_of_ne_nil _ (by simp [q, ReadParts.text, ReadParts.tail, hne])]
          at hstarts
      · rwa [← lastOf_of_ne_nil none hne, ← lastOf_append, ← lastOf_append, ← List.append_assoc,
          lastOf_of_ne_nil none (by simp [hne])] at hends
    · cases h

/-- Where the parts of a read are, one is found. -/
theorem ReadParts.Fits.readAt?_ne_none {q : ReadParts} {rest : List Char}
    (h : q.Fits name fields before rest.head?) :
    readAt? name fields before (q.text name ++ rest) ≠ none := by
  have hhead : (q.text name ++ rest).head? = (q.text name).head? :=
    List.head?_append_of_ne_nil _ h.text_ne_nil
  have hname : Text.stripPrefix? name.toList (q.text name ++ rest) =
      some (q.blanks ++ (q.access ++ (q.inner ++ (q.field.toList ++ rest)))) := by
    rw [ReadParts.text, ReadParts.tail]
    simp only [List.append_assoc]
    exact Text.stripPrefix?_append _ _
  have haccess : ∀ rest, accessAt? (q.access ++ rest) = some (q.access, rest) := by
    intro rest
    rcases h.access with haccess | haccess <;> rw [haccess] <;> rfl
  have hne : q.access ≠ [] := by rcases h.access with haccess | haccess <;> simp [haccess]
  have hends : Text.boundary (lastOf (lastOf q.access.getLast? q.inner) q.field.toList)
      rest.head? = true := by
    rw [← lastOf_of_ne_nil none hne, ← lastOf_append, ← lastOf_append,
      lastOf_of_ne_nil none (by simp [hne])]
    simpa [ReadParts.tail] using h.ends
  rw [readAt?, hname]
  simp only [hhead, h.starts, if_true]
  intro hnone
  have hnone := List.findSome?_eq_none_iff.1 hnone _ (mem_blankSplits.2 ⟨rfl, h.blanks⟩)
  simp only [haccess, Option.bind_some] at hnone
  have hnone := List.findSome?_eq_none_iff.1 hnone _ (mem_blankSplits.2 ⟨rfl, h.inner⟩)
  rw [Option.map_eq_none_iff] at hnone
  exact fieldAt?_ne_none h.field hends hnone

/-! ### A text cut at its reads -/

/-- A text cut into its reads and characters at which none begins; `before` is the character in front
of the text. -/
inductive Cut (name : String) (fields : FieldNames) :
    (before : Option Char) → List Char → List Piece → Prop where
  | nil (before : Option Char) : Cut name fields before [] []
  | plain {before : Option Char} {c : Char} {s : List Char} {ps : List Piece}
      (hnone : readAt? name fields before (c :: s) = none) (hrest : Cut name fields (some c) s ps) :
      Cut name fields before (c :: s) (.plain c :: ps)
  | read {before : Option Char} {q : ReadParts} {s : List Char} {ps : List Piece}
      (hfits : q.Fits name fields before s.head?)
      (hrest : Cut name fields (lastOf before (q.text name)) s ps) :
      Cut name fields before (q.text name ++ s) (.read ⟨q.text name, q.field⟩ :: ps)

/-- The pieces are cut from what is left when the last read is passed over. -/
theorem cut_piecesFrom (name : String) (fields : FieldNames) (skip : Nat) (before : Option Char)
    (s : List Char) (h : skip ≤ s.length) :
    Cut name fields (lastOf before (s.take skip)) (s.drop skip)
      (piecesFrom name fields skip before s) := by
  induction s generalizing skip before with
  | nil =>
      obtain rfl : skip = 0 := by simpa using h
      exact .nil before
  | cons c s ih =>
      cases skip with
      | succ skip =>
          rw [piecesFrom, List.take_succ_cons, List.drop_succ_cons, lastOf_cons]
          exact ih skip (some c) (by simpa using h)
      | zero =>
          rw [piecesFrom, List.take_zero, List.drop_zero, lastOf_nil]
          split
          · rename_i r hread
            obtain ⟨q, rest, rfl, hs, hfits⟩ := readAt?_ok hread
            obtain ⟨c', t, ht⟩ := List.exists_cons_of_ne_nil hfits.text_ne_nil
            have hcs : c' = c ∧ t ++ rest = s := by
              rw [ht, List.cons_append, List.cons.injEq] at hs
              exact ⟨hs.1.symm, hs.2.symm⟩
            obtain ⟨rfl, rfl⟩ := hcs
            have hrest := ih t.length (some c') (by simp)
            rw [List.take_left, List.drop_left, ← lastOf_cons before, ← ht] at hrest
            rw [hs]
            simpa [ht] using Cut.read hfits hrest
          · rename_i hnone
            have hrest := ih 0 (some c) (Nat.zero_le _)
            rw [List.take_zero, List.drop_zero, lastOf_nil] at hrest
            exact .plain hnone hrest

/-- **The pieces of a text** are its reads and what is between them. -/
theorem cut_pieces (name : String) (fields : FieldNames) (s : List Char) :
    Cut name fields none s (pieces name fields s) :=
  cut_piecesFrom name fields 0 none s (Nat.zero_le _)

/-! ### Texts with a read -/

/-- A read begins where a text does, or behind its first character. -/
theorem hasReadAfter_cons {c : Char} (h : HasReadAfter name fields before (c :: s)) :
    readAt? name fields before (c :: s) ≠ none ∨ HasReadAfter name fields (some c) s := by
  obtain ⟨q, front, rest, hs, hfits⟩ := h
  cases front with
  | nil =>
      left
      rw [List.nil_append] at hs
      rw [hs]
      exact hfits.readAt?_ne_none
  | cons c' front =>
      right
      rw [List.cons_append, List.cons_append, List.cons.injEq] at hs
      obtain ⟨rfl, hs⟩ := hs
      rw [lastOf_cons] at hfits
      exact ⟨q, front, rest, hs, hfits⟩

theorem not_hasReadAfter_nil : ¬HasReadAfter name fields before [] := by
  rintro ⟨q, front, rest, hs, hfits⟩
  simp [hfits.text_ne_nil] at hs

/-- There is a read in a text exactly if one is among its pieces. -/
theorem Cut.hasReadAfter_iff {ps : List Piece} (h : Cut name fields before s ps) :
    HasReadAfter name fields before s ↔ ∃ r, Piece.read r ∈ ps := by
  induction h with
  | nil before => simp [not_hasReadAfter_nil]
  | @plain before c s ps hnone hrest ih =>
      have hmem : ∀ r, Piece.read r ∈ Piece.plain c :: ps ↔ Piece.read r ∈ ps := by simp
      simp only [hmem, ← ih]
      constructor
      · intro h
        exact (hasReadAfter_cons h).resolve_left fun hread => hread hnone
      · rintro ⟨q, front, rest, rfl, hfits⟩
        exact ⟨q, c :: front, rest, rfl, by rwa [lastOf_cons]⟩
  | @read before q s ps hfits hrest ih =>
      constructor
      · intro _
        exact ⟨_, List.mem_cons_self⟩
      · intro _
        exact ⟨q, [], s, rfl, hfits⟩

/-- Whether a piece is a read. -/
def Piece.isRead : Piece → Bool
  | read _ => true
  | plain _ => false

theorem hasRead_iff : HasRead name fields s ↔ (pieces name fields s).any Piece.isRead = true := by
  rw [HasRead, (cut_pieces name fields s).hasReadAfter_iff, List.any_eq_true]
  constructor
  · rintro ⟨r, hr⟩
    exact ⟨.read r, hr, rfl⟩
  · rintro ⟨piece, hpiece, hread⟩
    cases piece with
    | read r => exact ⟨r, hpiece⟩
    | plain c => cases hread

instance (name : String) (fields : FieldNames) (s : List Char) : Decidable (HasRead name fields s) :=
  decidable_of_iff _ hasRead_iff.symm

/-! ### Stretches put in the place of others -/

/-- A text with some stretches put in the place of others, as `R` allows it between the characters
around them; all that is between the stretches stays. -/
inductive Swaps (R : Option Char → List Char → Option Char → List Char → Prop) :
    (before : Option Char) → List Char → List Char → Prop where
  | nil (before : Option Char) : Swaps R before [] []
  | keep {before : Option Char} {c : Char} {s t : List Char} (h : Swaps R (some c) s t) :
      Swaps R before (c :: s) (c :: t)
  | swap {before : Option Char} {old new s t : List Char} (hswap : R before old s.head? new)
      (h : Swaps R (lastOf before old) s t) : Swaps R before (old ++ s) (new ++ t)

theorem Swaps.keepAll {R : Option Char → List Char → Option Char → List Char → Prop}
    {before : Option Char} (kept : List Char) (h : Swaps R (lastOf before kept) s t) :
    Swaps R before (kept ++ s) (kept ++ t) := by
  induction kept generalizing before with
  | nil => exact h
  | cons c kept ih =>
      rw [lastOf_cons] at h
      exact .keep (ih h)

end Cvar

end Upkeep
