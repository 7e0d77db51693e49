/-
**What the words of a line are.**

The scan for words reads a line once, with the word under construction in hand.  Here it is tied to
what a word is said to be: a run of word characters that nothing can be added to, at the number of
bytes in front of it.

Main definitions:

* `Upkeep.Text.WordAt`, `Upkeep.Text.WholeWord` — longest runs of word characters;
* `Upkeep.Text.StandsIn`, `Upkeep.Text.StandsBehind` — names between word boundaries, or behind one.

Main results:

* `Upkeep.Text.mem_words` — **the words of a line are its longest runs**;
* `Upkeep.Text.search_iff` — what a search finds that asks at each place;
* `Upkeep.Text.standsAlone_iff`, `Upkeep.Text.standsBehindBoundary_iff` — what the searches for such names
  find.
-/

import Upkeep.Text.Utf8
import Upkeep.Text.Words

set_option relaxedAutoImplicit false
set_option autoImplicit false

namespace Upkeep

namespace Text

open Unicode Utf8

/-! ### Widths -/

theorem Utf8.foldl_width (n : Nat) (s : List Char) :
    s.foldl (fun n c => n + c.utf8Size) n = n + width s := by
  induction s generalizing n with
  | nil => simp
  | cons c s ih =>
      rw [width, List.foldl_cons, List.foldl_cons, ih, ih]
      omega

theorem Utf8.width_cons (c : Char) (s : List Char) : width (c :: s) = c.utf8Size + width s := by
  rw [width, List.foldl_cons, foldl_width]
  omega

theorem Utf8.width_append (a b : List Char) : width (a ++ b) = width a + width b := by
  induction a with
  | nil => simp
  | cons c a ih =>
      rw [List.cons_append, width_cons, width_cons, ih]
      omega

theorem Utf8.width_reverse (s : List Char) : width s.reverse = width s := by
  induction s with
  | nil => rfl
  | cons c s ih =>
      rw [List.reverse_cons, width_append, width_cons, width_cons, ih, width_nil]
      omega

/-! ### Blanks -/

/-- No blank belongs to a word. -/
theorem isWord_of_isBlank {c : Char} (h : isBlank c = true) : isWord c = false := by
  have hblanks : ∀ n ∈ [9, 10, 11, 12, 13, 0x20, 0x85, 0xA0, 0x1680, 0x2000, 0x2001, 0x2002, 0x2003,
      0x2004, 0x2005, 0x2006, 0x2007, 0x2008, 0x2009, 0x200A, 0x2028, 0x2029, 0x202F, 0x205F, 0x3000],
      isWord (Char.ofNat n) = false := by
    decide +kernel
  rw [← Char.ofNat_toNat c]
  apply hblanks
  simp only [isBlank, Bool.or_eq_true, Bool.and_eq_true, decide_eq_true_eq, beq_iff_eq] at h
  simp only [List.mem_cons, List.not_mem_nil, or_false]
  omega

/-! ### Longest runs -/

/-- A longest run of word characters in a text that begins behind `place` bytes. -/
def WordAt (place : Nat) (s : List Char) (w : Word) : Prop :=
  ∃ before after, s = before ++ w.chars ++ after ∧ w.offset = place + width before ∧
    w.chars ≠ [] ∧ (∀ c ∈ w.chars, isWord c) ∧
    (∀ c ∈ before.getLast?, ¬ isWord c) ∧ (∀ c ∈ after.head?, ¬ isWord c)

/-- A whole word of a line. -/
def WholeWord (line : String) (w : Word) : Prop := WordAt 0 line.toList w

/-- A text of word characters is its only word. -/
theorem wordAt_of_all {place : Nat} {s : List Char} {w : Word} (hs : ∀ c ∈ s, isWord c) :
    WordAt place s w ↔ s ≠ [] ∧ w = ⟨place, s⟩ := by
  constructor
  · rintro ⟨before, after, rfl, hoff, hne, -, hb, ha⟩
    have hbefore : before = [] := by
      rcases List.eq_nil_or_concat before with h | ⟨b, c, rfl⟩
      · exact h
      · exact absurd (hs c (by simp)) (hb c (by simp))
    have hafter : after = [] := by
      cases after with
      | nil => rfl
      | cons c a => exact absurd (hs c (by simp)) (ha c (by simp))
    subst hbefore hafter
    obtain ⟨offset, chars⟩ := w
    simp_all
  · rintro ⟨hne, rfl⟩
    exact ⟨[], [], by simp, by simp, hne, hs, by simp, by simp⟩

/-- A character that is in no word parts the words in front of it from those behind it. -/
theorem wordAt_append_cons {place : Nat} {s t : List Char} {c : Char} {w : Word}
    (hc : ¬ isWord c) :
    WordAt place (s ++ c :: t) w ↔
      WordAt place s w ∨ WordAt (place + width s + c.utf8Size) t w := by
  constructor
  · rintro ⟨before, after, hs, hoff, hne, hw, hb, ha⟩
    rw [List.append_assoc] at hs
    rcases List.append_eq_append_iff.1 hs with ⟨gap, hbefore, ht⟩ | ⟨gap, hsplit, hword⟩
    · -- The word begins behind the character, which is in front of the gap or its head.
      cases gap with
      | nil =>
          obtain ⟨d, chars, hcons⟩ := List.exists_cons_of_ne_nil hne
          rw [hcons, List.nil_append, List.cons_append, List.cons.injEq] at ht
          exact absurd (hw c (by simp [hcons, ht.1])) hc
      | cons d gap =>
          rw [List.cons_append, List.cons.injEq] at ht
          obtain ⟨rfl, rfl⟩ := ht
          refine .inr ⟨gap, after, by simp, ?_, hne, hw, fun x hx => hb x ?_, ha⟩
          · rw [hoff, hbefore, width_append, width_cons]
            omega
          · simp_all [List.getLast?_append, List.getLast?_cons]
    · rcases List.append_eq_append_iff.1 hword with ⟨rest, hrest, hafter⟩ | ⟨rest, hrest, hct⟩
      · exact .inl ⟨before, rest, by simp_all, hoff, hne, hw, hb, fun x hx => ha x (by simp_all)⟩
      · cases rest with
        | nil => exact .inl ⟨before, [], by simp_all, hoff, hne, hw, hb, by simp⟩
        | cons d rest =>
            rw [List.cons_append, List.cons.injEq] at hct
            exact absurd (hw c (by simp [hrest, hct.1])) hc
  · rintro (⟨before, after, rfl, hoff, hne, hw, hb, ha⟩ | ⟨before, after, rfl, hoff, hne, hw, hb, ha⟩)
    · refine ⟨before, after ++ c :: t, by simp, hoff, hne, hw, hb, ?_⟩
      cases after with
      | nil => simpa using hc
      | cons d after => simpa using ha
    · refine ⟨s ++ c :: before, after, by simp, ?_, hne, hw, ?_, ha⟩
      · rw [hoff, width_append, width_cons]
        omega
      · rcases List.eq_nil_or_concat before with rfl | ⟨front, d, rfl⟩
        · simpa using hc
        · simpa [List.getLast?_append, List.getLast?_cons] using hb

/-! ### The scan -/

theorem mem_closeWord {start : Nat} {current : List Char} {found : List Word} {w : Word} :
    w ∈ closeWord start current found ↔
      w ∈ found ∨ (current ≠ [] ∧ w = ⟨start, current.reverse⟩) := by
  cases current <;> simp [closeWord, or_comm]

/-- The scan finds the words of what it has in hand and what is still to come. -/
theorem mem_wordsFrom {pos start : Nat} (place : Nat) {current s : List Char} {found : List Word} {w : Word}
    (hcur : ∀ c ∈ current, isWord c) (hstart : current ≠ [] → start = place)
    (hpos : pos = place + width current) :
    w ∈ wordsFrom pos start current found s ↔
      w ∈ found ∨ WordAt place (current.reverse ++ s) w := by
  induction s generalizing pos start place current found with
  | nil =>
      rw [wordsFrom, mem_closeWord, List.append_nil, wordAt_of_all (by simpa using hcur)]
      cases current <;> simp_all
  | cons c s ih =>
      rw [wordsFrom]
      split
      · rename_i hc
        have hcur' : ∀ d ∈ c :: current, isWord d := by simpa [hc] using hcur
        have hstart' : (if current.isEmpty = true then pos else start) = place := by
          cases current <;> simp_all
        have hpos' : pos + c.utf8Size = place + width (c :: current) := by
          rw [width_cons]
          omega
        rw [ih place hcur' (fun _ => hstart') hpos']
        simp
      · rename_i hc
        have hrev : ∀ d ∈ current.reverse, isWord d := by simpa using hcur
        rw [ih (pos + c.utf8Size) (by simp) (by simp) (by simp), mem_closeWord,
          wordAt_append_cons hc, wordAt_of_all hrev, width_reverse, ← hpos, or_assoc]
        cases current <;> simp_all

/-- **The words of a line are its longest runs** of word characters. -/
theorem mem_words {line : String} {w : Word} : w ∈ words line ↔ WholeWord line w := by
  rw [words, List.mem_reverse, mem_wordsFrom 0 (by simp) (by simp) (by simp)]
  simp [WholeWord]

instance (line : String) (w : Word) : Decidable (WholeWord line w) := decidable_of_iff _ mem_words

/-! ### Names between boundaries -/

/-- A name stands in a text with a word boundary at both ends; `before` is the character in front of the
text. -/
def StandsIn (name : List Char) (before : Option Char) (s : List Char) : Prop :=
  ∃ front back, s = front ++ name ++ back ∧
    boundary (front.getLast?.or before) (name ++ back).head? = true ∧
    boundary ((front ++ name).getLast?.or before) back.head? = true

theorem getLast?_cons_or (c : Char) (s : List Char) (before : Option Char) :
    (c :: s).getLast?.or before = s.getLast?.or (some c) := by
  rw [List.getLast?_cons]
  cases s.getLast? <;> rfl

/-- What a search finds that asks at each place of a text, with the character in front of this place. -/
theorem search_iff (P : Option Char → List Char → Prop) (search : Option Char → List Char → Bool)
    (done : ∀ before, search before [] = true ↔ P before [])
    (next : ∀ before c s, search before (c :: s) = true ↔ P before (c :: s) ∨ search (some c) s = true)
    (before : Option Char) (s : List Char) :
    search before s = true ↔ ∃ front rest, s = front ++ rest ∧ P (front.getLast?.or before) rest := by
  induction s generalizing before with
  | nil =>
      rw [done]
      constructor
      · intro h
        exact ⟨[], [], rfl, h⟩
      · rintro ⟨front, rest, hs, h⟩
        obtain ⟨rfl, rfl⟩ := List.append_eq_nil_iff.1 hs.symm
        exact h
  | cons c s ih =>
      rw [next, ih]
      constructor
      · rintro (h | ⟨front, rest, rfl, h⟩)
        · exact ⟨[], c :: s, rfl, h⟩
        · exact ⟨c :: front, rest, rfl, by rwa [getLast?_cons_or]⟩
      · rintro ⟨front, rest, hs, h⟩
        cases front with
        | nil =>
            obtain rfl : c :: s = rest := hs
            exact .inl h
        | cons d front =>
            obtain ⟨rfl, rfl⟩ := List.cons.inj hs
            rw [getLast?_cons_or] at h
            exact .inr ⟨front, rest, rfl, h⟩

/-- What the search for a name between word boundaries finds. -/
theorem standsAlone_iff {name s : List Char} {before : Option Char} :
    standsAlone name before s = true ↔ StandsIn name before s := by
  rw [search_iff (fun before rest => boundary before rest.head? = true ∧ ∃ back, rest = name ++ back ∧
    boundary (name.getLast?.or before) back.head? = true) (standsAlone name), StandsIn]
  · constructor
    · rintro ⟨front, rest, rfl, hstart, back, rfl, hend⟩
      exact ⟨front, back, by rw [List.append_assoc], hstart, by rwa [List.getLast?_append, Option.or_assoc]⟩
    · rintro ⟨front, back, rfl, hstart, hend⟩
      rw [List.getLast?_append, Option.or_assoc] at hend
      exact ⟨front, name ++ back, by rw [List.append_assoc], hstart, back, rfl, hend⟩
  · intro before
    rw [standsAlone, Bool.and_eq_true, List.isEmpty_iff]
    constructor
    · rintro ⟨rfl, hbefore⟩
      exact ⟨hbefore, [], rfl, hbefore⟩
    · rintro ⟨hbefore, back, hback, -⟩
      exact ⟨(List.append_eq_nil_iff.1 hback.symm).1, hbefore⟩
  · intro before c s
    rw [standsAlone, Bool.or_eq_true, Bool.and_eq_true, Bool.and_eq_true, List.isPrefixOf_iff_prefix,
      and_assoc]
    refine or_congr_left (and_congr_right fun _ => ?_)
    constructor
    · rintro ⟨⟨back, hback⟩, hend⟩
      rw [← hback, List.take_left, List.drop_left] at hend
      exact ⟨back, hback.symm, hend⟩
    · rintro ⟨back, hback, hend⟩
      rw [hback, List.take_left, List.drop_left]
      exact ⟨List.prefix_append _ _, hend⟩

instance (name : List Char) (before : Option Char) (s : List Char) : Decidable (StandsIn name before s) :=
  decidable_of_iff _ standsAlone_iff

/-- A name stands in a text behind a word boundary; `before` is the character in front of the text. -/
def StandsBehind (name : List Char) (before : Option Char) (s : List Char) : Prop :=
  ∃ front back, s = front ++ name ++ back ∧ boundary (front.getLast?.or before) (name ++ back).head? = true

/-- What the search for a name behind a word boundary finds. -/
theorem standsBehindBoundary_iff {name s : List Char} {before : Option Char} :
    standsBehindBoundary name before s = true ↔ StandsBehind name before s := by
  rw [search_iff (fun before rest => boundary before rest.head? = true ∧ name <+: rest)
    (standsBehindBoundary name), StandsBehind]
  · constructor
    · rintro ⟨front, rest, rfl, hstart, back, rfl⟩
      exact ⟨front, back, by rw [List.append_assoc], hstart⟩
    · rintro ⟨front, back, rfl, hstart⟩
      exact ⟨front, name ++ back, by rw [List.append_assoc], hstart, List.prefix_append _ _⟩
  · intro before
    rw [standsBehindBoundary, Bool.and_eq_true, List.isEmpty_iff, List.prefix_nil, and_comm]
    rfl
  · intro before c s
    rw [standsBehindBoundary, Bool.or_eq_true, Bool.and_eq_true, List.isPrefixOf_iff_prefix]
    rfl

end Text

end Upkeep
