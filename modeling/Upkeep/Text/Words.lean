/-
**The words of a line.**

A word is a longest run of word characters.  Its place is the number of bytes in front of it, so
that it agrees with the columns of a syntax tree.

Main definitions:

* `Upkeep.Text.Word` — a run of word characters with its place;
* `Upkeep.Text.wordsFrom`, `Upkeep.Text.words` — the words of a line;
* `Upkeep.Text.boundary` — a place between a word character and none;
* `Upkeep.Text.standsAlone`, `Upkeep.Text.standsBehindBoundary` — a name between such places, or
  behind one.
-/

import Upkeep.Unicode.Classes

set_option relaxedAutoImplicit false
set_option autoImplicit false

namespace Upkeep

namespace Text

open Unicode

/-- A run of word characters, and the number of bytes in front of it. -/
structure Word where
  offset : Nat
  chars : List Char
deriving DecidableEq, Repr

/-- The text of a word. -/
def Word.text (w : Word) : String := String.ofList w.chars

/-- Close the word under construction, if there is one. -/
def closeWord (start : Nat) (current : List Char) (found : List Word) : List Word :=
  if current.isEmpty then found else ⟨start, current.reverse⟩ :: found

/-- The words of a line, latest first: `pos` counts the bytes passed, `start` and `current` hold the
word under construction. -/
def wordsFrom (pos start : Nat) (current : List Char) (found : List Word) :
    List Char → List Word
  | [] => closeWord start current found
  | c :: s =>
    if isWord c then
      wordsFrom (pos + c.utf8Size) (if current.isEmpty then pos else start) (c :: current) found s
    else
      wordsFrom (pos + c.utf8Size) start [] (closeWord start current found) s

/-- The words of a line, in order. -/
def words (line : String) : List Word := (wordsFrom 0 0 [] [] line.toList).reverse

/-! ### Boundaries -/

/-- Whether a place is a word boundary, given the characters on its two sides. -/
def boundary (before after : Option Char) : Bool :=
  (before.any isWord) != (after.any isWord)

/-- Whether `name` stands in `s` with a word boundary at both ends; `before` is the character in
front of `s`. -/
def standsAlone (name : List Char) (before : Option Char) : List Char → Bool
  | [] => name.isEmpty && boundary before none
  | c :: s =>
    (boundary before (some c) && name.isPrefixOf (c :: s) &&
      boundary (((c :: s).take name.length).getLast?.or before) ((c :: s).drop name.length).head?) ||
    standsAlone name (some c) s

/-- Whether `name` stands in `s` behind a word boundary; `before` is the character in front of `s`. -/
def standsBehindBoundary (name : List Char) (before : Option Char) : List Char → Bool
  | [] => name.isEmpty && boundary before none
  | c :: s =>
    (boundary before (some c) && name.isPrefixOf (c :: s)) || standsBehindBoundary name (some c) s

end Text

end Upkeep
