/-
**Blanks at the ends of a text.**

Trimming removes the white space of the Unicode standard.  A line is blank when nothing is left of
it.

Main definitions:

* `Upkeep.Text.trimStart`, `Upkeep.Text.trimChars` — on lists of characters;
* `Upkeep.Text.trim`, `Upkeep.Text.isBlankLine` — on texts.
-/

import Upkeep.Unicode.Classes

set_option relaxedAutoImplicit false
set_option autoImplicit false

namespace Upkeep

namespace Text

open Unicode

/-- The text without the members of a class at its end. -/
def dropEndWhile (p : Char → Bool) (s : List Char) : List Char :=
  (s.reverse.dropWhile p).reverse

/-- The text without the members of a class at either end. -/
def trimBoth (p : Char → Bool) (s : List Char) : List Char := dropEndWhile p (s.dropWhile p)

/-- The text without its leading blanks. -/
def trimStart (s : List Char) : List Char := s.dropWhile isBlank

/-- The text without blanks at either end. -/
def trimChars (s : List Char) : List Char := trimBoth isBlank s

/-- The text without blanks at either end. -/
def trim (s : String) : String := String.ofList (trimChars s.toList)

/-- A line with nothing but blanks on it. -/
def isBlankLine (s : String) : Bool := s.toList.all isBlank

@[simp] theorem trimChars_nil : trimChars [] = [] := rfl

@[simp] theorem isBlankLine_empty : isBlankLine "" = true := rfl

end Text

end Upkeep
