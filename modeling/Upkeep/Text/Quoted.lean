/-
**Quoted texts in messages.**

A message shows a text in double quotes.  Quotes and backslashes get a backslash, the common
controls have a letter, and every other character without a shape of its own is spelled by its
number in hexadecimal digits.

Main definitions:

* `Upkeep.Text.Quoted.char` — the spelling of one character;
* `Upkeep.Text.Quoted.text` — a text in quotes;
* `Upkeep.Text.Quoted.list` — a list of texts in brackets.
-/

import Upkeep.Unicode.Classes
import Upkeep.Unicode.EscapeTable

set_option relaxedAutoImplicit false
set_option autoImplicit false

namespace Upkeep

namespace Text

namespace Quoted

/-- Whether a character is spelled by its number. -/
def byNumber (c : Char) : Bool :=
  c.toNat < 0x20 || (0x7F ≤ c.toNat && Unicode.inRanges Unicode.escapedRanges c.toNat)

/-- The spelling of one character. -/
def char (c : Char) : String :=
  if c == '"' then "\\\""
  else if c == '\\' then "\\\\"
  else if c == '\n' then "\\n"
  else if c == '\r' then "\\r"
  else if c == '\t' then "\\t"
  else if c.toNat = 0 then "\\0"
  else if byNumber c then "\\u\x7b" ++ String.ofList (Nat.toDigits 16 c.toNat) ++ "\x7d"
  else String.singleton c

/-- A text in quotes. -/
def text (s : String) : String := "\"" ++ String.join (s.toList.map char) ++ "\""

/-- A list of texts, each in quotes. -/
def list (ss : List String) : String := "[" ++ ", ".intercalate (ss.map text) ++ "]"

end Quoted

end Text

end Upkeep
