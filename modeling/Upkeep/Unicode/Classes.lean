/-
**Character classes beyond ASCII.**

Blanks, word characters, cased characters and the characters that are skipped when the case of a
neighbour is looked for.  ASCII characters are decided by a comparison; all others by the tables.

Main definitions:

* `Upkeep.Unicode.isBlank` — the white space of the Unicode standard;
* `Upkeep.Unicode.isWord` — letters, marks, digits, connectors and joiners;
* `Upkeep.Unicode.isCased`, `Upkeep.Unicode.isCaseIgnorable` — the classes behind the final sigma.
-/

import Upkeep.Unicode.WordTable
import Upkeep.Unicode.CaseTable

set_option relaxedAutoImplicit false
set_option autoImplicit false

namespace Upkeep

namespace Unicode

/-! ### Tables -/

/-- Membership in a table of ranges. -/
def inRanges (table : List (Nat × Nat)) (n : Nat) : Bool :=
  table.any fun r => r.1 ≤ n && n ≤ r.2

/-! ### Classes -/

/-- White space: the ASCII blanks, the vertical tab, the next-line character, and the spaces and
separators of the Unicode standard. -/
def isBlank (c : Char) : Bool :=
  let n := c.toNat
  (9 ≤ n && n ≤ 13) || n == 0x20 || n == 0x85 || n == 0xA0 || n == 0x1680 ||
    (0x2000 ≤ n && n ≤ 0x200A) || n == 0x2028 || n == 0x2029 || n == 0x202F ||
    n == 0x205F || n == 0x3000

/-- The ASCII part of the word characters. -/
def isAsciiWord (c : Char) : Bool := c.isAlphanum || c == '_'

/-- Characters that words are made of. -/
def isWord (c : Char) : Bool :=
  if c.toNat < 0x80 then isAsciiWord c else inRanges wordRanges c.toNat

/-- Characters that have case. -/
def isCased (c : Char) : Bool :=
  if c.toNat < 0x80 then c.isAlpha else inRanges casedRanges c.toNat

/-- Characters that do not count when the case of a neighbour is looked for. -/
def isCaseIgnorable (c : Char) : Bool := inRanges caseIgnorableRanges c.toNat

@[simp] theorem isBlank_space : isBlank ' ' = true := rfl

@[simp] theorem isBlank_newline : isBlank '\n' = true := rfl

end Unicode

end Upkeep
