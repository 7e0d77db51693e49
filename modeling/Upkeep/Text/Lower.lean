/-
**Lower-case text.**

The full lower-case mapping of a text: every character by the simple mapping, with two exceptions.
The dotted capital I becomes two characters, and a capital sigma at the end of a word becomes the
final sigma.

Main definitions:

* `Upkeep.Text.lowerChar` — the simple mapping of one character;
* `Upkeep.Text.lowerChars`, `Upkeep.Text.lower` — the mapping of a text.
-/

import Upkeep.Unicode.Classes

set_option relaxedAutoImplicit false
set_option autoImplicit false

namespace Upkeep

namespace Text

open Unicode

/-! ### One character -/

/-- Whether a run of the lower-case table covers the character with code `n`. -/
def LowerRun.covers (r : LowerRun) (n : Nat) : Bool :=
  r.first ≤ n && n ≤ r.last && (n - r.first) % r.step == 0

/-- The simple lower-case form of a character; characters without one are their own. -/
def lowerChar (c : Char) : Char :=
  if c.toNat < 0x80 then c.toLower
  else match lowerRuns.find? (LowerRun.covers · c.toNat) with
    | some r => Char.ofNat (c.toNat + r.up - r.down)
    | none => c

/-! ### A text -/

/-- Whether the nearest character that is not ignorable has case. -/
def nearestCased (s : List Char) : Bool :=
  match s.dropWhile isCaseIgnorable with
  | [] => false
  | c :: _ => isCased c

/-- The lower-case form of `s`, where `before` holds the characters in front of it, nearest first.
A capital sigma is final when a cased character precedes it and none follows it. -/
def lowerAfter (before : List Char) : List Char → List Char
  | [] => []
  | c :: s =>
    let image :=
      if c.toNat = 0x130 then ['i', Char.ofNat 0x307]
      else if c.toNat = 0x3A3 then
        [if nearestCased before && !nearestCased s then Char.ofNat 0x3C2 else Char.ofNat 0x3C3]
      else [lowerChar c]
    image ++ lowerAfter (c :: before) s

/-- The lower-case form of a list of characters. -/
def lowerChars (s : List Char) : List Char := lowerAfter [] s

/-- The lower-case form of a text. -/
def lower (s : String) : String := String.ofList (lowerChars s.toList)

@[simp] theorem lowerChars_nil : lowerChars [] = [] := rfl

@[simp] theorem lower_empty : lower "" = "" := rfl

end Text

end Upkeep
