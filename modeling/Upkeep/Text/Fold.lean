/-
**Letters of ASCII in any case.**

A pattern of ASCII characters is compared with a text without regard to case.  Two characters beyond
ASCII count as letters here: the long s for an s, and the sign of the kelvin for a k.

Main definitions:

* `Upkeep.Text.sameFold` — a character against a lower-case one;
* `Upkeep.Text.stripFoldPrefix?`, `Upkeep.Text.stripFoldSuffix?` — what is left when a pattern is
  taken off an end.
-/

set_option relaxedAutoImplicit false
set_option autoImplicit false

namespace Upkeep

namespace Text

/-- The lower-case ASCII letter that a character counts as, or the character itself. -/
def foldChar (c : Char) : Char :=
  if c == 'ſ' then 's' else if c == 'K' then 'k' else c.toLower

/-- Whether a character counts as the lower-case character `p`. -/
def sameFold (p c : Char) : Bool := foldChar c == p

/-- What follows a pattern in lower case when a text begins with it in any case. -/
def stripFoldPrefix? : (p s : List Char) → Option (List Char)
  | [], s => some s
  | _ :: _, [] => none
  | a :: p, c :: s => if sameFold a c then stripFoldPrefix? p s else none

/-- What precedes a pattern in lower case when a text ends with it in any case. -/
def stripFoldSuffix? (p s : List Char) : Option (List Char) :=
  (stripFoldPrefix? p.reverse s.reverse).map List.reverse

@[simp] theorem stripFoldPrefix?_nil (s : List Char) : stripFoldPrefix? [] s = some s := by
  cases s <;> rfl

end Text

end Upkeep
