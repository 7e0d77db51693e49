/-
**The precompiled header comes first.**

Every source has to include the precompiled header once, before all other headers.  A line that holds
the directive counts as an inclusion, and as one of the precompiled header if its name stands in the
line behind a word boundary, in any case.

Main definitions:

* `Upkeep.Audit.Misuse` — what can be wrong;
* `Upkeep.Audit.misuse?` — what is wrong in a text;
* `Upkeep.Audit.misuses` — what is wrong in the sources below a directory.
-/

import Upkeep.Files.Walk
import Upkeep.Files.Workspace
import Upkeep.Text.Lower
import Upkeep.Text.Words

set_option relaxedAutoImplicit false
set_option autoImplicit false

namespace Upkeep

namespace Audit

open Files

/-- What can be wrong with the inclusion of the precompiled header. -/
inductive Misuse where
  | notIncluded
  | multiplyIncluded
  | notFirst
deriving DecidableEq, Repr

/-- The wording of a misuse. -/
def Misuse.text : Misuse → String
  | notIncluded => "Not included"
  | multiplyIncluded => "Multiply included"
  | notFirst => "Not first"

/-- The directive that includes a file. -/
def directive : String := "#include"

/-- Whether a line names the header. -/
def namesHeader (header line : String) : Bool :=
  Text.standsBehindBoundary (Text.lowerChars header.toList) none (Text.lowerChars line.toList)

/-- Which of the inclusions, counted from zero, are of the header. -/
def inclusionsOf (header : String) (lines : List String) : List Nat :=
  ((lines.filter (Text.contains · directive)).zipIdx.filter fun (l, _) => namesHeader header l).map
    Prod.snd

/-- What is wrong, given which inclusions are of the header. -/
def misuseOf : List Nat → Option Misuse
  | [] => some .notIncluded
  | [0] => none
  | [_] => some .notFirst
  | _ => some .multiplyIncluded

/-- What is wrong in a text. -/
def misuse? (header : String) (lines : List String) : Option Misuse :=
  misuseOf (inclusionsOf header lines)

@[simp] theorem misuse?_nil (header : String) : misuse? header [] = some .notIncluded := rfl

/-- What is wrong in the sources below a directory. -/
def misuses (d : Disk) (root : Path) (header : String) (ignore : List String) :
    Outcome (List (Path × Misuse)) := do
  let walker ← Walker.ofTexts ignore ["cpp"]
  let found ← (walker.files d root).mapM fun p =>
    (readLines d p).map fun ls => (misuse? header ls).map fun m => (p, m)
  return found.filterMap id

end Audit

end Upkeep
