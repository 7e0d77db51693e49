/-
**Listings.**

The listing of a cvar gives its name, its display names in quotes, and a line for every mention: the
tag of its role, its place, and the text of its line without blanks at the ends.

Main definitions:

* `Upkeep.Cvar.listing` — the listing of a cvar.
-/

import Upkeep.Cvar.Record
import Upkeep.Files.Workspace
import Upkeep.Text.Blank

set_option relaxedAutoImplicit false
set_option autoImplicit false

namespace Upkeep

namespace Cvar

/-- The first line of a listing. -/
def listingHead (name : String) (r : Record) : String :=
  name ++ String.join (r.displayNames.map fun d => " \"" ++ d ++ "\"")

/-- The line of a listing for a mention on a line of the sources. -/
def mentionLine (m : Mention) (line : String) : String :=
  m.1.tag ++ " " ++ m.2.render ++ " " ++ Text.trim line

/-- The listing of a cvar. -/
def listing (name : String) (r : Record) : Files.Work String := do
  let body ← r.mentions.mapM fun m => do
    return mentionLine m ((← Files.heldLine m.2.file m.2.line).getD "")
  return Text.unlines (listingHead name r :: body)

end Cvar

end Upkeep
