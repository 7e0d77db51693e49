/-
**Paks with the same content.**

Paks are grouped by the digest of their bytes.  What does not open as an archive is passed over.
Groups come in the order of their first pak, and the paks of a group in the order given.  How bytes are
opened as an archive is left open, and so is how they are digested.

Main definitions:

* `Upkeep.Pak.Digest` — how bytes are digested;
* `Upkeep.Pak.group` — the groups of some contents;
* `Upkeep.Pak.duplicates` — the groups of paks;
* `Upkeep.Pak.renderGroups` — their text.
-/

import Upkeep.Files.Content
import Upkeep.Pak.Find

set_option relaxedAutoImplicit false
set_option autoImplicit false

namespace Upkeep

namespace Pak

open Files

/-- How bytes are digested. -/
abbrev Digest := ByteArray → String

/-- Digests with the paks that have them. -/
abbrev Groups := List (String × List Path)

/-- The groups with one more pak. -/
def Groups.add (g : Groups) (digest : String) (p : Path) : Groups :=
  if g.any (·.1 == digest) then
    g.map fun e => if e.1 == digest then (e.1, e.2 ++ [p]) else e
  else g ++ [(digest, [p])]

/-- The groups of paks with known digests. -/
def group (ps : List (String × Path)) : Groups := ps.foldl (fun g e => g.add e.1 e.2) []

/-- The digest of the bytes of a pak. -/
def digestOf (digest : Digest) (d : Disk) (p : Path) : Outcome (String × Path) :=
  (readContent d p).map fun c => (digest c.2, p)

/-- The groups of paks. -/
def duplicates (o : Opener) (digest : Digest) (d : Disk) (paks : List Path) : Outcome Groups := do
  let opening := paks.filter fun p => (openPak o d p).isOk
  return group (← opening.mapM (digestOf digest d))

/-- The lines about a group. -/
def groupLines (digest : String) : List Path → List String
  | [] => []
  | first :: rest =>
    ("BLAKE3 " ++ digest) :: first.text :: rest.map fun p => "DUPLICATE " ++ p.text

/-- The text of groups. -/
def renderGroups (g : Groups) : String :=
  Text.unlines (g.flatMap fun (digest, ps) => groupLines digest ps)

@[simp] theorem group_nil : group [] = [] := rfl

end Pak

end Upkeep
