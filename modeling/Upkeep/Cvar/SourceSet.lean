/-
**The files that are searched for cvars.**

Every compiled file tells of a source root: the nearest directory above it with a certain name.  The
files below all source roots that have one of the wanted extensions are searched.  A checkout that
also holds assets, told by a marker beside its source root, has a directory of assets that is
searched in the same way.

Main definitions:

* `Upkeep.Cvar.sourceRoot?` — the source root of a file;
* `Upkeep.Cvar.sourceDirs` — the directories to search;
* `Upkeep.Cvar.allSources` — the files to search, in order.
-/

import Upkeep.Cvar.Settings
import Upkeep.Files.Walk
import Upkeep.Path.Normal

set_option relaxedAutoImplicit false
set_option autoImplicit false

namespace Upkeep

namespace Cvar

open Files

/-- The nearest directory above a file that has the given name. -/
def sourceRoot? (file : Path) (name : String) : Option Path :=
  file.ancestors.find? (·.fileName? == some name)

/-- The set of paths with one more. -/
def insertPath (p : Path) (ps : List Path) : List Path := Data.insertBy Path.compare p ps

/-- The directory of assets beside a source root, if there is one. -/
def assetDir? (d : Disk) (cfg : Settings) (root : Path) : Option Path :=
  root.parent?.bind fun checkout =>
    if d.exists? (checkout.join ⟨cfg.assetMarker⟩) then some (checkout.join ⟨cfg.assetDir⟩)
    else none

/-- The directories to search for the given compiled files. -/
def sourceDirs (d : Disk) (cfg : Settings) (compiled : List Path) : List Path :=
  compiled.foldl (fun dirs file =>
    match sourceRoot? file cfg.sourceRoot with
    | none => dirs
    | some root =>
      insertPath root (match assetDir? d cfg root with
        | some assets => insertPath assets dirs
        | none => dirs)) []

/-- The files to search for the given compiled files, without what the patterns describe. -/
def allSources (d : Disk) (cfg : Settings) (compiled : List Path) (ignore : List String) :
    Outcome (List Path) := do
  let walker ← Walker.ofTexts ignore cfg.extensions
  let found := (sourceDirs d cfg compiled).flatMap fun dir =>
    if d.isDirectory dir then walker.files d dir else []
  return found.foldl (fun ps p => insertPath (Path.normalize p.text) ps) []

@[simp] theorem sourceDirs_nil (d : Disk) (cfg : Settings) : sourceDirs d cfg [] = [] := rfl

end Cvar

end Upkeep
