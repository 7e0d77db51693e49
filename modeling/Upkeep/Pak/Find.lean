/-
**Finding paks.**

A pak is an archive whose name ends with one of two extensions.  Paks are looked for below
directories, in the order in which these are given; a list of paks is a text file with a pak on every
line.

Main definitions:

* `Upkeep.Pak.find` — the paks below some directories;
* `Upkeep.Pak.collect` — the paks below directories and in lists;
* `Upkeep.Pak.openPak` — the pak in a file.
-/

import Upkeep.Files.Walk
import Upkeep.Files.Workspace
import Upkeep.Pak.Opened

set_option relaxedAutoImplicit false
set_option autoImplicit false

namespace Upkeep

namespace Pak

open Files

/-- The extensions of paks. -/
def extensions : List String := ["pk3", "dpk"]

/-- The paks below some directories; what is no directory is passed over. -/
def find (d : Disk) (ignore : List String) (roots : List Path) : Outcome (List Path) := do
  let walker ← Walker.ofTexts ignore extensions
  return roots.flatMap fun root => if d.isDirectory root then walker.files d root else []

/-- The paks that a path stands for: those below a directory, or those in a list. -/
def collectOne (d : Disk) (ignore : List String) (p : Path) : Outcome (List Path) :=
  if d.isDirectory p then find d ignore [p]
  else (readLines d p).map fun ls => (ls.filter (!·.isEmpty)).map fun l => ⟨l⟩

/-- The paks that some paths stand for. -/
def collect (d : Disk) (ignore : List String) (ps : List Path) : Outcome (List Path) :=
  (ps.mapM (collectOne d ignore)).map List.flatten

/-- The pak in a file. -/
def openPak (o : Opener) (d : Disk) (p : Path) : Outcome Opened :=
  match d.find? p with
  | none => .error (.openPak p)
  | some (_, e) =>
    match e.content?.bind o with
    | some a => .ok a
    | none => .error (.badPak p)

@[simp] theorem collect_nil (d : Disk) (ignore : List String) : collect d ignore [] = .ok [] := rfl

end Pak

end Upkeep
