/-
**The files of a program.**

A compilation unit consists of its source and of the files that it includes, directly or through
others, as far as they belong to a given set of known files.  A program consists of the files of its
units, each once and in the order of first discovery.

An include is looked for beside the including file first and then along the include path of the unit;
the first candidate that is known is taken.

Main definitions:

* `Upkeep.Compile.resolveInclude?` — the file that an include means;
* `Upkeep.Compile.includeClosure` — the files of a unit, the source first;
* `Upkeep.Compile.programFiles` — the files of a program, each with the unit that it was found for;
* `Upkeep.Compile.parseProgram` — their syntax trees.
-/

import Upkeep.Compile.Database
import Upkeep.Cpp.Includes
import Upkeep.Cpp.Source
import Upkeep.Files.Workspace

set_option relaxedAutoImplicit false
set_option autoImplicit false

namespace Upkeep

namespace Compile

open Files

/-! ### Includes -/

/-- The file that an include means: the first known candidate, seen from the directories in order. -/
def resolveInclude? (known : List Path) (dirs : List Path) (name : String) : Option Path :=
  (dirs.map (Path.resolve · name)).find? (·.isIn known)

/-- The text of a source. -/
def readSource (d : Disk) (p : Path) : Outcome String :=
  match d.read? p with
  | some content => .ok (textOf content)
  | none => .error (.readSource p)

/-- The known files that a file includes, seen from its directory and from those of the include
path. -/
def knownIncludes (known includeDirs : List Path) (file : Path) (text : String) : List Path :=
  (Cpp.quotedIncludes text).filterMap
    (resolveInclude? known (file.parent?.getD ⟨""⟩ :: includeDirs))

/-- The files with those of a list that are not among them yet, in order. -/
def addNew (files : List Path) (more : List Path) : List Path :=
  more.foldl (fun fs p => if p.isIn fs then fs else fs ++ [p]) files

/-- The files reached so far: those in `done` were read, those in `waiting` were not.  Every file is
read once, so the budget need not be larger than their number. -/
def closeOver (d : Disk) (known includeDirs : List Path) :
    (budget : Nat) → (done waiting : List Path) → Outcome (List Path)
  | 0, done, waiting => .ok (done ++ waiting)
  | _, done, [] => .ok done
  | budget + 1, done, file :: waiting => do
    let text ← readSource d file
    let found := addNew (done ++ file :: waiting) (knownIncludes known includeDirs file text)
    closeOver d known includeDirs budget (done ++ [file]) (found.drop (done.length + 1))

/-- The files of a source: itself, and the known files it includes, directly or through others. -/
def includeClosure (d : Disk) (source : Path) (includeDirs known : List Path) :
    Outcome (List Path) :=
  closeOver d known includeDirs (known.length + 1) [] [source]

/-! ### Programs -/

/-- What is said of an obstacle behind the name of the file, if it is more than that there is no
such file. -/
def obstacleText : Disk.Obstacle → String
  | .missing => ""
  | .isDirectory => ": Is a directory (os error 21)"
  | .notDirectory => ": Not a directory (os error 20)"

/-- The failure of a unit whose files cannot all be read. -/
def CompilationUnit.failure (d : Disk) (u : CompilationUnit) : Failure → Failure
  | .readSource p =>
    .parseFailed u.source ((Failure.readSource p).message ++ obstacleText (d.obstacle p))
      u.givenArgs u.args
  | f => f

/-- The files of a unit. -/
def CompilationUnit.files (d : Disk) (known : List Path) (u : CompilationUnit) :
    Outcome (List Path) :=
  (includeClosure d u.source u.includeDirs known).mapError (u.failure d)

/-- The files of a program in the order of first discovery. -/
def programFiles (d : Disk) (known : List Path) (units : List CompilationUnit) :
    Outcome (List Path) := do
  return (← units.mapM (·.files d known)).foldl addNew []

/-- What the grammar makes of the text of a file. -/
abbrev Grammar := Path → String → Cpp.Node

/-- The syntax trees of a program in the order of first discovery of its files. -/
def parseProgram (grammar : Grammar) (d : Disk) (known : List Path)
    (units : List CompilationUnit) : Outcome (List Cpp.Source) := do
  (← programFiles d known units).mapM fun p => do
    let text ← readSource d p
    return ⟨p, text, grammar p text⟩

@[simp] theorem programFiles_nil (d : Disk) (known : List Path) :
    programFiles d known [] = .ok [] := rfl

end Compile

end Upkeep
