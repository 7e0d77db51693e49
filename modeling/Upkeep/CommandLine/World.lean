/-
**The world of a run.**

A run finds a disk, variables of the environment, repositories, a grammar for sources, ways to open
archives and to digest bytes, and the answers of whoever sits in front of it.  It prints, and it may
change the disk; both are kept when it fails or is stopped.

Main definitions:

* `Upkeep.CommandLine.World` — what a run finds;
* `Upkeep.CommandLine.Console`, `Upkeep.CommandLine.Run` — what a run leaves, and runs;
* `Upkeep.CommandLine.Exit` — how a run ends early;
* `Upkeep.CommandLine.print` — printed text;
* `Upkeep.CommandLine.World.expandHome` — paths that begin in the home directory.
-/

import Upkeep.Audit.History
import Upkeep.Compile.Program
import Upkeep.Files.Disk
import Upkeep.Pak.Duplicates

set_option relaxedAutoImplicit false
set_option autoImplicit false

namespace Upkeep

namespace CommandLine

open Files

/-- What a run finds. -/
structure World where
  disk : Disk
  environment : List (String × String)
  /-- The repositories by directory. -/
  repositories : List (Names × Audit.History)
  grammar : Compile.Grammar
  opener : Pak.Opener
  digest : Pak.Digest
  memory : Pak.Memory
  /-- The answers to questions. -/
  input : String
  /-- Whether the output is shown where colours can be. -/
  terminal : Bool

namespace World

/-- What a variable of the environment is set to. -/
def setting? (w : World) (name : String) : Option String :=
  (w.environment.find? (·.1 == name)).map Prod.snd

/-- A path with the home directory put in place of a tilde that is its first name. -/
def expandHome (w : World) (p : String) : String :=
  match w.setting? "HOME", p.toList with
  | some home, '~' :: rest =>
    if home.isEmpty || !(rest.isEmpty || rest.head? == some '/') then p
    else home ++ String.ofList rest
  | _, _ => p

/-- The repository that a directory belongs to. -/
def repository (w : World) (dir : Path) : Outcome Audit.History :=
  match w.disk.find? dir with
  | some (names, .directory) =>
    match w.repositories.find? fun (top, _) => top.isPrefixOf names with
    | some (_, h) => .ok h
    | none => .error .noRepository
  | _ => .error .noRepository

end World

/-- What a run leaves: the disk, and what was printed, latest first. -/
structure Console where
  disk : Disk
  printed : List String

/-- The text that was printed. -/
def Console.output (c : Console) : String := String.join c.printed.reverse

/-- How a run ends before it is done. -/
inductive Exit where
  | failed (f : Failure)
  | stopped (s : Stop)
deriving DecidableEq, Repr

/-- A run, which can fail and be stopped. -/
abbrev Run := ExceptT Exit (StateM Console)

/-- Print a text. -/
def print (text : String) : Run PUnit := modify fun c => { c with printed := text :: c.printed }

/-- Print a line. -/
def printLine (line : String) : Run PUnit := print (line ++ "\n")

/-- A run that fails. -/
def fail {α : Type} (f : Failure) : Run α := throw (.failed f)

/-- The result of an operation that can fail. -/
def attempt {α : Type} (x : Outcome α) : Run α :=
  match x with
  | .ok a => pure a
  | .error f => fail f

/-- The result of an operation that can be stopped. -/
def proceed {α : Type} (x : Stoppable α) : Run α :=
  match x with
  | .ok a => pure a
  | .error s => throw (.stopped s)

end CommandLine

end Upkeep
