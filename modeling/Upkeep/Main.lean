/-
**The command.**

The command reads its arguments, copies the part of the disk that it may need, runs, prints, and puts
the files that the run changed back in place.  Everything between is the library's.

The copied part is what lies below the current directory and below every argument that names
something.  Repositories are not looked into.

Main definitions:

* `Upkeep.Host.copyOf` — a copy of a part of the disk;
* `Upkeep.Host.restore` — the changes of a run, put in place;
* `main` — the command.
-/

import Upkeep.Bytes.Digest
import Upkeep.CommandLine.Run
import Upkeep.Cpp.Plain
import Upkeep.Pak.Archive

set_option relaxedAutoImplicit false
set_option autoImplicit false

namespace Upkeep

namespace Host

open Files

/-! ### Reading -/

/-- The names on the way to a place that is written without dots. -/
def namesOf (place : String) : Names := (Disk.segmentsOf place).filter (!·.isEmpty)

/-- The entries at and below a place, in front of those in `found`.  What cannot be read is left
out. -/
partial def entriesAt (place : String) (found : List (Names × Entry)) :
    IO (List (Names × Entry)) :=
  tryCatch (do
    let names := namesOf place
    let real ← IO.FS.realPath place
    if namesOf real.toString != names then return (names, Entry.link real.toString) :: found
    else if ← real.isDir then
      let inside ← real.readDir
      inside.toList.foldlM (fun all e => entriesAt (place ++ "/" ++ e.fileName) all)
        ((names, Entry.directory) :: found)
    else return (names, Entry.file (← IO.FS.readBinFile real)) :: found) fun _ => return found

/-- The places that do not lie below another one. -/
def outermost (places : List String) : List String :=
  places.eraseDups.filter fun p =>
    !places.any fun q => q != p && (namesOf q).isPrefixOf (namesOf p)

/-- A copy of the disk below some places, at home in a directory. -/
def copyOf (home : String) (places : List String) : IO Disk := do
  let entries ← (outermost (home :: places)).foldlM (fun found p => entriesAt p found) []
  return ⟨entries.reverse, namesOf home⟩

/-- The places that arguments name, written without dots. -/
def placesOf (args : List String) : IO (List String) := do
  let found ← args.mapM fun (a : String) =>
    tryCatch (do return [(← IO.FS.realPath a).toString]) fun _ => return []
  return found.flatten

/-- The variables of the environment. -/
def environment : IO (List (String × String)) := do
  let bytes ← IO.FS.readBinFile "/proc/self/environ"
  let settings := (Text.segments (· == 0) bytes.toList).map fun s => (Text.Utf8.decode s).toList
  return settings.filterMap fun s =>
    (Text.splitOnce? ['='] s).map fun (name, v) => (String.ofList name, String.ofList v)

/-! ### Writing -/

/-- Put the files and directories of a disk in place that another disk did not have like this. -/
def restore (before after : Disk) : IO PUnit := do
  for (names, e) in after.entries.reverse do
    if !(before.entry? names).any e.same then
      match e with
      | .file content =>
        IO.FS.createDirAll (Disk.pathOf names.dropLast).text
        IO.FS.writeBinFile (Disk.pathOf names).text content
      | .directory => IO.FS.createDirAll (Disk.pathOf names).text
      | .link _ => pure ()

/-- Whether an invocation asks questions. -/
def asks (i : CommandLine.Invocation) : Bool :=
  match i.command with
  | .cvars a => a.interactive
  | _ => false

/-- What is left of the standard input. -/
partial def answers : IO String := do
  let line ← (← IO.getStdin).getLine
  if line.isEmpty then return "" else return line ++ (← answers)

/-- What is said about arguments that are not understood. -/
def usage (e : CommandLine.UsageError) : String :=
  match e with
  | .displayHelp | .displayHelpOnMissingArgument =>
    "usage: ekit [options] <command> [arguments]\n\ncommands:\n" ++
      String.join (CommandLine.commandNames.map fun c => "  " ++ c ++ "\n")
  | .displayVersion => "ekit 0.1.0\n"
  | .unknownArgument => "error: unknown argument\n"
  | .missingRequiredArgument => "error: a required argument is missing\n"
  | .invalidValue | .valueValidation => "error: an argument has an invalid value\n"
  | .tooManyValues => "error: an argument has too many values\n"
  | .argumentConflict => "error: two arguments exclude each other\n"
  | .invalidSubcommand => "error: unknown command\n"
  | .missingSubcommand => "error: a command is missing\n"

end Host

end Upkeep

open Upkeep in
/-- The command: it answers 2 to arguments that it does not understand, 1 to a failure, and 101 when it
is stopped. -/
def main (args : List String) : IO UInt32 := do
  match CommandLine.parse args with
  | .error e =>
    IO.eprint (Host.usage e)
    return if [.displayHelp, .displayVersion].contains e then 0 else 2
  | .ok i =>
    let home := (← IO.currentDir).toString
    let disk ← Host.copyOf home (← Host.placesOf args)
    let stdout ← IO.getStdout
    let world : CommandLine.World :=
      { disk := disk
        environment := ← Host.environment
        repositories := []
        grammar := fun _ text => Cpp.Plain.tree text
        opener := .zip
        digest := Bytes.digest
        memory := .addressable
        input := ← (if Host.asks i then Host.answers else pure "")
        terminal := ← stdout.isTty }
    let (exit, console) := i.outcome world
    stdout.putStr console.output
    Host.restore disk console.disk
    match exit with
    | none => return 0
    | some (.failed f) =>
      IO.eprintln ("Error: " ++ f.message)
      return 1
    | some (.stopped s) =>
      IO.eprintln (reprStr s)
      return 101
