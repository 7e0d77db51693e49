/-
**What can go wrong.**

Every failure of the library is a cause; its wording is given in one place.  Failures are of four
kinds that callers tell apart: a cvar ledger that cannot be trusted, a map file that cannot be read,
a pattern that is not well formed, and everything else.

A stop is no failure: it ends the program as a whole, and nobody is told.

Main definitions:

* `Upkeep.Failure` — the causes;
* `Upkeep.Failure.message` — their wording;
* `Upkeep.Outcome` — what comes of an operation that can fail;
* `Upkeep.Stop`, `Upkeep.Stoppable` — what ends the program, and operations that it can end.
-/

import Upkeep.Path.Basic
import Upkeep.Text.Quoted

set_option relaxedAutoImplicit false
set_option autoImplicit false

namespace Upkeep

/-- The causes of failure. -/
inductive Failure where
  /-- A text file could not be read. -/
  | readFile (path : Path)
  /-- A source file, or a list of sources, could not be read. -/
  | readSource (path : Path)
  /-- A file could not be looked up. -/
  | readMetadata (path : Path)
  /-- A directory walk was given a pattern that is not well formed. -/
  | badPattern
  /-- The build directory does not exist. -/
  | noBuildDirectory (dir : Path)
  /-- The build directory has no readable compile database. -/
  | readDatabase (path : Path)
  /-- The compile database does not have the expected form. -/
  | badDatabase
  /-- A settings file is not well formed. -/
  | loadSettings
  /-- A setting has a value of the wrong kind. -/
  | badSettings
  /-- A new settings file would replace an old one. -/
  | settingsExist (path : Path)
  /-- A new settings file could not be written. -/
  | writeSettings
  /-- A compilation unit could not be read. -/
  | parseFailed (source : Path) (reason : String) (given adjusted : List String)
  /-- A use found in the syntax trees lies outside the scanned sources. -/
  | outsideSources (path : Path)
  /-- An entry of a registration table does not have the expected shape. -/
  | malformedTable (file : Path) (line column : Nat) (reason : String)
  /-- A line that a patch expects does not exist. -/
  | lineNotFound (path : Path) (line : Nat)
  /-- A map file does not begin with its magic number. -/
  | mapHeader
  /-- A map file ends within its header. -/
  | mapTruncated
  /-- A map file has a version that is not known. -/
  | mapVersion (version : Nat)
  /-- A part of a map file lies outside the file. -/
  | mapLump (index : Nat)
  /-- A pak could not be opened. -/
  | openPak (path : Path)
  /-- A pak is not an archive. -/
  | badPak (path : Path)
  /-- A pak has no such entry. -/
  | badEntry (name : String)
  /-- An entry of a pak could not be unpacked. -/
  | readEntry (name : String)
  /-- A directory of sources does not exist. -/
  | noSourceRoot (path : Path)
  /-- There is no header audit to run. -/
  | noChecks
  /-- A substitution is not of the form `KEY=VALUE`. -/
  | notKeyValue (raw : String)
  /-- A branch is too far ahead of its base. -/
  | tooManyCommits (limit : Nat)
  /-- There is no repository to show a log of. -/
  | noRepository
  /-- A repository cannot show the log that is asked for. -/
  | gitLog (args : List String)
  /-- A directory could not be made. -/
  | createDirectory (dir : Path)
  /-- A completion script could not be written. -/
  | writeCompletions
  /-- An outside program failed with a message of its own. -/
  | other (message : String)
deriving DecidableEq, Repr

namespace Failure

/-- The wording of a failure. -/
def message : Failure → String
  | readFile path => "Failed to read file " ++ path.text
  | readSource path => "Failed to read " ++ path.text
  | readMetadata path => "Failed to read metadata for " ++ path.text
  | badPattern => "invalid glob"
  | noBuildDirectory dir => "Build directory not found: " ++ dir.text
  | readDatabase path => "Failed to read compilation database " ++ path.text
  | badDatabase => "Failed to parse compile_commands.json"
  | loadSettings => "Failed to load configuration"
  | badSettings => "Failed to parse configuration"
  | settingsExist path =>
    "Config file already exists at " ++ path.text ++ ". Use --force to overwrite."
  | writeSettings => "Failed to write config file"
  | parseFailed source reason given adjusted =>
    "failed to parse " ++ source.text ++ ": " ++ reason ++ "\n  original command line: "
      ++ Text.Quoted.list given ++ "\n  modified args: " ++ Text.Quoted.list adjusted
  | outsideSources path => "occurrence in " ++ path.text ++ " is outside the scanned source set"
  | malformedTable file _ column reason =>
    "malformed cvar table entry at " ++ file.text ++ ":" ++ toString column ++ ": " ++ reason
  | lineNotFound path line => "line " ++ toString line ++ " of " ++ path.text ++ " does not exist"
  | mapHeader => "invalid bsp header"
  | mapTruncated => "bsp data is truncated"
  | mapVersion version => "unsupported bsp version " ++ toString version
  | mapLump index => "bsp lump " ++ toString index ++ " out of bounds"
  | openPak path => "Couldn't open " ++ path.text
  | badPak path => "Bad zip header in " ++ path.text
  | badEntry name => "Bad zip entry " ++ name
  | readEntry name => "Failed to read " ++ name
  | noSourceRoot path => "Source root not found: " ++ path.text
  | noChecks =>
    "No checks configured; add [[cmake.checks]] to enginekit.toml or pass --path/--cmake"
  | notKeyValue raw => "Expected KEY=VALUE, got " ++ Text.Quoted.text raw
  | tooManyCommits limit =>
    "more than " ++ toString limit ++ " commits found. Wrong base branch?"
  | noRepository => "Failed to run git log"
  | gitLog args =>
    "git log " ++ " ".intercalate args ++ " failed: fatal: ambiguous argument '" ++
      args.getLastD "" ++ "': unknown revision or path not in the working tree.\n" ++
      "Use '--' to separate paths from revisions, like this:\n" ++
      "'git <command> [<revision>...] -- [<file>...]'"
  | createDirectory dir => "create " ++ dir.text
  | writeCompletions => "generate completion file"
  | other text => text

end Failure

/-- The outcome of an operation that can fail. -/
abbrev Outcome (α : Type) := Except Failure α

/-! ### Stops -/

/-- What stops the program as a whole, so that no caller can go on. -/
inductive Stop where
  /-- A number does not fit into its word. -/
  | overflow
  /-- A buffer of the size that is asked for cannot be had. -/
  | memory
deriving DecidableEq, Repr

/-- The result of an operation, unless the program stops on the way to it. -/
abbrev Stoppable (α : Type) := Except Stop α

end Upkeep
