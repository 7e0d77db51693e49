/-
**The analysis of a code base.**

An analysis reads the compile database of a build directory, finds the files to search and the files
of the program, walks their syntax trees, and records every use of a cvar in a ledger; writes are
attached to their cvars at the end, and the words of the searched files are added unless that is not
wanted.  What is left of the analysis is the ledger, the set of searched files, and the workspace,
which holds the texts of all files as they were then.

Main definitions:

* `Upkeep.Cvar.Request`, `Upkeep.Cvar.Analysis` — what is asked for, and the result;
* `Upkeep.Compile.Database.ofDirectory` — the compile database of a build directory;
* `Upkeep.Cvar.analyzeFiles`, `Upkeep.Cvar.analyze` — the analysis;
* `Upkeep.Cvar.Analysis.selected` — the cvars that a report is about.
-/

import Upkeep.Compile.Program
import Upkeep.Cvar.SourceSet
import Upkeep.Cvar.TextScan
import Upkeep.Cvar.Walk

set_option relaxedAutoImplicit false
set_option autoImplicit false

namespace Upkeep

/-- The compile database of a build directory. -/
def Compile.Database.ofDirectory (d : Files.Disk) (dir : Path) : Outcome Compile.Database := do
  let some buildDir := d.canonical? dir | .error (.noBuildDirectory dir)
  let file := buildDir.join ⟨"compile_commands.json"⟩
  match (d.read? file).bind fun content => Text.Utf8.decode? (Files.bytesOf content) with
  | some text => Compile.Database.ofJson buildDir text
  | none => .error (.readDatabase file)

namespace Cvar

open Files Compile

/-- What is asked of an analysis. -/
structure Request where
  buildDir : Path
  /-- Only sources whose path contains this are read. -/
  fileFilter : String
  /-- Whether words in texts count as mentions. -/
  textScan : Bool
  /-- Whether patches compare with the files as they are on the disk by then. -/
  rereads : Bool
deriving DecidableEq, Repr

/-- The result of an analysis. -/
structure Analysis where
  ledger : Ledger
  sources : List Path
  workspace : Workspace

/-- The workspace in which the texts of parsed files are held. -/
def holdSources (w : Workspace) (files : List Cpp.Source) : Workspace :=
  files.foldl (fun w f => w.hold f.path f.text) w

/-- The ledger of findings, with all writes attached. -/
def ledgerOf (findings : List Finding) : Ledger := (Ledger.empty.recordAll findings).resolveWrites

/-- The finished ledger: with the mentions in texts, if they are wanted, and without what table
entries account for. -/
def finish (cfg : Settings) (textScan : Bool) (sources : List Path) (l : Ledger) : Work Ledger := do
  if textScan then return (← l.textScan cfg.textDedup sources).1.scrub
  else return l.scrub

/-- The analysis of parsed files, given the files to search. -/
def analyzeFiles (d : Disk) (cfg : Settings) (r : Request) (sources : List Path)
    (files : List Cpp.Source) : Outcome Analysis := do
  let findings ← walkAll cfg files
  let (ledger, w) := (finish cfg r.textScan sources (ledgerOf findings)).on
    (holdSources (.ofDisk d r.rereads) files)
  return ⟨← ledger, sources, w⟩

/-- The analysis of a code base. -/
def analyze (grammar : Grammar) (d : Disk) (cfg : Settings) (ignore : List String) (r : Request) :
    Outcome Analysis := do
  let db ← Database.ofDirectory d r.buildDir
  let units := db.units r.fileFilter cfg.excludePaths
  let sources ← allSources d cfg (units.map (·.source)) ignore
  let files ← parseProgram grammar d sources units
  analyzeFiles d cfg r sources files

/-! ### Selection -/

/-- Whether a mention is in a source proper, not in a header. -/
def Mention.inSource (m : Mention) : Bool := m.2.file.extension? == some "cpp"

/-- Whether a cvar is in use by a source proper; all mentions found in the syntax trees have to lie in
the searched files. -/
def Analysis.usedBySource (a : Analysis) (r : Record) : Outcome Bool :=
  match r.parsedMentions.find? fun m => !m.2.file.isIn a.sources with
  | some m => .error (.outsideSources m.2.file)
  | none => .ok (r.parsedMentions.any Mention.inSource)

/-- The names of the cvars that a report is about: those that contain the filter, in any case, and
are in use by a source proper. -/
def Analysis.selected (a : Analysis) (filter : String) : Outcome (List String) := do
  let filter := Text.lowerChars filter.toList
  let named := a.ledger.symbols.filter fun s => Text.occursIn filter (Text.lowerChars s.1.toList)
  return (← named.filterM fun s => a.usedBySource s.2).map Prod.fst

end Cvar

end Upkeep
