/-
**Running the commands.**

Every command loads the settings, lets arguments win over them, and prints its report.  A dry run
prints what would be done.

Main definitions:

* `Upkeep.CommandLine.runCvars` and the runs of the other commands;
* `Upkeep.CommandLine.Invocation.run` — the run of an invocation;
* `Upkeep.CommandLine.Invocation.outcome` — its outcome in a world.
-/

import Upkeep.Audit.Landing
import Upkeep.Audit.Precompiled
import Upkeep.Audit.UniqueWords
import Upkeep.CommandLine.Completion
import Upkeep.CommandLine.World
import Upkeep.Configuration.Load
import Upkeep.Pak.Census
import Upkeep.Review.Report

set_option relaxedAutoImplicit false
set_option autoImplicit false

namespace Upkeep

namespace CommandLine

open Files Upkeep.Configuration

/-- The settings that hold in a world. -/
def settings (w : World) : Run Settings := attempt (load w.disk w.environment)

/-- Paths as they were written. -/
def pathsOf (ps : List String) : List Path := ps.map fun p => ⟨p⟩

/-! ### Cvars -/

/-- The editor for patches: the one that the environment names, or else that of the settings. -/
def editorOf (w : World) (cfg : Cvar.Settings) : String :=
  match w.setting? "EDITOR" with
  | some e => if Text.isBlankLine e then cfg.editor else e
  | none => cfg.editor

/-- The applier that puts patches into files.  No editor changes a patch; the command that always fails
fails here too. -/
def applierOf (editor : String) : Review.Applier :=
  .onDisk editor (if editor == "false" then some "exit status: 1" else none)

/-- The plan of a report on cvars. -/
def cvarPlan (r : Cvar.Request) (report : Review.ReportRequest) (jobs : Nat) : List String :=
  [ "build dir:   " ++ r.buildDir.text,
    "tu filter:   " ++ Text.Quoted.text r.fileFilter,
    "cvar filter: " ++ Text.Quoted.text report.filter,
    "jobs:        " ++ toString jobs,
    "text scan:   " ++ (if r.textScan then "true" else "false"),
    "mode:        " ++ (if report.migrate then "migrate" else "remove") ]

/-- Take over what a report showed and what it did to the disk. -/
def takeDesk {α : Type} (s : Review.Session α) (desk : Review.Desk) : Run α := do
  let (result, desk) := s.on desk
  print desk.output
  modify fun c => { c with disk := desk.workspace.disk }
  attempt result

/-- Report on cvars. -/
def runCvars (w : World) (i : Invocation) (a : CvarArgs) : Run PUnit := do
  let all ← settings w
  let cfg := all.cvars
  let request : Cvar.Request :=
    ⟨⟨w.expandHome (a.buildDir.getD cfg.buildDir)⟩, a.fileFilter, !a.noText, a.interactive⟩
  let report : Review.ReportRequest := ⟨a.cvarFilter, a.migrate, a.context⟩
  if i.dryRun then (cvarPlan request report (a.jobs.getD cfg.jobs)).forM printLine
  else
    let analysis ← attempt (Cvar.analyze w.grammar w.disk cfg all.ignorePatterns request)
    let color := !i.noColor && w.terminal
    let presenter : Review.Presenter :=
      if a.interactive then .reviewer color else .printer (if color then .color else .plain)
    takeDesk (Review.report presenter cfg report analysis)
      (.ofInput analysis.workspace w.input (applierOf (editorOf w cfg)))

/-! ### Audits -/

/-- Audit the inclusion of the precompiled header. -/
def runPrecompiled (w : World) (i : Invocation) (a : PrecompiledArgs) : Run PUnit := do
  let all ← settings w
  let root : Path := ⟨a.path.getD all.pch.src⟩
  let header := a.header.getD all.pch.header
  if !w.disk.isDirectory root then fail (.noSourceRoot root)
  else if i.dryRun then printLine ("Would check " ++ root.text ++ " for " ++ header)
  else
    let found ← attempt (Audit.misuses w.disk root header all.ignorePatterns)
    found.forM fun (p, m) => printLine (Text.padEnd 25 m.text ++ " " ++ p.text)

/-- The check that the arguments ask for, if they name a tree and a build file. -/
def givenCheck (a : HeaderArgs) : Outcome (Option Audit.HeaderCheck) :=
  match a.path, a.cmake with
  | some path, some cmake => do
    let subst ← a.substitutions.mapM Audit.substitution
    return some ⟨a.label, path, cmake, a.ignore, Audit.orderSubstitutions subst⟩
  | _, _ => return none

/-- Audit lists of headers. -/
def runHeaders (w : World) (i : Invocation) (a : HeaderArgs) : Run PUnit := do
  let checks ← match ← attempt (givenCheck a) with
    | some c => pure [c]
    | none => pure (← settings w).cmake.checks
  if checks.isEmpty then fail .noChecks
  else checks.forM fun c => do
    if i.dryRun then printLine ("Would check " ++ c.path ++ " against " ++ c.cmake)
    else print (← attempt (c.run w.disk)).render

/-- Find the words that occur once. -/
def runWords (w : World) (i : Invocation) (a : WordArgs) : Run PUnit := do
  let all ← settings w
  let root := a.root.getD all.uniqueWords.root
  let subpaths := if a.subpaths.isEmpty then all.uniqueWords.subpaths else a.subpaths
  let excludes := if a.excludes.isEmpty then all.uniqueWords.excludePrefixes else a.excludes
  if i.dryRun then printLine ("Would scan " ++ ", ".intercalate subpaths ++ " under " ++ root)
  else
    let index ← attempt (Audit.indexTree w.disk ⟨root⟩ subpaths all.ignorePatterns)
    print (Audit.renderUnique (index.unique excludes))

/-- Look up merged commits. -/
def runMerged (w : World) (i : Invocation) (a : MergedArgs) : Run PUnit := do
  let all ← settings w
  let base := a.base.getD all.merged.base
  let limit := all.merged.maxCommits
  if i.dryRun then
    printLine ("Would compare " ++ Audit.History.range base a.feature ++ " in " ++ a.repo)
  else
    let history ← attempt (w.repository ⟨a.repo⟩)
    let commits ← attempt (history.logBetween base a.feature (limit + 1))
    if limit < commits.length then fail (.tooManyCommits limit)
    else
      let baseLog ← attempt (history.log base)
      (Audit.landings commits.reverse baseLog).forM fun l => printLine l.render

/-! ### Paks -/

/-- Count the classes of entities on maps. -/
def runEntities (w : World) (i : Invocation) (paths : List String) : Run PUnit := do
  let all ← settings w
  let paks ← attempt (Pak.find w.disk all.ignorePatterns (pathsOf paths))
  if i.dryRun then printLine ("Would read " ++ toString paks.length ++ " paks")
  else print (← proceed (Pak.Inventory.maps.text w.memory w.opener w.disk paks))

/-- Count the keywords of scripts. -/
def runKeywords (w : World) (i : Invocation) (a : KeywordArgs) : Run PUnit := do
  let all ← settings w
  let paks ← attempt (Pak.collect w.disk all.ignorePatterns (pathsOf a.paths))
  if i.dryRun then
    printLine
      ("Would census ." ++ a.kind.extension ++ " scripts in " ++ toString paks.length ++ " paks")
  else
    let counted := Pak.Inventory.scripts a.kind a.anyDepth
    print (← proceed (counted.text w.memory w.opener w.disk paks))

/-- Find paks with the same content. -/
def runDuplicates (w : World) (i : Invocation) (paths : List String) : Run PUnit := do
  let all ← settings w
  let paks ← attempt (Pak.find w.disk all.ignorePatterns (pathsOf paths))
  if i.dryRun then printLine ("Would hash " ++ toString paks.length ++ " paks")
  else print (Pak.renderGroups (← attempt (Pak.duplicates w.opener w.digest w.disk paks)))

/-! ### New files -/

/-- The name of a new file of settings. -/
def settingsFile : Path := ⟨"enginekit.toml"⟩

/-- Write a new file of settings. -/
def runInit (w : World) (i : Invocation) (a : InitArgs) : Run PUnit := do
  let file := (⟨a.path⟩ : Path).join settingsFile
  if w.disk.exists? file && !a.force then fail (.settingsExist file)
  else if i.dryRun then printLine template
  else match w.disk.write? file template.toUTF8 with
    | none => fail .writeSettings
    | some d =>
      modify fun c => { c with disk := d }
      if !i.quiet then printLine ("Created config file at " ++ file.text)

/-- Write a completion script, or print it. -/
def runCompletions (w : World) (i : Invocation) (a : CompletionArgs) : Run PUnit := do
  match (if a.stdout then none else a.outDir) with
  | none => print a.shell.script
  | some out =>
    let dir : Path := ⟨out⟩
    if i.dryRun then
      printLine ("Would write " ++ a.shell.name ++ " completions into " ++ dir.text)
    else if w.disk.obstacle dir = .notDirectory then fail (.createDirectory dir)
    else match w.disk.makeDirectories dir with
      | none => fail (.createDirectory dir)
      | some d =>
        match d.write? (dir.join ⟨a.shell.fileName⟩) a.shell.script.toUTF8 with
        | none => fail .writeCompletions
        | some d => modify fun c => { c with disk := d }

/-! ### Invocations -/

/-- Run an invocation. -/
def Invocation.run (w : World) (i : Invocation) : Run PUnit :=
  match i.command with
  | .cvars a => runCvars w i a
  | .pchCheck a => runPrecompiled w i a
  | .cmakeHeaders a => runHeaders w i a
  | .mapEntities ps => runEntities w i ps
  | .scriptKeywords a => runKeywords w i a
  | .dupPaks ps => runDuplicates w i ps
  | .merged a => runMerged w i a
  | .uniqueWords a => runWords w i a
  | .init a => runInit w i a
  | .completions a => runCompletions w i a

/-- The outcome of an invocation: how it ended early, if it did, and what it leaves. -/
def Invocation.outcome (w : World) (i : Invocation) : Option Exit × Console :=
  match StateT.run (ExceptT.run (i.run w)) ⟨w.disk, []⟩ with
  | (.ok _, c) => (none, c)
  | (.error e, c) => (some e, c)

end CommandLine

end Upkeep
