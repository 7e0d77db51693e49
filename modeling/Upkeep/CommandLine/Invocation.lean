/-
**The commands.**

An invocation names a command and gives its arguments; some flags belong to all commands and may stand
in front of the command or behind it.

Main definitions:

* `Upkeep.CommandLine.Command` — the commands with their arguments;
* `Upkeep.CommandLine.Invocation` — a command with the flags of all commands;
* `Upkeep.CommandLine.parse` — the invocation that arguments stand for.
-/

import Upkeep.CommandLine.Reading
import Upkeep.Pak.Script

set_option relaxedAutoImplicit false
set_option autoImplicit false

namespace Upkeep

namespace CommandLine

/-! ### Commands -/

/-- The arguments for reports on cvars. -/
structure CvarArgs where
  buildDir : Option String
  fileFilter : String
  jobs : Option Nat
  cvarFilter : String
  noText : Bool
  interactive : Bool
  migrate : Bool
  context : Nat
deriving DecidableEq, Repr

/-- The arguments for the audit of precompiled headers. -/
structure PrecompiledArgs where
  path : Option String
  header : Option String
deriving DecidableEq, Repr

/-- The arguments for the audit of header lists. -/
structure HeaderArgs where
  label : String
  path : Option String
  cmake : Option String
  ignore : List String
  substitutions : List String
deriving DecidableEq, Repr

/-- The arguments for the census of script keywords. -/
structure KeywordArgs where
  kind : Pak.Script.Kind
  paths : List String
  anyDepth : Bool
deriving DecidableEq, Repr

/-- The arguments for the look-up of merged commits. -/
structure MergedArgs where
  feature : String
  base : Option String
  repo : String
deriving DecidableEq, Repr

/-- The arguments for the search for words that occur once. -/
structure WordArgs where
  root : Option String
  subpaths : List String
  excludes : List String
deriving DecidableEq, Repr

/-- The arguments for a new file of settings. -/
structure InitArgs where
  path : String
  force : Bool
deriving DecidableEq, Repr

/-- The shells that have completions. -/
inductive Shell where
  | bash
  | elvish
  | fish
  | powershell
  | zsh
deriving DecidableEq, Repr

/-- The name of a shell. -/
def Shell.name : Shell → String
  | bash => "bash"
  | elvish => "elvish"
  | fish => "fish"
  | powershell => "powershell"
  | zsh => "zsh"

/-- All shells. -/
def Shell.all : List Shell := [.bash, .elvish, .fish, .powershell, .zsh]

/-- The shell with a name. -/
def Shell.ofName? (s : String) : Option Shell := Shell.all.find? (·.name == s)

/-- The arguments for completions. -/
structure CompletionArgs where
  shell : Shell
  outDir : Option String
  stdout : Bool
deriving DecidableEq, Repr

/-- The commands with their arguments. -/
inductive Command where
  | cvars (args : CvarArgs)
  | pchCheck (args : PrecompiledArgs)
  | cmakeHeaders (args : HeaderArgs)
  | mapEntities (paths : List String)
  | scriptKeywords (args : KeywordArgs)
  | dupPaks (paths : List String)
  | merged (args : MergedArgs)
  | uniqueWords (args : WordArgs)
  | init (args : InitArgs)
  | completions (args : CompletionArgs)
deriving DecidableEq, Repr

/-- A command with the flags of all commands. -/
structure Invocation where
  noColor : Bool
  quiet : Bool
  dryRun : Bool
  verbose : Nat
  command : Command
deriving DecidableEq, Repr

/-! ### Grammars -/

/-- The flags of all commands. -/
def commonOptions : List Parameter :=
  [⟨"no-color", .flag, none⟩, ⟨"quiet", .flag, none⟩, ⟨"dry-run", .flag, none⟩,
    ⟨"verbose", .count, none⟩]

/-- The option that asks for help. -/
def helpOption : Parameter := ⟨"help", .help, some 'h'⟩

/-- The options of a command besides the flags of all commands. -/
def withCommon (options : List Parameter) : List Parameter :=
  options ++ commonOptions ++ [helpOption]

/-- The grammar of reports on cvars. -/
def cvarGrammar : Grammar where
  options := withCommon [
    ⟨"build-dir", .single .path, some 'b'⟩,
    ⟨"file-filter", .single .text, some 'f'⟩,
    ⟨"jobs", .single .number, some 'j'⟩,
    ⟨"cvar-filter", .single .text, some 'v'⟩,
    ⟨"no-text", .flag, some 'T'⟩,
    ⟨"interactive", .flag, some 'p'⟩,
    ⟨"migrate", .flag, some 'm'⟩,
    ⟨"context", .single .number, none⟩]

/-- The grammar of the audit of precompiled headers. -/
def precompiledGrammar : Grammar where
  options := withCommon [⟨"header", .single .text, none⟩]
  operands := [⟨"path", .single .path, none⟩]

/-- The grammar of the audit of header lists. -/
def headerGrammar : Grammar where
  options := withCommon [
    ⟨"name", .single .text, none⟩,
    ⟨"path", .single .path, none⟩,
    ⟨"cmake", .single .path, none⟩,
    ⟨"ignore", .many .text, none⟩,
    ⟨"subst", .many .text, none⟩]
  needs := [("path", "cmake"), ("cmake", "path")]

/-- The grammar of the commands that are given paths. -/
def pathsGrammar : Grammar where
  options := withCommon []
  operands := [⟨"paths", .many .path, none⟩]
  required := ["paths"]

/-- The grammar of the census of script keywords. -/
def keywordGrammar : Grammar where
  options := withCommon [⟨"any-depth", .flag, none⟩]
  operands := [
    ⟨"kind", .single (.choice ["shader", "particle", "trail"]), none⟩,
    ⟨"paths", .many .path, none⟩]
  required := ["kind", "paths"]

/-- The grammar of the look-up of merged commits. -/
def mergedGrammar : Grammar where
  options := withCommon [⟨"repo", .single .path, none⟩]
  operands := [⟨"feature", .single .text, none⟩, ⟨"base", .single .text, none⟩]
  required := ["feature"]

/-- The grammar of the search for words that occur once. -/
def wordGrammar : Grammar where
  options := withCommon [⟨"subpath", .many .text, none⟩, ⟨"exclude", .many .text, none⟩]
  operands := [⟨"root", .single .path, none⟩]

/-- The grammar of new files of settings. -/
def initGrammar : Grammar where
  options := withCommon [⟨"force", .flag, none⟩]
  operands := [⟨"path", .single .path, none⟩]

/-- The grammar of completions. -/
def completionGrammar : Grammar where
  options := withCommon [⟨"out-dir", .single .path, none⟩, ⟨"stdout", .flag, none⟩]
  operands := [⟨"shell", .single (.choice (Shell.all.map Shell.name)), none⟩]
  required := ["shell"]
  excludes := [("out-dir", "stdout")]

/-- The commands by name, with their grammars. -/
def commandGrammars : List (String × Grammar) :=
  [("cvars", cvarGrammar), ("pch-check", precompiledGrammar), ("cmake-headers", headerGrammar),
    ("map-entities", pathsGrammar), ("script-keywords", keywordGrammar), ("dup-paks", pathsGrammar),
    ("merged", mergedGrammar), ("unique-words", wordGrammar), ("init", initGrammar),
    ("completions", completionGrammar)]

/-- The command that shows help on another. -/
def helpCommand : String := "help"

/-- The names of the commands. -/
def commandNames : List String := commandGrammars.map Prod.fst

/-- The grammar in front of the command. -/
def rootGrammar : Grammar :=
  { options := commonOptions ++ [helpOption, ⟨"version", .version, some 'V'⟩],
    subcommands := commandNames ++ [helpCommand] }

/-! ### Arguments -/

/-- The number that a parameter gives. -/
def number? (g : Given) (name : String) : Option Nat :=
  (g.value? name).bind fun v => Text.word? v.toList

/-- The command with what was given. -/
def commandOf? (name : String) (g : Given) : Option Command :=
  match name with
  | "cvars" => some (.cvars {
      buildDir := g.value? "build-dir"
      fileFilter := (g.value? "file-filter").getD ""
      jobs := number? g "jobs"
      cvarFilter := (g.value? "cvar-filter").getD ""
      noText := g.has "no-text"
      interactive := g.has "interactive"
      migrate := g.has "migrate"
      context := (number? g "context").getD 3 })
  | "pch-check" => some (.pchCheck ⟨g.value? "path", g.value? "header"⟩)
  | "cmake-headers" => some (.cmakeHeaders {
      label := (g.value? "name").getD "headers"
      path := g.value? "path"
      cmake := g.value? "cmake"
      ignore := g.values "ignore"
      substitutions := g.values "subst" })
  | "map-entities" => some (.mapEntities (g.values "paths"))
  | "script-keywords" =>
    ((g.value? "kind").bind Pak.Script.Kind.ofExtension?).map fun kind =>
      .scriptKeywords ⟨kind, g.values "paths", g.has "any-depth"⟩
  | "dup-paks" => some (.dupPaks (g.values "paths"))
  | "merged" =>
    (g.value? "feature").map fun feature =>
      .merged ⟨feature, g.value? "base", (g.value? "repo").getD "."⟩
  | "unique-words" =>
    some (.uniqueWords ⟨g.value? "root", g.values "subpath", g.values "exclude"⟩)
  | "init" => some (.init ⟨(g.value? "path").getD ".", g.has "force"⟩)
  | "completions" =>
    ((g.value? "shell").bind Shell.ofName?).map fun shell =>
      .completions ⟨shell, g.value? "out-dir", g.has "stdout"⟩
  | _ => none

/-- The greatest number that the verbosity is counted to. -/
def maxVerbose : Nat := 255

/-- How verbose a run is: what stands behind the command counts, and only otherwise what stands in
front of it. -/
def verbosity (before after : Given) : Nat :=
  min maxVerbose (if after.has "verbose" then after.count "verbose" else before.count "verbose")

/-- A request for help on a command, given by its name. -/
def helpOn : List String → UsageError
  | [] => .displayHelp
  | name :: rest =>
    if (commandNames ++ [helpCommand]).contains name && rest.isEmpty then .displayHelp
    else .invalidSubcommand

/-- The invocation that arguments stand for. -/
def parse (args : List String) : Usage Invocation := do
  let (before, sub) ← read rootGrammar .start args
  match sub with
  | none => .error (if before.isEmpty then .displayHelpOnMissingArgument else .missingSubcommand)
  | some (name, rest) =>
    if name == helpCommand then .error (helpOn rest)
    else
      let g := ((commandGrammars.find? (·.1 == name)).map Prod.snd).getD { options := [] }
      let (after, _) ← read g .start rest
      validate g after
      match commandOf? name after with
      | none => .error .missingRequiredArgument
      | some command =>
        let flag := fun (f : String) => before.has f || after.has f
        return ⟨flag "no-color", flag "quiet", flag "dry-run", verbosity before after, command⟩

example : parse [] = .error .displayHelpOnMissingArgument := by rfl

end CommandLine

end Upkeep
