/-
**The compile database.**

A compile database is a JSON list of commands, each with a directory, a source file and either a
list of arguments or one command line.  Sources are known by their normal paths; of several commands
for one source the last counts, in the place of the first.  Entries without arguments say nothing.

Main definitions:

* `Upkeep.Compile.Entry` — an entry as it is written;
* `Upkeep.Compile.Database` — the commands by source;
* `Upkeep.Compile.Database.ofJson` — the database that a text holds;
* `Upkeep.Compile.CompilationUnit`, `Upkeep.Compile.Database.units` — the selected commands, ready
  for use.
-/

import Upkeep.Compile.Command
import Upkeep.Data.Json
import Upkeep.Failure

set_option relaxedAutoImplicit false
set_option autoImplicit false

namespace Upkeep

namespace Compile

open Data

/-! ### Entries -/

/-- An entry of a compile database, as it is written. -/
structure Entry where
  directory : String
  file : String
  arguments : Option (List String)
  command : Option String
deriving DecidableEq, Repr

/-- The arguments of an entry: the list if there is one, else the parts of the command line. -/
def Entry.args? (e : Entry) : Option (List String) :=
  e.arguments.or (e.command.map splitCommand)

/-- The members of an object with a key. -/
def membersNamed (key : String) (members : List (String × Json)) : List Json :=
  (members.filter (·.1 == key)).map Prod.snd

/-- The only member with a key; `none` stands for a repeated key. -/
def onlyMember (key : String) (members : List (String × Json)) : Option (Option Json) :=
  match membersNamed key members with
  | [] => some none
  | [v] => some (some v)
  | _ => none

/-- An optional value: absent and `null` mean nothing. -/
def optional? {α : Type} (read : Json → Option α) : Option Json → Option (Option α)
  | none => some none
  | some .null => some none
  | some v => (read v).map some

/-- The entry made of the four values, of which the last two are optional. -/
def Entry.ofValues? (directory file arguments command : Option Json) : Option Entry := do
  let directory ← directory.bind Json.text?
  let file ← file.bind Json.text?
  let arguments ← optional? Json.texts? arguments
  let command ← optional? Json.text? command
  some ⟨directory, file, arguments, command⟩

/-- The entry that a document stands for: an object with the four keys, each at most once, or a list
of the values in this order. -/
def Entry.ofJson? : Json → Option Entry
  | .table members => do
    let directory ← onlyMember "directory" members
    let file ← onlyMember "file" members
    let arguments ← onlyMember "arguments" members
    let command ← onlyMember "command" members
    Entry.ofValues? directory file arguments command
  | .list items =>
    if items.length ≤ 4 then Entry.ofValues? items[0]? items[1]? items[2]? items[3]? else none
  | _ => none

/-! ### The database -/

/-- The command recorded for a source. -/
structure Invocation where
  source : Path
  directory : Path
  args : List String
deriving DecidableEq, Repr

/-- The commands of a build directory, one for each source, in the order in which the sources were
first named. -/
structure Database where
  buildDir : Path
  invocations : List Invocation
deriving Repr

/-- The commands with one more: it takes the place of an earlier one for the same source. -/
def record (found : List Invocation) (i : Invocation) : List Invocation :=
  if found.any (·.source.same i.source) then
    found.map fun j => if j.source.same i.source then { i with source := j.source } else j
  else found ++ [i]

/-- The command of an entry, if the entry has arguments. -/
def Entry.invocation? (buildDir : Path) (e : Entry) : Option Invocation :=
  e.args?.map fun args =>
    let directory := Path.resolve buildDir e.directory
    ⟨Path.resolve directory e.file, directory, args⟩

/-- The database of a list of entries. -/
def Database.ofEntries (buildDir : Path) (entries : List Entry) : Database :=
  let dir := Path.normalize buildDir.text
  ⟨dir, (entries.filterMap (Entry.invocation? dir)).foldl record []⟩

/-- The database that a text holds. -/
def Database.ofJson (buildDir : Path) (text : String) : Outcome Database :=
  match Json.parse? text with
  | some (.list items) =>
    match items.mapM Entry.ofJson? with
    | some entries => .ok (.ofEntries buildDir entries)
    | none => .error .badDatabase
  | _ => .error .badDatabase

/-! ### Units -/

/-- A command ready for use: its adjusted arguments and the include path they name. -/
structure CompilationUnit where
  source : Path
  directory : Path
  givenArgs : List String
  args : List String
  includeDirs : List Path
deriving DecidableEq, Repr

/-- The unit of a command. -/
def Invocation.unit (i : Invocation) : CompilationUnit :=
  let args := adjustArguments i.args
  ⟨i.source, i.directory, i.args, args, includeDirs args i.directory⟩

/-- Whether a command runs a compiler: it names a driver, and this is not the resource compiler. -/
def Invocation.compiles (i : Invocation) : Bool :=
  match i.args with
  | [] => false
  | driver :: _ => !Text.endsWith driver "rc.exe"

/-- Whether a source is wanted: its path contains the filter and nothing that is excluded. -/
def selects (filter : String) (exclude : List String) (source : Path) : Bool :=
  exclude.all (!Text.contains source.text ·) && Text.contains source.text filter

/-- The units of the wanted sources. -/
def Database.units (db : Database) (filter : String) (exclude : List String) : List CompilationUnit :=
  (db.invocations.filter fun i => selects filter exclude i.source && i.compiles).map
    Invocation.unit

end Compile

end Upkeep
