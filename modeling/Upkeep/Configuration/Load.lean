/-
**Loading the settings.**

The settings come from the first of some files that is there, and from the variables of the
environment whose names begin with a common start.  The rest of such a name, in lower case, is the
place of the setting, with two underscores between the names on the way.  Variables win over the file.

Main definitions:

* `Upkeep.Configuration.fileNames`, `Upkeep.Configuration.variableStart` — where settings are looked
  for;
* `Upkeep.Configuration.readFile`, `Upkeep.Configuration.environmentValues` — the two sources;
* `Upkeep.Configuration.load` — the settings;
* `Upkeep.Configuration.template` — the text of a new file.
-/

import Upkeep.Configuration.Fields
import Upkeep.Configuration.Toml.Printer
import Upkeep.Configuration.Yaml.Document
import Upkeep.Files.Workspace

set_option relaxedAutoImplicit false
set_option autoImplicit false

namespace Upkeep

namespace Configuration

open Files

/-! ### Files -/

/-- The formats of files. -/
inductive Format where
  | toml
  | yaml
  | json
deriving DecidableEq, Repr

/-- The names of files with their formats; the first that is there counts. -/
def fileNames : List (String × Format) :=
  [("enginekit.toml", .toml), ("enginekit.yaml", .yaml), ("enginekit.json", .json),
    (".enginekit.toml", .toml)]

/-- The value that a text in a format holds. -/
def Format.parse? : Format → String → Option Value
  | toml, s => (Toml.parse? s).map .table
  | yaml, s => Yaml.parse? s
  | json, s => (Data.Json.parse? s).bind (Value.ofJson? Value.maxJsonDepth)

/-- The bytes that may tell at the start of a file that it is in UTF-8. -/
def byteOrderMark : List UInt8 := [0xEF, 0xBB, 0xBF]

/-- The text of a file. -/
def fileText (content : ByteArray) : String :=
  let bytes := bytesOf content
  Text.Utf8.decode ((Text.stripPrefix? byteOrderMark bytes).getD bytes)

/-- The table in a file of settings. -/
def readFile (d : Disk) (name : String) (format : Format) : Outcome (List (String × Value)) :=
  match (d.read? ⟨name⟩).bind fun content => format.parse? (fileText content) with
  | some (.table ms) => .ok ms
  | _ => .error .loadSettings

/-! ### The environment -/

/-- The start of the names of variables, in lower case. -/
def variableStart : String := "enginekit_"

/-- The place that a variable gives a setting for. -/
def placeOfVariable? (name : String) : Option String :=
  (Text.afterStart? variableStart (Text.lower name)).map fun rest =>
    String.ofList (Text.replaceAll ['_', '_'] ['.'] rest.toList)

/-- The settings in the environment. -/
def environmentValues (environment : List (String × String)) : List (String × Value) :=
  environment.filterMap fun (name, v) => (placeOfVariable? name).map fun p => (p, .text v)

/-! ### Settings -/

/-- The settings that hold for the directory in which the disk is at home. -/
def load (d : Disk) (environment : List (String × String)) : Outcome Settings := do
  let file ← match fileNames.find? fun (name, _) => d.exists? ⟨name⟩ with
    | some (name, format) => readFile d name format
    | none => .ok []
  let table := Value.putMembers (Value.putMembers [] file) (environmentValues environment)
  match Settings.ofTable? table with
  | some s => return s
  | none => .error .badSettings

/-- The text of a new file of settings. -/
def template : String := Toml.render (Settings.toTable {})

end Configuration

end Upkeep
