/-
**Settings as values.**

A record of settings is described by the list of its fields.  The list tells how the record is written
as a table and how a value is read into it: a table gives fields by name, and names that are unknown
are passed over; a list gives the first fields in order.  Fields that are not given keep the values of
the record that was there before.

Scalars convert to texts and numbers.  A text is never a list.

Main definitions:

* `Upkeep.Configuration.Field`, `Upkeep.Configuration.write`, `Upkeep.Configuration.read?` — fields, and
  records as values;
* `Upkeep.Configuration.Settings.fields` — the fields of the settings;
* `Upkeep.Configuration.Settings.toTable`, `Upkeep.Configuration.Settings.ofTable?` — settings as
  tables.
-/

import Upkeep.Configuration.Basic
import Upkeep.Configuration.Value

set_option relaxedAutoImplicit false
set_option autoImplicit false

namespace Upkeep

namespace Configuration

/-! ### Fields -/

/-- A field of a record: its name, how it is written, and how it is read. -/
structure Field (σ : Type) where
  name : String
  write : σ → Value
  read? : Value → σ → Option σ

/-- A record as a table. -/
def write {σ : Type} (fields : List (Field σ)) (s : σ) : List (String × Value) :=
  fields.map fun f => (f.name, f.write s)

/-- A record with a table read into it. -/
def readTable? {σ : Type} (fields : List (Field σ)) (ms : List (String × Value)) (s : σ) : Option σ :=
  fields.foldlM (fun s f =>
    match Value.get? ms f.name with
    | some v => f.read? v s
    | none => some s) s

/-- A record with a list read into its first fields. -/
def readList? {σ : Type} (fields : List (Field σ)) (items : List Value) (s : σ) : Option σ :=
  (fields.zip items).foldlM (fun s (f, v) => f.read? v s) s

/-- A record with a value read into it, of which the first `required` fields have to be given. -/
def read? {σ : Type} (fields : List (Field σ)) (required : Nat) (v : Value) (s : σ) : Option σ :=
  match v with
  | .table ms =>
    if (fields.take required).all fun f => (Value.get? ms f.name).isSome then readTable? fields ms s
    else none
  | .list items => if required ≤ items.length then readList? fields items s else none
  | _ => none

@[simp] theorem write_nil {σ : Type} (s : σ) : write ([] : List (Field σ)) s = [] := rfl

@[simp] theorem readTable?_nil {σ : Type} (ms : List (String × Value)) (s : σ) :
    readTable? [] ms s = some s := rfl

/-! ### Kinds of fields -/

/-- A list of texts. -/
def texts? : Value → Option (List String)
  | .list items => items.mapM Value.toText?
  | _ => none

/-- Texts by name; of those with one name the last counts, and the names are in order. -/
def textMap? : Value → Option (List (String × String))
  | .table ms =>
    (ms.mapM fun (e : String × Value) => e.2.toText?.map (e.1, ·)).map Audit.orderSubstitutions
  | _ => none

/-- A list of texts as a value. -/
def ofTexts (xs : List String) : Value := .list (xs.map .text)

/-- A field with a text. -/
def textField {σ : Type} (name : String) (get : σ → String) (set : String → σ → σ) : Field σ :=
  ⟨name, fun s => .text (get s), fun v s => v.toText?.map (set · s)⟩

/-- A field with a natural number. -/
def natField {σ : Type} (name : String) (get : σ → Nat) (set : Nat → σ → σ) : Field σ :=
  ⟨name, fun s => .integer (get s), fun v s => v.toNat?.map (set · s)⟩

/-- A field with a list of texts. -/
def textsField {σ : Type} (name : String) (get : σ → List String) (set : List String → σ → σ) :
    Field σ :=
  ⟨name, fun s => ofTexts (get s), fun v s => (texts? v).map (set · s)⟩

/-- A field with a record.  Its value replaces the whole record: fields that are not given are those of
the record `fresh`. -/
def recordField {σ τ : Type} (name : String) (fields : List (Field τ)) (fresh : τ) (get : σ → τ)
    (set : τ → σ → σ) : Field σ :=
  ⟨name, fun s => .table (write fields (get s)), fun v s => (read? fields 0 v fresh).map (set · s)⟩

/-! ### The fields of the settings -/

open Cvar (Dedup)

/-- The name of a choice. -/
def dedupName : Dedup → String
  | .line => "line"
  | .exact => "exact"

/-- The choice with a name. -/
def dedupOfName? (s : String) : Option Dedup :=
  [Dedup.line, .exact].find? fun d => dedupName d == s

/-- The choice that a value names: by itself, or as the only key of a table. -/
def dedup? : Value → Option Dedup
  | .text s => dedupOfName? s
  | .table [(s, _)] => dedupOfName? s
  | _ => none

/-- The fields of the settings for cvars. -/
def cvarFields : List (Field Cvar.Settings) :=
  [ textField "build_dir" (·.buildDir) fun x s => { s with buildDir := x },
    natField "jobs" (·.jobs) fun x s => { s with jobs := x },
    textField "editor" (·.editor) fun x s => { s with editor := x },
    textsField "cvar_types" (·.cvarTypes) fun x s => { s with cvarTypes := x },
    textField "table_type" (·.tableType) fun x s => { s with tableType := x },
    textsField "table_fields" (·.tableFields) fun x s => { s with tableFields := x },
    textField "table_cvar_field" (·.tableCvarField) fun x s => { s with tableCvarField := x },
    textField "table_name_field" (·.tableNameField) fun x s => { s with tableNameField := x },
    textField "table_default_field" (·.tableDefaultField)
      fun x s => { s with tableDefaultField := x },
    textField "table_flags_field" (·.tableFlagsField) fun x s => { s with tableFlagsField := x },
    textField "int_field" (·.intField) fun x s => { s with intField := x },
    textField "float_field" (·.floatField) fun x s => { s with floatField := x },
    textField "string_field" (·.stringField) fun x s => { s with stringField := x },
    textsField "set_functions" (·.setFunctions) fun x s => { s with setFunctions := x },
    textsField "range_functions" (·.rangeFunctions) fun x s => { s with rangeFunctions := x },
    textsField "get_functions" (·.getFunctions) fun x s => { s with getFunctions := x },
    textsField "exclude_paths" (·.excludePaths) fun x s => { s with excludePaths := x },
    textField "source_root" (·.sourceRoot) fun x s => { s with sourceRoot := x },
    textField "asset_marker" (·.assetMarker) fun x s => { s with assetMarker := x },
    textField "asset_dir" (·.assetDir) fun x s => { s with assetDir := x },
    textsField "extensions" (·.extensions) fun x s => { s with extensions := x },
    textsField "benign_diagnostics" (·.benignDiagnostics)
      fun x s => { s with benignDiagnostics := x },
    textsField "live_flags" (·.liveFlags) fun x s => { s with liveFlags := x },
    textsField "live_text_dirs" (·.liveTextDirs) fun x s => { s with liveTextDirs := x },
    ⟨"text_dedup", fun s => .text (dedupName s.textDedup),
      fun v s => (dedup? v).map fun x => { s with textDedup := x }⟩ ]

/-- The fields of the settings for precompiled headers. -/
def precompiledFields : List (Field PrecompiledSettings) :=
  [ textField "src" (·.src) fun x s => { s with src := x },
    textField "header" (·.header) fun x s => { s with header := x } ]

/-- The fields of a check of headers. -/
def checkFields : List (Field Audit.HeaderCheck) :=
  [ textField "name" (·.name) fun x s => { s with name := x },
    textField "path" (·.path) fun x s => { s with path := x },
    textField "cmake" (·.cmake) fun x s => { s with cmake := x },
    textsField "ignore" (·.ignore) fun x s => { s with ignore := x },
    ⟨"substitutions", fun s => .table (s.substitutions.map fun (k, v) => (k, .text v)),
      fun v s => (textMap? v).map fun x => { s with substitutions := x }⟩ ]

/-- A check has to give its name, its tree and its build file. -/
def check? (v : Value) : Option Audit.HeaderCheck := read? checkFields 3 v ⟨"", "", "", [], []⟩

/-- The checks in a list. -/
def checks? : Value → Option (List Audit.HeaderCheck)
  | .list items => items.mapM check?
  | _ => none

/-- The fields of the settings for header lists. -/
def headerFields : List (Field HeaderSettings) :=
  [ ⟨"checks", fun s => .list (s.checks.map fun c => .table (write checkFields c)),
      fun v s => (checks? v).map fun x => { s with checks := x }⟩ ]

/-- The fields of the settings for words. -/
def wordFields : List (Field WordSettings) :=
  [ textField "root" (·.root) fun x s => { s with root := x },
    textsField "subpaths" (·.subpaths) fun x s => { s with subpaths := x },
    textsField "exclude_prefixes" (·.excludePrefixes) fun x s => { s with excludePrefixes := x } ]

/-- The fields of the settings for merged commits. -/
def mergeFields : List (Field MergeSettings) :=
  [ textField "base" (·.base) fun x s => { s with base := x },
    natField "max_commits" (·.maxCommits) fun x s => { s with maxCommits := x } ]

namespace Settings

/-- The fields of the settings. -/
def fields : List (Field Settings) :=
  [ textsField "ignore_patterns" (·.ignorePatterns) fun x s => { s with ignorePatterns := x },
    recordField "cvars" cvarFields {} (·.cvars) fun x s => { s with cvars := x },
    recordField "pch" precompiledFields {} (·.pch) fun x s => { s with pch := x },
    recordField "cmake" headerFields {} (·.cmake) fun x s => { s with cmake := x },
    recordField "unique_words" wordFields {} (·.uniqueWords) fun x s => { s with uniqueWords := x },
    recordField "merged" mergeFields {} (·.merged) fun x s => { s with merged := x } ]

/-- The settings as a table. -/
def toTable (s : Settings) : List (String × Value) := write fields s

/-- The settings that a table gives. -/
def ofTable? (ms : List (String × Value)) : Option Settings := readTable? fields ms {}

@[simp] theorem ofTable?_nil : ofTable? [] = some {} := rfl

end Settings

end Configuration

end Upkeep
