/-
**How cvars are recognised.**

The names that tell console variables and their uses in a source tree, and the choices made when the
uses are judged.  Every field has a value that fits the usual sources.

Main definitions:

* `Upkeep.Cvar.Dedup` — when a word in a text is taken for a use that is known already;
* `Upkeep.Cvar.Settings` — the names and choices.
-/

set_option relaxedAutoImplicit false
set_option autoImplicit false

namespace Upkeep

namespace Cvar

/-- When a word in a text is taken for a use that is known already. -/
inductive Dedup where
  /-- A known use on the same line is enough. -/
  | line
  /-- The known use has to begin at the same column. -/
  | exact
deriving DecidableEq, Repr

/-- The names that tell cvars and their uses, and the choices made when uses are judged. -/
structure Settings where
  /-- The build directory, which holds the compile database. -/
  buildDir : String := "build"
  /-- The number of files that may be read at a time. -/
  jobs : Nat := 6
  /-- The editor for patches when the environment names none. -/
  editor : String := "vi"
  /-- The types of cvars. -/
  cvarTypes : List String := ["cvar_t", "vmCvar_t"]
  /-- The type of the entries of registration tables. -/
  tableType : String := "cvarTable_t"
  /-- The fields of a table entry, in order, where no source defines the type. -/
  tableFields : List String := ["vmCvar", "cvarName", "defaultString", "cvarFlags"]
  /-- The field with the address of the cvar. -/
  tableCvarField : String := "vmCvar"
  /-- The field with the name that users see. -/
  tableNameField : String := "cvarName"
  /-- The field with the default value. -/
  tableDefaultField : String := "defaultString"
  /-- The field with the flags. -/
  tableFlagsField : String := "cvarFlags"
  /-- The field through which a cvar is read as an integer. -/
  intField : String := "integer"
  /-- The field through which a cvar is read as a floating-point number. -/
  floatField : String := "value"
  /-- The field through which a cvar is read as a string. -/
  stringField : String := "string"
  /-- The functions that write a cvar, given its name. -/
  setFunctions : List String := ["trap_Cvar_Set", "Cvar_Set"]
  /-- The functions that check the range of a cvar. -/
  rangeFunctions : List String := ["AssertCvarRange"]
  /-- The functions that register a cvar. -/
  getFunctions : List String := ["trap_Cvar_Get", "Cvar_Get"]
  /-- Sources whose paths contain one of these are left out. -/
  excludePaths : List String := ["libs/"]
  /-- The name of the directory that holds all sources. -/
  sourceRoot : String := "src"
  /-- The entry beside it that tells that there are assets. -/
  assetMarker : String := "pkg"
  /-- The directory of the assets. -/
  assetDir : String := "pkg/unvanquished_src.dpkdir/ui"
  /-- The extensions of the files that are searched. -/
  extensions : List String := ["h", "cpp", "rml", "lua"]
  /-- Errors of the grammar that hold one of these need no attention. -/
  benignDiagnostics : List String := ["NORETURN", "PRINTF_LIKE", "ALIGNED("]
  /-- Flags that tell of readers outside the sources. -/
  liveFlags : List String := ["CVAR_USERINFO", "CVAR_SERVERINFO", "CVAR_ROM"]
  /-- Directories where a mention in a text counts as a use of a cvar with such a flag. -/
  liveTextDirs : List String := ["src/sgame/"]
  /-- When a word in a text is taken for a use that is known already. -/
  textDedup : Dedup := .line
deriving DecidableEq, Repr

end Cvar

end Upkeep
