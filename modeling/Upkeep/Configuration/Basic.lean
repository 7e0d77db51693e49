/-
**The configuration.**

The settings of all commands.  Every setting has a value that holds where no file and no variable of
the environment gives another.

Main definitions:

* `Upkeep.Configuration.PrecompiledSettings`, `Upkeep.Configuration.HeaderSettings`,
  `Upkeep.Configuration.WordSettings`, `Upkeep.Configuration.MergeSettings` — the settings of single
  commands;
* `Upkeep.Configuration.Settings` — all settings.
-/

import Upkeep.Audit.Headers
import Upkeep.Cvar.Settings

set_option relaxedAutoImplicit false
set_option autoImplicit false

namespace Upkeep

namespace Configuration

/-- The settings for the audit of precompiled headers. -/
structure PrecompiledSettings where
  /-- The directory of the sources. -/
  src : String := "daemon/src"
  /-- The name of the precompiled header. -/
  header : String := "common.h"
deriving DecidableEq, Repr, Inhabited

/-- The settings for the audit of header lists. -/
structure HeaderSettings where
  checks : List Audit.HeaderCheck := []
deriving DecidableEq, Repr, Inhabited

/-- The settings for the search for words that occur once. -/
structure WordSettings where
  root : String := "."
  /-- The directories below the root that are searched. -/
  subpaths : List String := ["libs", "src", "daemon/src", "daemon/libs"]
  /-- Words in files whose paths begin with one of these are left out. -/
  excludePrefixes : List String := ["libs", "daemon/libs", "daemon/external_deps"]
deriving DecidableEq, Repr, Inhabited

/-- The settings for the look-up of merged commits. -/
structure MergeSettings where
  /-- The base branch. -/
  base : String := "origin/master"
  /-- The number of commits that a feature branch may be ahead. -/
  maxCommits : Nat := 30
deriving DecidableEq, Repr, Inhabited

/-- All settings. -/
structure Settings where
  /-- Patterns of what every walk leaves out. -/
  ignorePatterns : List String := []
  cvars : Cvar.Settings := {}
  pch : PrecompiledSettings := {}
  cmake : HeaderSettings := {}
  uniqueWords : WordSettings := {}
  merged : MergeSettings := {}
deriving DecidableEq, Repr

end Configuration

end Upkeep
