/-
**Flags.**

The flags of a registration and what they become when a cvar is migrated.  The latch flag becomes a
call of its own; a flag without a counterpart becomes a name that does not compile, so that somebody
looks at it.

Main definitions:

* `Upkeep.Cvar.flagTable` — the flags with a counterpart;
* `Upkeep.Cvar.migratedFlags` — the flags of a migrated cvar, and whether it latches;
* `Upkeep.Cvar.renderFlags` — their spelling.
-/

import Upkeep.Cvar.Record
import Upkeep.Text.Blank

set_option relaxedAutoImplicit false
set_option autoImplicit false

namespace Upkeep

namespace Cvar

/-- The flag of cvars whose changes wait for the next start. -/
def latchFlag : String := "CVAR_LATCH"

/-- The flag of cvars that users cannot change. -/
def readOnlyFlag : String := "CVAR_ROM"

/-- The flags with a counterpart. -/
def flagTable : List (String × String) :=
  [("CVAR_ARCHIVE", "Cvar::ARCHIVE"), ("CVAR_USERINFO", "Cvar::USERINFO"),
    ("CVAR_SERVERINFO", "Cvar::SERVERINFO"), ("CVAR_SYSTEMINFO", "Cvar::SYSTEMINFO"),
    ("CVAR_ROM", "Cvar::ROM"), ("CVAR_CHEAT", "Cvar::CHEAT"), ("CVAR_TEMP", "Cvar::TEMPORARY"),
    ("CVAR_USER_ARCHIVE", "Cvar::USER_ARCHIVE")]

/-- The counterpart of a flag. -/
def migratedFlag (flag : String) : String := (flagTable.lookup flag).getD ("XXX_FLAG_" ++ flag)

/-- The flags that say something, without blanks at their ends. -/
def meaningfulFlags (flags : List String) : List String :=
  (flags.map Text.trim).filter fun f => f != "0" && f != ""

/-- Whether a cvar latches. -/
def latches (flags : List String) : Bool := (meaningfulFlags flags).contains latchFlag

/-- The flags of a migrated cvar, each once. -/
def migratedFlags (flags : List String) : List String :=
  (((meaningfulFlags flags).filter (· != latchFlag)).map migratedFlag).foldl Record.addNew []

/-- The spelling of the flags of a migrated cvar. -/
def renderFlags (flags : List String) : String :=
  if flags.isEmpty then "Cvar::NONE" else " | ".intercalate flags

@[simp] theorem migratedFlags_nil : migratedFlags [] = [] := rfl

@[simp] theorem renderFlags_nil : renderFlags [] = "Cvar::NONE" := rfl

end Cvar

end Upkeep
