/-
**What is found in the sources.**

Every use of a cvar that the syntax trees show is a finding: one of a few shapes, at a place.

Main definitions:

* `Upkeep.Cvar.ReadKind` — how a cvar is read;
* `Upkeep.Cvar.Registration` — what a registration says about a cvar;
* `Upkeep.Cvar.Shape`, `Upkeep.Cvar.Finding` — findings.
-/

import Upkeep.Cvar.Occurrence

set_option relaxedAutoImplicit false
set_option autoImplicit false

namespace Upkeep

namespace Cvar

/-- How a cvar is read. -/
inductive ReadKind where
  | int
  | float
  | string
deriving DecidableEq, Repr

/-- What a registration says about a cvar: the name that users see, the default value and the flags,
all as the source spells them. -/
structure Registration where
  display : Option String
  default : Option String
  flags : List String
deriving DecidableEq, Repr

/-- The shapes of uses. -/
inductive Shape where
  /-- A variable of a cvar type outside all functions.  It is only declared when it is external and
  has no value. -/
  | declaration (name : String) (isDefinition : Bool)
  /-- A read through one of the typed fields. -/
  | fieldRead (name : String) (kind : ReadKind)
  /-- A write by a name in quotes, given in lower case. -/
  | setCall (key value call : String)
  /-- A check that the value lies in a range. -/
  | rangeCheck (name min max : String)
  /-- A registration whose result is assigned to the cvar. -/
  | registration (name : String) (data : Registration)
  /-- An entry of a registration table. -/
  | tableEntry (name : String) (data : Registration)
  /-- The address of a cvar, taken anywhere else. -/
  | addressOf (name : String)
  /-- Any other mention. -/
  | unrecognized (name context : String)
deriving DecidableEq, Repr

/-- A use of a cvar, and its place. -/
structure Finding where
  shape : Shape
  place : Occurrence
deriving DecidableEq, Repr

end Cvar

end Upkeep
