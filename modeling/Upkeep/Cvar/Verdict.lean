/-
**Verdicts.**

Whether a cvar is still in use.  The rules are tried in order.  Without a definition nothing can be
said.  A typed read or an address taken shows a use.  A mention in a text does so only for a cvar
with a flag that tells of readers outside, in a directory where such readers live; otherwise it makes
a use probable.  A cvar without any of these is dead.

Main definitions:

* `Upkeep.Cvar.Policy` — the flags and directories that count;
* `Upkeep.Cvar.Verdict`, `Upkeep.Cvar.classify` — the verdict on a cvar;
* `Upkeep.Cvar.Verdict.rank` — how much speaks for a use.
-/

import Upkeep.Cvar.Record
import Upkeep.Cvar.Settings
import Upkeep.Path.Normal

set_option relaxedAutoImplicit false
set_option autoImplicit false

namespace Upkeep

namespace Cvar

/-- The flags and directories that make a mention in a text count as a use. -/
structure Policy where
  liveFlags : List String
  liveTextDirs : List String
deriving DecidableEq, Repr

/-- The policy that the settings give. -/
def Settings.policy (cfg : Settings) : Policy := ⟨cfg.liveFlags, cfg.liveTextDirs⟩

/-- Whether a cvar is still in use. -/
inductive Verdict where
  /-- There is no definition; somebody has to look. -/
  | noDefinition
  | live
  /-- There are only mentions in texts; it is reported and never removed. -/
  | probablyLive
  /-- It can be removed. -/
  | dead
deriving DecidableEq, Repr

namespace Verdict

/-- The line under a listing, if there is one. -/
def banner? : Verdict → Option String
  | noDefinition => some "UU: no def"
  | probablyLive => some "UU: probably"
  | dead => some "UU: yes"
  | live => none

/-- How much speaks for a use, for cvars with a definition. -/
def rank : Verdict → Nat
  | noDefinition => 0
  | dead => 1
  | probablyLive => 2
  | live => 3

end Verdict

/-- Whether a cvar has a flag that counts. -/
def Policy.flagged (p : Policy) (r : Record) : Bool := p.liveFlags.any (r.hasFlag ·)

/-- Whether a cvar is mentioned in a text in a directory that counts. -/
def Policy.textInLiveDir (p : Policy) (r : Record) : Bool :=
  (r.places .text).any (·.file.inAnyDirectory p.liveTextDirs)

/-- The verdict on a cvar. -/
def classify (p : Policy) (r : Record) : Verdict :=
  if !r.has .define then .noDefinition
  else if r.has .int || r.has .float || r.has .string || r.has .other then .live
  else if p.flagged r && p.textInLiveDir r then .live
  else if r.has .text then .probablyLive
  else .dead

end Cvar

end Upkeep
