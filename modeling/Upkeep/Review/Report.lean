/-
**Reports on an analysis.**

A report goes through the selected cvars by name.  Each is listed with all its mentions, and what is
known of its use is told; a cvar that can be removed comes with the patch for it, or, when cvars are
to be migrated, a cvar in use comes with the patch for that.  Patches are either printed or reviewed;
when the answers of a review run out, the report ends.

Main definitions:

* `Upkeep.Review.Presenter` — what happens to patches;
* `Upkeep.Review.ReportRequest` — what is asked of a report;
* `Upkeep.Review.reportOne`, `Upkeep.Review.report` — the report on one cvar and on all.
-/

import Upkeep.Cvar.Analysis
import Upkeep.Cvar.Listing
import Upkeep.Cvar.Verdict
import Upkeep.Review.Dialogue

set_option relaxedAutoImplicit false
set_option autoImplicit false

namespace Upkeep

namespace Review

open Cvar

/-- What happens to patches. -/
inductive Presenter where
  | printer (style : Diff.Style)
  | reviewer (color : Bool)
deriving DecidableEq, Repr

namespace Presenter

/-- Present the patch that removes a cvar. -/
def removal (p : Presenter) (patch : Patch) : Session Ending := do
  match p with
  | printer style =>
    say (← work (patch.render style))
    return .skipped
  | reviewer color => return (← reviewRemoval color patch).1

/-- Present the migration of a cvar. -/
def migration (p : Presenter) (cfg : Settings) (context : Nat) (m : Migration) : Session Ending := do
  match p with
  | printer style =>
    say (← work do (← m.patch cfg context).render style)
    return .skipped
  | reviewer color => return (← reviewMigration color cfg context m).1

end Presenter

/-- What is asked of a report. -/
structure ReportRequest where
  /-- Only cvars whose name contains this are reported. -/
  filter : String
  /-- Whether cvars in use are migrated, or else those that are dead are removed. -/
  migrate : Bool
  context : Nat
deriving DecidableEq, Repr

/-- What is offered for a cvar. -/
inductive Offer where
  | removal
  | migration
  | nothing
deriving DecidableEq, Repr

/-- What is offered for a cvar with a verdict. -/
def offerFor (migrate : Bool) : Verdict → Offer
  | .dead => if migrate then .nothing else .removal
  | .live | .probablyLive => if migrate then .migration else .nothing
  | .noDefinition => .nothing

/-- The report on one cvar. -/
def reportOne (p : Presenter) (cfg : Settings) (r : ReportRequest) (name : String) (rec : Record) :
    Session Ending := do
  say (← work (listing name rec))
  let verdict := classify cfg.policy rec
  if let some banner := verdict.banner? then say (banner ++ "\n")
  let ending ← match offerFor r.migrate verdict with
    | .removal => do p.removal (← work (Cvar.removal rec r.context))
    | .migration => p.migration cfg r.context (.ofRecord name rec)
    | .nothing => pure .skipped
  say "\n"
  return ending

/-- The reports on cvars one after the other, until the answers of a review run out. -/
def reportAll (p : Presenter) (cfg : Settings) (r : ReportRequest) (ledger : Ledger) :
    List String → Session PUnit
  | [] => return ()
  | name :: names => do
    match ledger.get? name with
    | none => reportAll p cfg r ledger names
    | some rec =>
      if (← reportOne p cfg r name rec) != .quit then reportAll p cfg r ledger names

/-- The report on an analysis. -/
def report (p : Presenter) (cfg : Settings) (r : ReportRequest) (a : Analysis) : Session PUnit := do
  let names ← liftM (n := Session) (m := Except Failure) (a.selected r.filter)
  reportAll p cfg r a.ledger names

end Review

end Upkeep
