/-
**The ledger of all cvars.**

The ledger holds a record for every cvar, by name.  Findings are recorded one by one; what a finding
says of a cvar goes into its record.  A write only gives a name in quotes, so it waits until all
findings are recorded, and is then attached to the cvar whose name or display name it is in lower
case.  Mentions without a known shape leave no trace here: the search in texts sees them again.

Main definitions:

* `Upkeep.Cvar.Ledger` — the records by name, and the writes that wait;
* `Upkeep.Cvar.Ledger.record` — one more finding;
* `Upkeep.Cvar.Ledger.textKeys` — the names by which cvars are known in texts;
* `Upkeep.Cvar.Ledger.resolveWrites`, `Upkeep.Cvar.Ledger.scrub` — the steps after recording.
-/

import Upkeep.Cvar.Record
import Upkeep.Text.Lower

set_option relaxedAutoImplicit false
set_option autoImplicit false

namespace Upkeep

namespace Cvar

/-- A write whose cvar is not known yet. -/
structure PendingWrite where
  key : String
  place : Occurrence
  site : WriteSite
deriving DecidableEq, Repr

/-- The records of all cvars by name, in order, and the writes that wait for their cvar. -/
structure Ledger where
  symbols : List (String × Record)
  pending : List PendingWrite
deriving DecidableEq, Repr

namespace Ledger

/-- The ledger of nothing. -/
def empty : Ledger := ⟨[], []⟩

/-- The record of a cvar. -/
def get? (l : Ledger) (name : String) : Option Record := Data.lookupBy compare name l.symbols

/-- The ledger with the record of a cvar changed, which is begun if there is none. -/
def modify (l : Ledger) (name : String) (f : Record → Record) : Ledger :=
  { l with symbols := Data.upsertBy compare name (fun r => f (r.getD .empty)) l.symbols }

/-! ### Recording -/

/-- The ledger with one more finding. -/
def record (l : Ledger) (f : Finding) : Ledger :=
  match f.shape with
  | .declaration name isDefinition =>
    l.modify name (·.add (if isDefinition then .define else .decl) f.place)
  | .fieldRead name kind => l.modify name (·.add (.ofRead kind) f.place)
  | .setCall key value call => { l with pending := l.pending ++ [⟨key, f.place, ⟨value, call⟩⟩] }
  | .rangeCheck name min max => l.modify name fun r => (r.add .range f.place).noteBounds ⟨min, max⟩
  | .registration name data => l.modify name fun r => (r.add .get f.place).note data
  | .tableEntry name data => l.modify name fun r => (r.add .table f.place).note data
  | .addressOf name => l.modify name (·.add .other f.place)
  | .unrecognized .. => l

/-- The ledger with findings recorded in order. -/
def recordAll (l : Ledger) (fs : List Finding) : Ledger := fs.foldl record l

/-! ### Names in texts -/

/-- A table of names: for a text in lower case, the cvar that it stands for. -/
abbrev Keys := List (String × String)

/-- The cvar that a text in lower case stands for. -/
def Keys.find? (keys : Keys) (key : String) : Option String := Data.lookupBy compare key keys

/-- The table with a name, whether or not the key is taken. -/
def Keys.put (keys : Keys) (key name : String) : Keys :=
  Data.upsertBy compare key (fun _ => name) keys

/-- The table with a name, unless the key is taken. -/
def Keys.putNew (keys : Keys) (key name : String) : Keys :=
  Data.upsertBy compare key (fun old => old.getD name) keys

/-- The table of all cvars: each by its own name in lower case, and by its display names as far as
they are not taken. -/
def textKeys (l : Ledger) : Keys :=
  let names := l.symbols.foldl (fun (keys : Keys) s => keys.put (Text.lower s.1) s.1) []
  l.symbols.foldl (fun keys s =>
    s.2.displayNames.foldl (fun (keys : Keys) d => keys.putNew (Text.lower d) s.1) keys) names

/-! ### After recording -/

/-- The ledger with a write attached to its cvar, if there is one for its key. -/
def attach (keys : Keys) (l : Ledger) (w : PendingWrite) : Ledger :=
  match keys.find? w.key with
  | some name => l.modify name fun r => (r.add .set w.place).noteWrite w.place w.site
  | none => l

/-- The ledger with all waiting writes attached; those without a cvar are given up. -/
def resolveWrites (l : Ledger) : Ledger :=
  l.pending.foldl (attach l.textKeys) { l with pending := [] }

/-- The ledger without what table entries account for. -/
def scrub (l : Ledger) : Ledger := { l with symbols := l.symbols.map fun s => (s.1, s.2.scrub) }

@[simp] theorem get?_empty (name : String) : empty.get? name = none := rfl

@[simp] theorem recordAll_nil (l : Ledger) : l.recordAll [] = l := rfl

@[simp] theorem recordAll_cons (l : Ledger) (f : Finding) (fs : List Finding) :
    l.recordAll (f :: fs) = (l.record f).recordAll fs := rfl

end Ledger

end Cvar

end Upkeep
