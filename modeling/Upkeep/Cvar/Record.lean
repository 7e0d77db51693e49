/-
**What is known of one cvar.**

A record holds the places of all mentions of a cvar by the role that they play, and what the
registrations, range checks and writes say about it.  Places, names and defaults are sets in order;
flags and bounds are lists without repetition in the order in which they were found.

Main definitions:

* `Upkeep.Cvar.Role` — the roles of mentions;
* `Upkeep.Cvar.Record` — what is known of a cvar;
* `Upkeep.Cvar.Record.places`, `Upkeep.Cvar.Record.mentions` — its mentions;
* `Upkeep.Cvar.Record.scrub` — the record without what table entries account for.
-/

import Upkeep.Cvar.Finding

set_option relaxedAutoImplicit false
set_option autoImplicit false

namespace Upkeep

namespace Cvar

/-! ### Roles -/

/-- The role that a mention plays. -/
inductive Role where
  | decl
  | define
  | get
  | int
  | float
  | string
  | table
  | set
  | range
  | other
  | text
deriving DecidableEq, Repr

namespace Role

/-- All roles, in their order. -/
def all : List Role := [decl, define, get, int, float, string, table, set, range, other, text]

/-- The place of a role in their order. -/
def rank : Role → Nat
  | decl => 0
  | define => 1
  | get => 2
  | int => 3
  | float => 4
  | string => 5
  | table => 6
  | set => 7
  | range => 8
  | other => 9
  | text => 10

/-- The order of roles. -/
def order (a b : Role) : Ordering := compare a.rank b.rank

/-- The tag of a role in listings. -/
def tag : Role → String
  | decl => "DECL"
  | define => "DEF"
  | get => "GET"
  | int => "INT"
  | float => "FLT"
  | string => "STR"
  | table => "TAB"
  | set => "SET"
  | range => "RANGE"
  | other => "OTHER"
  | text => "TEXT"

/-- Whether mentions of a role come from the syntax trees, not from the search in texts. -/
def isParsed (r : Role) : Bool := r != text

/-- Whether mentions of a role are reads through a typed field. -/
def isTypedRead : Role → Bool
  | int => true
  | float => true
  | string => true
  | _ => false

/-- The role of a read. -/
def ofRead : ReadKind → Role
  | .int => int
  | .float => float
  | .string => string

theorem rank_injective {a b : Role} (h : a.rank = b.rank) : a = b := by
  cases a <;> cases b <;> simp_all [rank]

end Role

/-! ### Records -/

/-- A write: the source of the value and of the whole call. -/
structure WriteSite where
  value : String
  call : String
deriving DecidableEq, Repr

/-- The bounds of a range check, as the source spells them. -/
structure Bounds where
  min : String
  max : String
deriving DecidableEq, Repr

/-- A mention: its role and its place. -/
abbrev Mention := Role × Occurrence

/-- What is known of a cvar. -/
structure Record where
  roles : List (Role × Places)
  displayNames : List String
  flags : List String
  bounds : List Bounds
  defaults : List String
  writes : List (Occurrence × WriteSite)
deriving DecidableEq, Repr

namespace Record

/-- The record of a cvar of which nothing is known. -/
def empty : Record := ⟨[], [], [], [], [], []⟩

/-- The places of the mentions of a role. -/
def places (r : Record) (role : Role) : Places := (Data.lookupBy Role.order role r.roles).getD []

/-- Whether there is a mention of a role. -/
def has (r : Record) (role : Role) : Bool := !(r.places role).isEmpty

/-- Whether a registration gives a flag. -/
def hasFlag (r : Record) (flag : String) : Bool := r.flags.contains flag

/-- All mentions, by role and place. -/
def mentions (r : Record) : List Mention := r.roles.flatMap fun (role, ps) => ps.map (role, ·)

/-- The mentions that the syntax trees show. -/
def parsedMentions (r : Record) : List Mention := r.mentions.filter (·.1.isParsed)

/-- The record with one more mention. -/
def add (r : Record) (role : Role) (o : Occurrence) : Record :=
  { r with roles := Data.upsertBy Role.order role (fun ps => (ps.getD []).insert o) r.roles }

/-- A list with one more member at its end, unless it is there. -/
def addNew {α : Type} [DecidableEq α] (xs : List α) (x : α) : List α :=
  if xs.contains x then xs else xs ++ [x]

/-- A set of texts with one more member, if there is one. -/
def addText (set : List String) (s : Option String) : List String :=
  match s with
  | some s => Data.insertBy compare s set
  | none => set

/-- The record with what a registration says. -/
def note (r : Record) (data : Registration) : Record :=
  { r with
    displayNames := addText r.displayNames data.display
    defaults := addText r.defaults data.default
    flags := data.flags.foldl addNew r.flags }

/-- The record with the bounds of a range check. -/
def noteBounds (r : Record) (b : Bounds) : Record := { r with bounds := addNew r.bounds b }

/-- The record with a write; a write at the same place is replaced. -/
def noteWrite (r : Record) (o : Occurrence) (w : WriteSite) : Record :=
  { r with writes := Data.upsertBy Occurrence.order o (fun _ => w) r.writes }

/-- The write at a place. -/
def writeAt? (r : Record) (o : Occurrence) : Option WriteSite :=
  Data.lookupBy Occurrence.order o r.writes

/-! ### Lines of tables -/

/-- Whether a place is on a line with a table entry of the cvar. -/
def onTableLine (r : Record) (o : Occurrence) : Bool := (r.places .table).any (o.sameLine ·)

/-- The mentions that table entries account for: all others on their lines. -/
def tableNoise (r : Record) : List Mention :=
  r.mentions.filter fun m => m.1 != .table && r.onTableLine m.2

/-- The record without what table entries account for.  Writes at the places that go, go too. -/
def scrub (r : Record) : Record :=
  let noise := r.tableNoise
  { r with
    roles := r.roles.map fun (role, ps) =>
      (role, if role == .table then ps else ps.filter (!r.onTableLine ·))
    writes := r.writes.filter fun w => !noise.any (w.1.same ·.2) }

@[simp] theorem places_empty (role : Role) : empty.places role = [] := rfl

@[simp] theorem mentions_empty : empty.mentions = [] := rfl

end Record

end Cvar

end Upkeep
