/-
**Censuses over paks.**

A census tells, for every key, where it occurs and how often: the classes of entities by map, and the
keywords of scripts by pak and script.  Each pak gives rows of its own; a pak that cannot be opened
gives none, and neither does an entry that cannot be read.  The rows of a key are sorted, so the order
of the paks does not matter.  How paks are opened and their entries unpacked is left to a reader.

An entry for which no buffer can be had stops the census, that of all paks.

Main definitions:

* `Upkeep.Pak.Reader` — how paks are opened;
* `Upkeep.Pak.MapRow`, `Upkeep.Pak.ScriptRow` — rows;
* `Upkeep.Pak.census`, `Upkeep.Pak.renderCensus` — the rows by key, and their text;
* `Upkeep.Pak.Inventory` — what is counted: which entries are of interest, and their rows;
* `Upkeep.Pak.Inventory.maps`, `Upkeep.Pak.Inventory.scripts` — the two that there are;
* `Upkeep.Pak.Inventory.table`, `Upkeep.Pak.Inventory.text` — the census of paks, and its text for paks on
  a disk.
-/

import Upkeep.Pak.Find
import Upkeep.Pak.MapFile
import Upkeep.Pak.Script

set_option relaxedAutoImplicit false
set_option autoImplicit false

namespace Upkeep

namespace Pak

open Files

/-- How paks are opened. -/
abbrev Reader := Path → Outcome Opened

/-- Paks are files of a disk. -/
def Reader.onDisk (o : Opener) (d : Disk) : Reader := openPak o d

/-! ### Rows -/

/-- How often a class of entities occurs on a map of a pak. -/
structure MapRow where
  map : String
  count : Nat
  pak : String
deriving DecidableEq, Repr

/-- How often a keyword occurs in a script of a pak. -/
structure ScriptRow where
  pak : String
  script : String
  count : Nat
deriving DecidableEq, Repr

/-- The order of rows: by map, number and pak. -/
def MapRow.order (a b : MapRow) : Ordering :=
  (compare a.map b.map).then ((compare a.count b.count).then (compare a.pak b.pak))

/-- The order of rows: by pak, script and number. -/
def ScriptRow.order (a b : ScriptRow) : Ordering :=
  (compare a.pak b.pak).then ((compare a.script b.script).then (compare a.count b.count))

/-- The text of a row. -/
def MapRow.render (r : MapRow) : String := r.map ++ " " ++ toString r.count ++ " " ++ r.pak

/-- The text of a row. -/
def ScriptRow.render (r : ScriptRow) : String :=
  r.pak ++ " " ++ r.script ++ " " ++ toString r.count

/-- A row with the key that it belongs to. -/
abbrev Keyed (ρ : Type) := String × ρ

/-- The rows of a map. -/
def mapFileRows (pak entry : String) (data : List UInt8) : List (Keyed MapRow) :=
  match mapName? entry, entityText data with
  | some map, .ok lump => (classNames lump).map fun (name, n) => (name, ⟨map, n, pak⟩)
  | _, _ => []

/-- The rows of a script. -/
def scriptFileRows (anyDepth : Bool) (pak entry : String) (data : List UInt8) :
    List (Keyed ScriptRow) :=
  (Script.keywords data anyDepth).keywords.map fun (word, n) => (word, ⟨pak, entry, n⟩)

/-! ### Tables -/

/-- Keys, each with its rows. -/
abbrev Table (ρ : Type) := List (String × List ρ)

/-- The table with one more row for a key. -/
def Table.add {ρ : Type} (t : Table ρ) (r : Keyed ρ) : Table ρ :=
  Data.upsertBy compare r.1 (fun old => r.2 :: old.getD []) t

/-- The rows of every key, sorted. -/
def census {ρ : Type} (order : ρ → ρ → Ordering) (rows : List (Keyed ρ)) : Table ρ :=
  (rows.foldl Table.add []).map fun (key, rs) => (key, rs.mergeSort fun a b => (order a b).isLE)

/-- The text of a census: the keys, each with its rows below it. -/
def renderCensus {ρ : Type} (render : ρ → String) (c : Table ρ) : String :=
  Text.unlines (c.flatMap fun (key, rows) => key :: rows.map fun r => "\t" ++ render r)

@[simp] theorem census_nil {ρ : Type} (order : ρ → ρ → Ordering) :
    census order ([] : List (Keyed ρ)) = [] := rfl

/-! ### Censuses -/

/-- What is counted: the entries of interest, the rows of one, and how rows are sorted and written. -/
structure Inventory (ρ : Type) where
  wanted : (entry : String) → Bool
  rows : (pak entry : String) → List UInt8 → List (Keyed ρ)
  order : ρ → ρ → Ordering
  render : ρ → String

namespace Inventory

variable {ρ : Type}

/-- The classes of entities on maps. -/
def maps : Inventory MapRow where
  wanted entry := (mapName? entry).isSome
  rows := mapFileRows
  order := MapRow.order
  render := MapRow.render

/-- The keywords of scripts of a kind. -/
def scripts (kind : Script.Kind) (anyDepth : Bool) : Inventory ScriptRow where
  wanted := kind.covers
  rows := scriptFileRows anyDepth
  order := ScriptRow.order
  render := ScriptRow.render

/-- The rows of an entry; one that cannot be read gives none. -/
def ofEntry (v : Inventory ρ) (m : Memory) (pak : Path) (a : Opened) (entry : String) :
    Stoppable (List (Keyed ρ)) := do
  match ← a.read m entry with
  | .ok content => return v.rows pak.text entry content
  | .error _ => return []

/-- The rows of the entries of a pak that are of interest. -/
def ofOpened (v : Inventory ρ) (m : Memory) (pak : Path) (a : Opened) : Stoppable (List (Keyed ρ)) := do
  return (← (a.names.filter v.wanted).mapM (v.ofEntry m pak a)).flatten

/-- The rows of a pak; one that cannot be opened gives none. -/
def ofPak (v : Inventory ρ) (m : Memory) (reader : Reader) (pak : Path) : Stoppable (List (Keyed ρ)) :=
  match reader pak with
  | .ok a => v.ofOpened m pak a
  | .error _ => .ok []

/-- The census of paks. -/
def table (v : Inventory ρ) (m : Memory) (reader : Reader) (paks : List Path) : Stoppable (Table ρ) := do
  return census v.order (← paks.mapM (v.ofPak m reader)).flatten

/-- The text of the census of paks on a disk. -/
def text (v : Inventory ρ) (m : Memory) (o : Opener) (d : Disk) (paks : List Path) : Stoppable String :=
  (v.table m (.onDisk o d) paks).map (renderCensus v.render)

end Inventory

end Pak

end Upkeep
