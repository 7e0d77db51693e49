/-
**The first sweep: tracked names and the layout of tables.**

Before uses are looked for, all sources are searched for the variables of a cvar type that are
declared outside of functions, types and parameter lists.  These names are tracked.  The same sweep
finds the definition of the type of registration tables, whose fields give the meaning of entries
that are written without field names.

A tree is swept from its root, and of the parts of a node the last comes first.

Main definitions:

* `Upkeep.Cvar.Spot`, `Upkeep.Cvar.sweep` — the nodes of a tree with what lies above them;
* `Upkeep.Cvar.Globals`, `Upkeep.Cvar.collectGlobals` — the tracked names and the layout.
-/

import Upkeep.Cpp.Source
import Upkeep.Cvar.Settings
import Upkeep.Cvar.Shapes

set_option relaxedAutoImplicit false
set_option autoImplicit false

namespace Upkeep

namespace Cvar

open Cpp

/-! ### Sweeping a tree -/

/-- A node and the nodes above it, nearest first. -/
structure Spot where
  above : List Node
  node : Node

mutual

/-- The nodes of a tree that are reached through parts alone; the last part of a node comes
first. -/
def sweep (above : List Node) : Node → List Spot
  | .mk l cs => ⟨above, .mk l cs⟩ :: sweepOf (.mk l cs :: above) cs

/-- The nodes of some trees, the last tree first. -/
def sweepOf (above : List Node) : List Node → List Spot
  | [] => []
  | c :: cs =>
    sweepOf above cs ++ (if c.label.named && c.kind != "comment" then sweep above c else [])

end

/-- Whether a place with these nodes above it lies outside of functions, types and parameter
lists. -/
def atFileScope (above : List Node) : Bool :=
  above.all fun a =>
    a.kind != "compound_statement" && a.kind != "field_declaration_list" &&
      a.kind != "parameter_list"

/-! ### Globals -/

/-- What the first sweep finds: the tracked names, and the fields of a table entry in order. -/
structure Globals where
  tracked : List String
  tableFields : List String
deriving DecidableEq, Repr

/-- The names that a place declares as tracked. -/
def trackedAt (cfg : Settings) (s : Spot) : List String :=
  if s.node.kind == "declaration" && atFileScope s.above &&
      mentionsType cfg.cvarTypes ((s.node.fieldText? "type").getD "") then
    (declaredNodes s.node).map Node.text
  else []

/-- The names of the fields in the body of a type. -/
def fieldNames (body : Node) : List String :=
  (body.parts.filter (·.kind == "field_declaration")).flatMap fun fd =>
    (declaredNodes fd).map Node.text

/-- The body of the type of table entries, if a place defines this type. -/
def tableBody? (cfg : Settings) (n : Node) : Option Node :=
  if n.kind == "type_definition" then
    if (n.fields "declarator").any (·.text == cfg.tableType) then
      (n.field? "type").bind (·.field? "body")
    else none
  else if n.kind == "struct_specifier" then
    if n.fieldText? "name" == some cfg.tableType then n.field? "body" else none
  else none

/-- The tracked names and the layout of tables.  The first definition of the table type counts,
unless it has no fields. -/
def collectGlobals (cfg : Settings) (sources : List Source) : Globals :=
  let spots := sources.flatMap fun s => sweep [] s.tree
  let layout := (spots.findSome? fun s => tableBody? cfg s.node).map fieldNames
  { tracked := (spots.flatMap (trackedAt cfg)).eraseDups,
    tableFields := (layout.filter (fun fs => !fs.isEmpty)).getD cfg.tableFields }

end Cvar

end Upkeep
