/-
**Migration of a cvar.**

A migrated cvar has a type of its own.  Its definition and declarations are written anew, its
registrations go or become a call that latches it, reads through typed fields and writes by name
become calls on it, and what cannot be migrated is marked for manual work.  All that happens to a
line is gathered first, so that a line is changed once.

Main definitions:

* `Upkeep.Cvar.Migration` — a planned migration;
* `Upkeep.Cvar.Migration.declaration`, `Upkeep.Cvar.Migration.definition`,
  `Upkeep.Cvar.Migration.writeCall` — the new source texts;
* `Upkeep.Cvar.LinePlan`, `Upkeep.Cvar.Migration.plans` — what happens to the lines;
* `Upkeep.Cvar.Migration.migrateLine` — a line with its reads and writes migrated;
* `Upkeep.Cvar.Migration.patch` — the patch of a migration.
-/

import Upkeep.Cvar.Flags
import Upkeep.Cvar.Reads
import Upkeep.Cvar.Settings
import Upkeep.Cvar.ValueType
import Upkeep.Patch.Basic

set_option relaxedAutoImplicit false
set_option autoImplicit false

namespace Upkeep

namespace Cvar

open Files

/-! ### New source texts -/

/-- The blanks that a line begins with. -/
def indentOf (line : String) : String := String.ofList (line.toList.takeWhile Unicode.isBlank)

/-- A text between quotes, with a backslash in front of every backslash and every quote. -/
def quoted (s : String) : String :=
  String.ofList ('"' :: s.toList.flatMap (fun c => if c == '\\' || c == '"' then ['\\', c] else [c])
    ++ ['"'])

/-- A planned migration of a cvar: its name and record, its new type, and the text that describes it
to users. -/
structure Migration where
  name : String
  record : Record
  type : ValueType
  description : String
deriving DecidableEq, Repr

namespace Migration

/-- The migration of a cvar to the type that its uses suggest. -/
def ofRecord (name : String) (r : Record) : Migration := ⟨name, r, .infer r, ""⟩

/-- The name that users see: the first display name, or the name itself. -/
def displayName (m : Migration) : String := m.record.displayNames.head?.getD m.name

/-- Whether users cannot change the cvar. -/
def readOnly (m : Migration) : Bool := m.record.hasFlag readOnlyFlag

/-- The default value: the first one registered, spelled for the type. -/
def defaultValue (m : Migration) : String :=
  (m.record.defaults.head?.map m.type.convert).getD m.type.defaultLiteral

/-- The declaration. -/
def declaration (m : Migration) (indent : String) : String :=
  indent ++ "extern " ++ m.type.render ++ " " ++ m.name ++ ";"

/-- The arguments of the definition. -/
def definitionArgs (m : Migration) : List String :=
  [quoted m.displayName, quoted m.description, renderFlags (migratedFlags m.record.flags),
    m.defaultValue] ++
  match m.type.bounds? with
  | some b => [b.min, b.max]
  | none => []

/-- The definition. -/
def definition (m : Migration) (indent : String) (isStatic : Bool) : String :=
  indent ++ (if isStatic then "static " else "") ++ m.type.render ++ " " ++ m.name ++ "(" ++
    ", ".intercalate m.definitionArgs ++ ");"

/-- The call that writes a value; a cvar that users cannot change is written by force. -/
def writeCall (m : Migration) (value : String) : String :=
  if m.readOnly then
    "Cvar::SetValueForce(" ++ quoted m.displayName ++ ", " ++ Text.trim value ++ ")"
  else m.name ++ ".Set(" ++ m.type.convert value ++ ")"

/-- The call that latches the cvar. -/
def latchCall (m : Migration) (indent : String) : String :=
  indent ++ "Cvar::Latch(" ++ m.name ++ ");"

end Migration

/-! ### What happens to a line -/

/-- What happens to a line.  A new text for the whole line wins over a latch, a latch over
deletion, and deletion over migrating. -/
structure LinePlan where
  delete : Bool
  whole : Option String
  latch : Option String
  /-- The calls to migrate, and what they become. -/
  calls : List (String × String)
  migrateReads : Bool
  mark : Bool
deriving DecidableEq, Repr

/-- A line to which nothing happens. -/
def LinePlan.none : LinePlan := ⟨false, Option.none, Option.none, [], false, false⟩

/-- A line of a file. -/
abbrev LineKey := Path × Nat

/-- The order of lines. -/
def LineKey.order (a b : LineKey) : Ordering := (a.1.compare b.1).then (compare a.2 b.2)

/-- The lines of some mentions, each once. -/
def linesOf (ms : List Mention) : List LineKey :=
  ms.foldl (fun ls m => Data.insertBy LineKey.order (m.2.file, m.2.line) ls) []

namespace Migration

/-- What a mention adds to the plan of its line.  The text of the line is looked up when the new
text depends on it. -/
def planMention (m : Migration) (plan : LinePlan) (mention : Mention) : Work LinePlan := do
  let o := mention.2
  match mention.1 with
  | .decl =>
    let line := (← heldLine o.file o.line).getD ""
    return { plan with whole := some (m.declaration (indentOf line)) }
  | .define =>
    let line := (← heldLine o.file o.line).getD ""
    let isStatic := "static ".toList.isPrefixOf (Text.trimStart line.toList)
    return { plan with whole := some (m.definition (indentOf line) isStatic) }
  | .set =>
    match m.record.writeAt? o with
    | some site => return { plan with calls := plan.calls ++ [(site.call, m.writeCall site.value)] }
    | none => return { plan with mark := true }
  | .int | .float | .string => return { plan with migrateReads := true }
  | .get =>
    if latches m.record.flags then
      let line := (← heldLine o.file o.line).getD ""
      return { plan with latch := some (m.latchCall (indentOf line)) }
    else return { plan with delete := true }
  | .table => return { plan with delete := true }
  | .range =>
    if m.type.isRanged then return { plan with delete := true }
    else return { plan with mark := true }
  | .other | .text => return { plan with mark := true }

/-- The plans of lines with what a mention adds. -/
def addMention (m : Migration) (plans : List (LineKey × LinePlan)) (mention : Mention) :
    Work (List (LineKey × LinePlan)) := do
  let key : LineKey := (mention.2.file, mention.2.line)
  let plan ← m.planMention ((Data.lookupBy LineKey.order key plans).getD .none) mention
  return Data.upsertBy LineKey.order key (fun _ => plan) plans

/-- What happens to the lines of a cvar, in order. -/
def plans (m : Migration) : Work (List (LineKey × LinePlan)) :=
  m.record.mentions.foldlM m.addMention []

/-! ### Migrating a line -/

/-- The text with the first place of a call migrated, and whether there was none. -/
def migrateCall (text : List Char) (call : String × String) : List Char × Bool :=
  match Text.splitOnce? call.1.toList text with
  | some (before, after) => (before ++ call.2.toList ++ after, false)
  | none => (text, true)

/-- The text with all calls migrated one after the other, and whether one was missing. -/
def migrateCalls (text : List Char) (calls : List (String × String)) : List Char × Bool :=
  calls.foldl (fun (t, missing) call =>
    let (t, m) := migrateCall t call
    (t, missing || m)) (text, false)

/-- The typed fields. -/
def fieldNames (cfg : Settings) : FieldNames := [cfg.intField, cfg.floatField, cfg.stringField]

/-- What a read becomes; `none` when it does not fit the type.  A read as a string fits strings
alone, and any other read fits all other types. -/
def migrateRead? (m : Migration) (cfg : Settings) (field : String) : Option String :=
  if field == cfg.stringField then
    if m.type.isString then some (m.name ++ ".Get().c_str()") else none
  else if m.type.isString then none
  else some (m.name ++ ".Get()")

/-- A piece of a line with its read migrated, and whether that failed. -/
def migratePiece (m : Migration) (cfg : Settings) : Piece → List Char × Bool
  | .plain c => ([c], false)
  | .read r =>
    match m.migrateRead? cfg r.field with
    | some t => (t.toList, false)
    | none => (r.text, true)

/-- The text with all reads migrated, and whether one did not fit or there was none. -/
def migrateReads (m : Migration) (cfg : Settings) (text : List Char) : List Char × Bool :=
  let ps := pieces m.name (fieldNames cfg) text
  let done := ps.map (m.migratePiece cfg)
  (done.flatMap Prod.fst,
    done.any Prod.snd || !ps.any fun
      | .read _ => true
      | .plain _ => false)

/-- A line with its calls and reads migrated, and whether something is left for manual work. -/
def migrateLine (m : Migration) (cfg : Settings) (plan : LinePlan) (line : String) :
    String × Bool :=
  let (text, missing) := migrateCalls line.toList plan.calls
  if plan.migrateReads then
    let (text, failed) := m.migrateReads cfg text
    (String.ofList text, missing || failed)
  else (String.ofList text, missing)

/-! ### The patch -/

/-- The edit that a plan makes of a line; `none` when the line stays as it is. -/
def editOf (m : Migration) (cfg : Settings) (plan : LinePlan) (line : String) :
    Option LineEdit :=
  let (text, mark, trailing) : String × Bool × Option String :=
    match plan.whole, plan.latch with
    | some whole, latch => (whole, false, latch)
    | none, some latch => (latch, false, none)
    | none, none =>
      let (text, mark) := m.migrateLine cfg plan line
      (text, mark, none)
  let text := if mark || plan.mark then Diff.mark ++ text else text
  match trailing with
  | some latch => some (.splice [text, latch])
  | none => if text != line then some (.replace text) else none

/-- The patch with what a plan does to a line. -/
def applyPlan (m : Migration) (cfg : Settings) (p : Patch) (entry : LineKey × LinePlan) :
    Work Patch := do
  let ((file, line), plan) := entry
  if plan.whole.isNone && plan.latch.isNone && plan.delete then
    return (← p.edit file line .delete).2
  else
    match ← heldLine file line with
    | none => return p
    | some held =>
      match m.editOf cfg plan held with
      | none => return p
      | some e => return (← p.edit file line e).2

/-- The patch of a migration. -/
def patch (m : Migration) (cfg : Settings) (context : Nat) : Work Patch := do
  (← m.plans).foldlM (m.applyPlan cfg) (.empty context)

end Migration

/-! ### Removal -/

/-- The patch that removes a cvar: every line with a mention of it is deleted. -/
def removal (r : Record) (context : Nat) : Work Patch :=
  (linesOf r.mentions).foldlM
    (fun p (file, line) => do return (← p.edit file line .delete).2) (.empty context)

end Cvar

end Upkeep
