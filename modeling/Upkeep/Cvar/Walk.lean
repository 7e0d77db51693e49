/-
**The second sweep: uses of tracked names.**

Every source is walked from its root, children in order.  A node of one of the known shapes claims
the nodes that it is made of, so that these are not found again on their own, and reports what it
is.  The walk goes on below it.  Inside a function, names that its parameters or local declarations
introduce do not stand for cvars.

A malformed entry of a registration table stops the walk: without it the picture would be wrong.

Main definitions:

* `Upkeep.Cvar.Scope` — what the walk knows at a node;
* `Upkeep.Cvar.localNames` — the names that a function introduces;
* `Upkeep.Cvar.Effect` — what a node claims and reports;
* `Upkeep.Cvar.effectOf` — the effect of a node by its kind;
* `Upkeep.Cvar.walk`, `Upkeep.Cvar.walkAll` — the findings of a source, and of all.
-/

import Upkeep.Cvar.Finding
import Upkeep.Cvar.Globals
import Upkeep.Failure
import Upkeep.Text.Lower

set_option relaxedAutoImplicit false
set_option autoImplicit false

namespace Upkeep

namespace Cvar

open Cpp

/-! ### Scopes -/

/-- What is the same for all nodes of a source. -/
structure Survey where
  cfg : Settings
  globals : Globals
  source : Source

/-- What the walk knows at a node: the nodes above it, nearest first, and the names that enclosing
functions introduce. -/
structure Scope where
  above : List Node
  shadowed : List String

/-- Whether a node opens a scope of its own. -/
def opensScope (n : Node) : Bool :=
  n.kind == "function_definition" || n.kind == "lambda_expression"

/-- The names that a node itself introduces into the function around it. -/
def introduced (n : Node) : List String :=
  if ["parameter_declaration", "optional_parameter_declaration", "for_range_loop"].contains n.kind then
    ((n.field? "declarator").bind declaredBy?).toList.map Node.text
  else if n.kind == "declaration" then (declaredNodes n).map Node.text
  else []

mutual

/-- The names introduced by a node and below it; functions inside are left out. -/
def introducedBelow : Node → List String
  | .mk l cs =>
    introduced (.mk l cs) ++ (if opensScope (.mk l cs) then [] else introducedBelowAll cs)

/-- The names introduced by the parts among some nodes and below them. -/
def introducedBelowAll : List Node → List String
  | [] => []
  | c :: cs =>
    (if c.label.named && c.kind != "comment" then introducedBelow c else []) ++
      introducedBelowAll cs

end

/-- The names that a function introduces: its parameters and its local variables. -/
def localNames (f : Node) : List String := introducedBelowAll f.children

/-- The scope of a node itself, given the scope around it. -/
def Scope.enter (s : Scope) (n : Node) : Scope :=
  if opensScope n then { s with shadowed := localNames n ++ s.shadowed } else s

/-- The scope of the children of a node, given the scope of the node itself. -/
def Scope.below (s : Scope) (n : Node) : Scope := { s with above := n :: s.above }

/-- Whether a name stands for a cvar. -/
def isLive (v : Survey) (s : Scope) (name : String) : Bool :=
  v.globals.tracked.contains name && !s.shadowed.contains name

/-! ### Effects -/

/-- What a node does: the numbers of the nodes that it claims, and its findings in order. -/
structure Effect where
  claims : List Nat
  finds : List Finding
deriving DecidableEq, Repr

namespace Effect

/-- Nothing claimed, nothing found. -/
def none : Effect := ⟨[], []⟩

/-- Two effects, one after the other. -/
def append (a b : Effect) : Effect := ⟨a.claims ++ b.claims, a.finds ++ b.finds⟩

instance : Append Effect := ⟨append⟩

/-- The effects of a list, one after the other. -/
def all (es : List Effect) : Effect := ⟨es.flatMap claims, es.flatMap finds⟩

end Effect

/-- The place of a node. -/
def placeOf (v : Survey) (n : Node) : Occurrence := ⟨v.source.path, n.line, n.column⟩

/-- A use found at a node. -/
def foundAt (v : Survey) (n : Node) (shape : Shape) : Finding := ⟨shape, placeOf v n⟩

/-! ### Registrations -/

/-- Whether a call registers a cvar. -/
def isGetCall (v : Survey) (call : Node) : Bool :=
  (callee? call).any (v.cfg.getFunctions.contains ·)

/-- What the arguments of a registering call say. -/
def registrationOf (call : Node) : Registration :=
  let args := arguments call
  { display := args[0]?.bind literal?,
    default := args[1]?.map Node.text,
    flags := (args[2]?.map fun a => splitFlags a.text).getD [] }

/-- A registering call whose result goes to `name`. -/
def registration (v : Survey) (name : String) (call : Node) : Effect :=
  if isGetCall v call then
    ⟨[call.id], [foundAt v call (.registration name (registrationOf call))]⟩
  else .none

/-! ### Registration tables -/

/-- What was read of a table entry so far. -/
structure EntryDraft where
  cvar : Option (String × List Nat)
  data : Registration

/-- A table entry whose values are read one by one: it is under way, or it is known to name no
cvar. -/
inductive EntryState where
  | reading (draft : EntryDraft)
  | skipped

/-- A value with the field that it is for.  `none` stands for a field name without a value. -/
def fieldOfValue (v : Survey) (i : Nat) (value : Node) : Except String (Option (String × Node)) :=
  if value.kind == "initializer_pair" then
    let designator := ((value.field? "designator").map fun d =>
      Text.trim (String.ofList (d.text.toList.dropWhile (· == '.')))).getD ""
    .ok ((value.field? "value").map fun x => (designator, x))
  else
    match v.globals.tableFields[i]? with
    | some f => .ok (some (f, value))
    | none => .error (toString (i + 1) ++ " values for " ++
        toString v.globals.tableFields.length ++ " fields")

/-- One more value of a table entry. -/
def readField (v : Survey) (draft : EntryDraft) (field : String) (value : Node) :
    Except String EntryState :=
  if field == v.cfg.tableCvarField then
    if isNull value then .ok .skipped
    else
      match address? value with
      | none => .error ("cvar field is not an address-of: " ++ value.text)
      | some target =>
        if isPlainName target.text then
          .ok (.reading { draft with cvar := some (target.text, [value.id, target.id]) })
        else .error ("unexpected cvar name " ++ target.text)
  else if field == v.cfg.tableNameField then
    match literal? value with
    | none => .error ("name field is not a string literal: " ++ value.text)
    | some s => .ok (.reading { draft with data := { draft.data with display := some s } })
  else if field == v.cfg.tableDefaultField then
    .ok (.reading { draft with data := { draft.data with default := some value.text } })
  else if field == v.cfg.tableFlagsField then
    .ok (.reading { draft with data := { draft.data with flags := splitFlags value.text } })
  else .ok (.reading draft)

/-- The values of a table entry from number `i` on. -/
def readFields (v : Survey) (draft : EntryDraft) (i : Nat) : List Node → Except String EntryState
  | [] => .ok (.reading draft)
  | value :: values => do
    match ← fieldOfValue v i value with
    | none => readFields v draft (i + 1) values
    | some (field, x) =>
      match ← readField v draft field x with
      | .skipped => return .skipped
      | .reading draft => readFields v draft (i + 1) values

/-- A table entry.  Entries without a cvar are passed over. -/
def tableEntry (v : Survey) (entry : Node) : Outcome Effect :=
  match readFields v ⟨none, ⟨none, none, []⟩⟩ 0 entry.parts with
  | .error reason => .error (.malformedTable v.source.path entry.line entry.column reason)
  | .ok .skipped => .ok .none
  | .ok (.reading ⟨none, _⟩) => .ok .none
  | .ok (.reading ⟨some (name, claims), data⟩) =>
    .ok ⟨claims, [foundAt v entry (.tableEntry name data)]⟩

/-- The entries of the tables that a declaration of the table type holds. -/
def tableEntries (n : Node) : List Node :=
  ((n.fields "declarator").filterMap fun d =>
    (d.field? "value").filter (·.kind == "initializer_list")).flatMap fun list =>
      list.parts.filter (·.kind == "initializer_list")

/-! ### Uses by kind of node -/

/-- Whether a declaration has the specifier of external variables. -/
def isExternal (n : Node) : Bool :=
  n.children.any fun c => c.kind == "storage_class_specifier" && c.text == "extern"

/-- The value that a declarator gives to its variable. -/
def initializer? (d : Node) : Option Node :=
  if d.kind == "init_declarator" then d.field? "value" else none

/-- A declarator of a declaration of a cvar type outside of functions.  A call that gives the value
may register the cvar. -/
def declarator (v : Survey) (s : Scope) (external : Bool) (d : Node) : Effect :=
  match declaredBy? d with
  | none => .none
  | some x =>
    let value := initializer? d
    let declared : Effect :=
      ⟨[x.id], [foundAt v x (.declaration x.text (!external || value.isSome))]⟩
    match value.filter (·.kind == "call_expression") with
    | some call =>
      if isLive v s x.text then declared ++ registration v x.text call else declared
    | none => declared

/-- A declaration: of a registration table, of cvars, or of something else. -/
def declaration (v : Survey) (s : Scope) (n : Node) : Outcome Effect :=
  let type := (n.fieldText? "type").getD ""
  if mentionsType [v.cfg.tableType] type then do
    return .all (← (tableEntries n).mapM (tableEntry v))
  else if mentionsType v.cfg.cvarTypes type && atFileScope s.above then
    .ok (.all ((n.fields "declarator").map (declarator v s (isExternal n))))
  else .ok .none

/-- How a field is read, if it is one of the typed fields. -/
def readKind? (cfg : Settings) (field : String) : Option ReadKind :=
  if field == cfg.intField then some .int
  else if field == cfg.floatField then some .float
  else if field == cfg.stringField then some .string
  else none

/-- A read through a typed field. -/
def fieldRead (v : Survey) (s : Scope) (claimed : List Nat) (n : Node) : Effect :=
  match (n.field? "argument").filter (·.kind == "identifier"),
      readKind? v.cfg ((n.fieldText? "field").getD "") with
  | some x, some kind =>
    if claimed.contains x.id || !isLive v s x.text then .none
    else ⟨[x.id], [foundAt v x (.fieldRead x.text kind)]⟩
  | _, _ => .none

/-- The text of an argument, empty when it is missing. -/
def argumentText (args : List Node) (i : Nat) : String := (args[i]?.map Node.text).getD ""

/-- A write by a name in quotes. -/
def setCall (v : Survey) (n : Node) : Effect :=
  let args := arguments n
  match args[0]?.bind literal? with
  | none => .none
  | some key =>
    ⟨[n.id], [foundAt v n (.setCall (Text.lower key) (argumentText args 1) n.text)]⟩

/-- A check that the value lies in a range; the cvar is given itself or by its address. -/
def rangeCheck (v : Survey) (s : Scope) (n : Node) : Effect :=
  let args := arguments n
  match args[0]? with
  | none => .none
  | some first =>
    match (address? first).or (if first.kind == "identifier" then some first else none) with
    | none => .none
    | some x =>
      if isLive v s x.text then
        ⟨[first.id, x.id, n.id],
          [foundAt v n (.rangeCheck x.text (argumentText args 1) (argumentText args 2))]⟩
      else .none

/-- A call. -/
def call (v : Survey) (s : Scope) (claimed : List Nat) (n : Node) : Effect :=
  if claimed.contains n.id then .none
  else
    match callee? n with
    | none => .none
    | some f =>
      if v.cfg.setFunctions.contains f then setCall v n
      else if v.cfg.rangeFunctions.contains f then rangeCheck v s n
      else .none

/-- An assignment; it may register the cvar on its left. -/
def assignment (v : Survey) (s : Scope) (n : Node) : Effect :=
  match n.field? "left", n.field? "right" with
  | some left, some right =>
    if left.kind == "identifier" && right.kind == "call_expression" && isLive v s left.text &&
        isGetCall v right then
      ⟨[left.id], []⟩ ++ registration v left.text right
    else .none
  | _, _ => .none

/-- An address that no known shape uses. -/
def addressOf (v : Survey) (s : Scope) (claimed : List Nat) (n : Node) : Effect :=
  if claimed.contains n.id then .none
  else
    match address? n with
    | none => .none
    | some x =>
      if claimed.contains x.id || !isPlainName x.text || !isLive v s x.text then .none
      else ⟨[x.id], [foundAt v n (.addressOf x.text)]⟩

/-- Whether a node is the function of the call around it. -/
def isCallee (s : Scope) (n : Node) : Bool :=
  match s.above with
  | [] => false
  | parent :: _ =>
    parent.kind == "call_expression" && (parent.field? "function").map Node.id == some n.id

/-- A mention that no known shape uses. -/
def unrecognized (v : Survey) (s : Scope) (claimed : List Nat) (n : Node) : Effect :=
  if claimed.contains n.id || !isLive v s n.text || isCallee s n then .none
  else ⟨[], [foundAt v n (.unrecognized n.text (Text.trim (v.source.line n.line)))]⟩

/-- What a node does, given the nodes that were claimed before. -/
def effectOf (v : Survey) (s : Scope) (claimed : List Nat) (n : Node) : Outcome Effect :=
  match n.kind with
  | "declaration" => declaration v s n
  | "field_expression" => .ok (fieldRead v s claimed n)
  | "call_expression" => .ok (call v s claimed n)
  | "assignment_expression" => .ok (assignment v s n)
  | "pointer_expression" => .ok (addressOf v s claimed n)
  | "identifier" => .ok (unrecognized v s claimed n)
  | _ => .ok .none

/-! ### The walk -/

mutual

/-- What a node and all nodes below it do, given what was done before. -/
def visit (v : Survey) (s : Scope) (done : Effect) : Node → Outcome Effect
  | .mk l cs => do
    let inner := s.enter (.mk l cs)
    let e ← effectOf v inner done.claims (.mk l cs)
    visitAll v (inner.below (.mk l cs)) (done ++ e) cs

/-- What some nodes and all nodes below them do, one after the other. -/
def visitAll (v : Survey) (s : Scope) (done : Effect) : List Node → Outcome Effect
  | [] => .ok done
  | c :: cs => do
    let done ← visit v s done c
    visitAll v s done cs

end

/-- The findings of a source. -/
def walk (cfg : Settings) (globals : Globals) (source : Source) : Outcome (List Finding) := do
  return (← visit ⟨cfg, globals, source⟩ ⟨[], []⟩ .none source.tree).finds

/-- The findings of all sources, in order. -/
def walkAll (cfg : Settings) (sources : List Source) : Outcome (List Finding) := do
  let globals := collectGlobals cfg sources
  return (← sources.mapM (walk cfg globals)).flatten

end Cvar

end Upkeep
