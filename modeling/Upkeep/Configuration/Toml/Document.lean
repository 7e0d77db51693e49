/-
**TOML documents.**

A document is a row of statements: a header opens a table, a doubled header opens a further table of
a list of tables, and an assignment puts a value into the table that is open.  Keys may have several
parts, which lead through tables.

A table is opened by a header at most once, and a value is assigned once.  What a key leads through
may be made on the way, but nothing is added from outside to a table that stands as a value, and
assignments do not reach into tables that have a header of their own.

Main definitions:

* `Upkeep.Configuration.Toml.Node` — the parts of a document under construction;
* `Upkeep.Configuration.Toml.assign?`, `Upkeep.Configuration.Toml.openTable?`,
  `Upkeep.Configuration.Toml.openItem?` — the statements;
* `Upkeep.Configuration.Toml.parse?` — the table that a text holds.
-/

import Upkeep.Configuration.Toml.Scalar

set_option relaxedAutoImplicit false
set_option autoImplicit false

namespace Upkeep

namespace Configuration

namespace Toml

/-! ### Construction -/

/-- How a table came about. -/
inductive Origin where
  /-- A header leads through it. -/
  | implied
  /-- It has a header of its own. -/
  | header
  /-- The key of an assignment leads through it. -/
  | dotted
deriving DecidableEq, Repr

/-- A part of a document under construction. -/
inductive Node where
  | value (v : Value)
  | table (origin : Origin) (members : List (String × Node))
  /-- A list of tables with headers, the latest first. -/
  | tables (latest : List (String × Node)) (earlier : List Value)
deriving Inhabited

/-- Parts by key. -/
abbrev Members := List (String × Node)

mutual

/-- The value of a part. -/
def Node.toValue : Node → Value
  | .value v => v
  | .table _ ms => .table (membersValue ms)
  | .tables latest earlier => .list (earlier.reverse ++ [.table (membersValue latest)])

/-- The values of parts. -/
def membersValue : List (String × Node) → List (String × Value)
  | [] => []
  | (k, n) :: rest => (k, n.toValue) :: membersValue rest

end

/-- The part under a key. -/
def find? (ms : Members) (key : String) : Option Node := (ms.find? (·.1 == key)).map Prod.snd

/-- The parts with that under a key changed or given. -/
def set : Members → String → Node → Members
  | [], key, n => [(key, n)]
  | (k, old) :: rest, key, n => if k == key then (k, n) :: rest else (k, old) :: set rest key n

/-- A value assigned under a key; the parts of the key in front of the last lead through tables
without headers. -/
def assign? (ms : Members) (v : Value) : List String → Option Members
  | [] => none
  | [key] => if (find? ms key).isSome then none else some (set ms key (.value v))
  | key :: rest => do
    match find? ms key with
    | none => return set ms key (.table .dotted (← assign? [] v rest))
    | some (.table origin inner) =>
      if origin = .header then none
      else return set ms key (.table origin (← assign? inner v rest))
    | some _ => none

/-- Change the members of the table under a key that a header leads through. -/
def through? (ms : Members) (key : String) (f : Members → Option Members) : Option Members := do
  match find? ms key with
  | none => return set ms key (.table .implied (← f []))
  | some (.table origin inner) => return set ms key (.table origin (← f inner))
  | some (.tables latest earlier) => return set ms key (.tables (← f latest) earlier)
  | some (.value _) => none

/-- The table under a key opened by a header. -/
def openTable? (ms : Members) : List String → Option Members
  | [] => none
  | [key] =>
    match find? ms key with
    | none => some (set ms key (.table .header []))
    | some (.table .implied inner) => some (set ms key (.table .header inner))
    | some _ => none
  | key :: rest => through? ms key fun inner => openTable? inner rest

/-- A further table of the list under a key opened by a header. -/
def openItem? (ms : Members) : List String → Option Members
  | [] => none
  | [key] =>
    match find? ms key with
    | none => some (set ms key (.tables [] []))
    | some (.tables latest earlier) =>
      some (set ms key (.tables [] (.table (membersValue latest) :: earlier)))
    | some _ => none
  | key :: rest => through? ms key fun inner => openItem? inner rest

/-- A value assigned in the table that is open. -/
def assignAt? (ms : Members) (key : List String) (v : Value) : List String → Option Members
  | [] => assign? ms v key
  | k :: rest => through? ms k fun inner => assignAt? inner key v rest

/-! ### Values -/

mutual

/-- A value that begins here. -/
def value? : (budget : Nat) → List Char → Option (Value × List Char)
  | 0, _ => none
  | budget + 1, s =>
    match s with
    | '[' :: r => do
      match ← skipLines? budget r with
      | ']' :: r => return (.list [], r)
      | r => items? budget [] r
    | c :: r =>
      if c.toNat = 0x7B then
        match skipSpace r with
        | d :: r => if d.toNat = 0x7D then some (.table [], r) else inline? budget [] (d :: r)
        | [] => none
      else scalar? s
    | [] => none

/-- The rest of a list from an item on; `read` holds the items so far, latest first. -/
def items? : (budget : Nat) → (read : List Value) → List Char → Option (Value × List Char)
  | 0, _, _ => none
  | budget + 1, read, s => do
    let (v, s) ← value? budget s
    match ← skipLines? budget s with
    | ']' :: s => return (.list (v :: read).reverse, s)
    | ',' :: s =>
      match ← skipLines? budget s with
      | ']' :: s => return (.list (v :: read).reverse, s)
      | s => items? budget (v :: read) s
    | _ => none

/-- The rest of a table in braces from an assignment on. -/
def inline? : (budget : Nat) → (read : Members) → List Char → Option (Value × List Char)
  | 0, _, _ => none
  | budget + 1, read, s => do
    let (key, s) ← key? budget s
    match s with
    | '=' :: s => do
      let (v, s) ← value? budget (skipSpace s)
      let read ← assign? read v key
      match skipSpace s with
      | ',' :: s => inline? budget read s
      | c :: s => if c.toNat = 0x7D then return (.table (membersValue read), s) else none
      | [] => none
    | _ => none

end

/-! ### Documents -/

/-- What a text adds to a document, of which the table at `here` is open. -/
def statements? : (budget : Nat) → (ms : Members) → (here : List String) → List Char →
    Option Members
  | 0, _, _, _ => none
  | budget + 1, ms, here, s =>
    match skipSpace s with
    | [] => some ms
    | '[' :: '[' :: r => do
      let (key, r) ← key? budget r
      match r with
      | ']' :: ']' :: r => statements? budget (← openItem? ms key) key (← endOfLine? r)
      | _ => none
    | '[' :: r => do
      let (key, r) ← key? budget r
      match r with
      | ']' :: r => statements? budget (← openTable? ms key) key (← endOfLine? r)
      | _ => none
    | r =>
      match endOfLine? r with
      | some r => statements? budget ms here r
      | none => do
        let (key, r) ← key? budget r
        match r with
        | '=' :: r => do
          let (v, r) ← value? budget (skipSpace r)
          statements? budget (← assignAt? ms key v here) here (← endOfLine? r)
        | _ => none

/-- The table that a text holds, if the text is well formed. -/
def parse? (s : String) : Option (List (String × Value)) :=
  let cs := s.toList
  (statements? (cs.length + 2) [] [] cs).map membersValue

end Toml

end Configuration

end Upkeep
