/-
**Writing TOML.**

The members of a table that are no tables come first, each on a line of its own; a list with more than
one item has every item on its own line.  Then come the members that are tables, each under a header
behind an empty line.

Main definitions:

* `Upkeep.Configuration.Toml.quote` — a text as a string;
* `Upkeep.Configuration.Toml.render` — the text of a table.
-/

import Upkeep.Configuration.Toml.Document

set_option relaxedAutoImplicit false
set_option autoImplicit false

namespace Upkeep

namespace Configuration

namespace Toml

/-! ### Scalars -/

/-- A digit of the base sixteen. -/
def hexDigit (n : Nat) : Char := (Nat.toDigits 16 n).headD '0'

/-- The spelling of a character in a string. -/
def quoteChar (c : Char) : List Char :=
  if c == '"' || c == '\\' then ['\\', c]
  else if c == '\n' then ['\\', 'n']
  else if c == '\t' then ['\\', 't']
  else if c == '\r' then ['\\', 'r']
  else if isControl c then
    ['\\', 'u', '0', '0', hexDigit (c.toNat / 16), hexDigit (c.toNat % 16)]
  else [c]

/-- A text as a string. -/
def quote (s : String) : String :=
  String.ofList ('"' :: s.toList.flatMap quoteChar ++ ['"'])

/-- The spelling of a key. -/
def keyText (key : String) : String :=
  if !key.isEmpty && key.toList.all isKeyChar then key else quote key

mutual

/-- The spelling of a value on one line. -/
def inlineText : Value → String
  | .null => "\"\""
  | .bool b => if b then "true" else "false"
  | .integer n => toString n
  | .float x => x.text
  | .text s => quote s
  | .list items => "[" ++ ", ".intercalate (inlineTexts items) ++ "]"
  | .table ms =>
    String.singleton (Char.ofNat 0x7B) ++ " " ++ ", ".intercalate (assignmentTexts ms) ++ " " ++
      String.singleton (Char.ofNat 0x7D)

/-- The spellings of values. -/
def inlineTexts : List Value → List String
  | [] => []
  | v :: rest => inlineText v :: inlineTexts rest

/-- The spellings of assignments. -/
def assignmentTexts : List (String × Value) → List String
  | [] => []
  | (k, v) :: rest => (keyText k ++ " = " ++ inlineText v) :: assignmentTexts rest

end

/-- The spelling of a value behind its key. -/
def valueText : Value → String
  | .list items =>
    if items.length ≤ 1 then inlineText (.list items)
    else "[\n" ++ String.join ((inlineTexts items).map fun t => "    " ++ t ++ ",\n") ++ "]"
  | v => inlineText v

/-! ### Tables -/

/-- The assignments of a table, without the members that are tables. -/
def assignments (ms : List (String × Value)) : String :=
  String.join (ms.map fun (k, v) =>
    match v with
    | .table _ => ""
    | v => keyText k ++ " = " ++ valueText v ++ "\n")

mutual

/-- The tables in a table, each under its header; `path` is the header of the table. -/
def sections (path : List String) : List (String × Value) → List String
  | [] => []
  | (k, v) :: rest => sectionOf (path ++ [keyText k]) v ++ sections path rest

/-- A table under its header, with the tables in it. -/
def sectionOf (path : List String) : Value → List String
  | .table ms => ("[" ++ ".".intercalate path ++ "]\n" ++ assignments ms) :: sections path ms
  | _ => []

end

/-- The text of a table. -/
def render (ms : List (String × Value)) : String :=
  let top := assignments ms
  "\n".intercalate ((if top.isEmpty then [] else [top]) ++ sections [] ms)

end Toml

end Configuration

end Upkeep
