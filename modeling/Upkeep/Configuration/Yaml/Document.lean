/-
**YAML documents.**

Lists and tables are written inside a line, in brackets and braces, or as blocks whose parts begin in
the same column.  The value of a part stands behind its mark on the same line, or on the lines below
it, further to the right; only the items of a list may stand directly below the key that they belong
to.

A text with more than one document is refused, and so are keys that repeat, keys that are no scalars,
and names for parts of a document.

Main definitions:

* `Upkeep.Configuration.Yaml.flow?` — lists and tables inside a line;
* `Upkeep.Configuration.Yaml.block?` — lists and tables as blocks;
* `Upkeep.Configuration.Yaml.parse?` — the value that a text holds.
-/

import Upkeep.Configuration.Yaml.Scalar

set_option relaxedAutoImplicit false
set_option autoImplicit false

namespace Upkeep

namespace Configuration

namespace Yaml

/-! ### Keys -/

/-- The text of a key. -/
def keyText? (v : Value) : Option String :=
  match v with
  | .text s => some s
  | .integer n => some (toString n)
  | .bool b => some (if b then "true" else "false")
  | _ => none

/-- A table with one more member, unless its key is there already. -/
def addMember? (ms : List (String × Value)) (key : Value) (v : Value) :
    Option (List (String × Value)) := do
  let k ← keyText? key
  if (Value.get? ms k).isSome then none else some (ms ++ [(k, v)])

/-- A key at the start of a block, and the cursor behind its colon. -/
def blockKey? (c : Cursor) : Option (Value × Cursor) := do
  let (key, c') ← match quoted? c with
    | some (s, c') => if c'.column > c.column then some (Value.text s, c') else none
    | none =>
      if beginsPlain false c.rest then
        let (body, c') := plainPart false c
        some (ofPlain (String.ofList body), c')
      else none
  let c' := c'.skip isSpace
  match c'.rest with
  | ':' :: s => if endsKey false s then some (key, c'.advance 1) else none
  | _ => none

/-! ### Inside a line -/

mutual

/-- A value inside brackets or braces, or one that begins with these. -/
def flow? : (budget : Nat) → Cursor → Option (Value × Cursor)
  | 0, _ => none
  | budget + 1, c =>
    match c.rest with
    | [] => none
    | a :: _ =>
      if a == '[' then flowItems? budget [] (c.advance 1).toToken
      else if a.toNat == 0x7B then flowMembers? budget [] (c.advance 1).toToken
      else match quoted? c with
        | some (s, c) => some (.text s, c)
        | none => (plain? true 0 c).map fun (s, c) => (ofPlain s, c)

/-- The value behind a key inside brackets or braces; nothing is a value too. -/
def flowValue? : (budget : Nat) → Cursor → Option (Value × Cursor)
  | 0, _ => none
  | budget + 1, c =>
    match c.rest with
    | a :: _ =>
      if a == ',' || a == ']' || a.toNat == 0x7D then some (.null, c) else flow? budget c
    | [] => none

/-- The rest of a list in brackets. -/
def flowItems? : (budget : Nat) → (read : List Value) → Cursor → Option (Value × Cursor)
  | 0, _, _ => none
  | budget + 1, read, c =>
    match c.rest with
    | ']' :: _ => some (.list read.reverse, c.advance 1)
    | _ => do
      let (v, c) ← flow? budget c
      let c := c.toToken
      let (v, c) ← match c.rest with
        | ':' :: _ => do
          let (w, c) ← flowValue? budget (c.advance 1).toToken
          let ms ← addMember? [] v w
          some (Value.table ms, c.toToken)
        | _ => some (v, c)
      match c.rest with
      | ',' :: _ => flowItems? budget (v :: read) (c.advance 1).toToken
      | ']' :: _ => some (.list (v :: read).reverse, c.advance 1)
      | _ => none

/-- The rest of a table in braces. -/
def flowMembers? : (budget : Nat) → (read : List (String × Value)) → Cursor →
    Option (Value × Cursor)
  | 0, _, _ => none
  | budget + 1, read, c =>
    if c.rest.head?.any (·.toNat == 0x7D) then some (.table read, c.advance 1)
    else do
      let (key, c) ← flow? budget c
      let c := c.toToken
      let (v, c) ← match c.rest with
        | ':' :: _ => flowValue? budget (c.advance 1).toToken
        | _ => some (.null, c)
      let read ← addMember? read key v
      let c := c.toToken
      match c.rest with
      | a :: _ =>
        if a == ',' then flowMembers? budget read (c.advance 1).toToken
        else if a.toNat == 0x7D then some (.table read, c.advance 1)
        else none
      | [] => none

end

/-! ### Blocks -/

/-- Whether an item of a list begins here. -/
def atItem (c : Cursor) : Bool :=
  match c.rest with
  | '-' :: s => endsKey false s
  | _ => false

/-- Whether the rest of the line holds nothing but a comment. -/
def lineIsOver (c : Cursor) : Bool :=
  match (c.skip isSpace).rest with
  | [] => true
  | a :: _ => isNewline a || a == '#'

/-- A scalar, or a list or table inside a line, for which the lines have to be indented further than
`parent`. -/
def inlineValue? (budget : Nat) (parent : Int) (c : Cursor) : Option (Value × Cursor) :=
  match c.rest with
  | [] => none
  | a :: _ =>
    if a == '|' || a == '>' then
      (blockScalar? (a == '>') parent (c.advance 1)).map fun (s, c) => (.text s, c)
    else if a == '[' || a.toNat == 0x7B then flow? budget c
    else match quoted? c with
      | some (s, c) => some (.text s, c)
      | none => (plain? false (parent + 1).toNat c).map fun (s, c) => (ofPlain s, c)

mutual

/-- A value that begins at a token of its own, for which the lines have to be indented further than
`parent`. -/
def block? : (budget : Nat) → (parent : Int) → Cursor → Option (Value × Cursor)
  | 0, _, _ => none
  | budget + 1, parent, c =>
    if atItem c then blockItems? budget c.column [] c
    else if (blockKey? c).isSome then blockMembers? budget c.column [] c
    else inlineValue? budget parent c

/-- The items of a list in a column. -/
def blockItems? : (budget : Nat) → (column : Nat) → (read : List Value) → Cursor →
    Option (Value × Cursor)
  | 0, _, _, _ => none
  | budget + 1, column, read, c => do
    let next := (c.advance 1).toToken
    let (v, c) ←
      if next.atEnd || next.column ≤ column then some (.null, next)
      else block? budget column next
    let next := c.toToken
    if next.atEnd || next.column < column then some (.list (v :: read).reverse, c)
    else if next.column = column then
      if atItem next then blockItems? budget column (v :: read) next
      else some (.list (v :: read).reverse, c)
    else none

/-- The members of a table in a column. -/
def blockMembers? : (budget : Nat) → (column : Nat) → (read : List (String × Value)) → Cursor →
    Option (Value × Cursor)
  | 0, _, _, _ => none
  | budget + 1, column, read, c => do
    let (key, c) ← blockKey? c
    let next := c.toToken
    let (v, c) ←
      if !lineIsOver c then
        if atItem next || (blockKey? next).isSome then none else inlineValue? budget column next
      else if next.atEnd || next.column < column then some (.null, next)
      else if next.column = column then
        if atItem next then blockItems? budget column [] next else some (.null, next)
      else block? budget column next
    let read ← addMember? read key v
    let next := c.toToken
    if next.atEnd || next.column < column then some (.table read, c)
    else if next.column = column && !atItem next then blockMembers? budget column read next
    else none

end

/-! ### Documents -/

/-- The text behind the lines at its start that are directives. -/
def skipDirectives : (budget : Nat) → Cursor → Cursor
  | 0, c => c
  | budget + 1, c =>
    let t := c.toToken
    if t.column == 0 && t.rest.head? == some '%' then
      skipDirectives budget (t.skip (!isNewline ·))
    else t

/-- The value that a text holds, if it is well formed and has at most one document.  A text without a
document holds an empty table. -/
def parse? (s : String) : Option Value := do
  let start := skipDirectives s.length ⟨0, s.toList⟩
  if start.rest.isEmpty then some (.table [])
  else
    let start :=
      if start.atMark && start.rest.head? == some '-' then (start.advance 3).toToken else start
    let (v, c) ← if start.atEnd then some (.null, start) else block? (4 * s.length + 4) (-1) start
    let last := c.toToken
    if last.rest.isEmpty then some v
    else if last.atMark && last.rest.head? == some '.' then
      if (last.advance 3).toToken.rest.isEmpty then some v else none
    else none

end Yaml

end Configuration

end Upkeep
