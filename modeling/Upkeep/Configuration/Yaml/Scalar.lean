/-
**The scalars of YAML.**

A reader stands at a cursor, a column and the text from there on.  Scalars are written plainly, in
quotes, or as a block of indented lines.  A line ending inside a plain or quoted scalar is folded: it
stands for a space, and every further one for itself.

What a plain scalar stands for is decided by its text; a scalar in quotes or in a block is always a
text.

Main definitions:

* `Upkeep.Configuration.Yaml.Cursor`, `Upkeep.Configuration.Yaml.Cursor.toToken` — cursors, and the
  way to the next token;
* `Upkeep.Configuration.Yaml.ofPlain` — the value of a plain scalar;
* `Upkeep.Configuration.Yaml.plain?`, `Upkeep.Configuration.Yaml.quoted?`,
  `Upkeep.Configuration.Yaml.blockScalar?` — scalars.
-/

import Upkeep.Configuration.Toml.Scalar
import Upkeep.Text.Blank

set_option relaxedAutoImplicit false
set_option autoImplicit false

namespace Upkeep

namespace Configuration

namespace Yaml

open Data (Binary64)

/-! ### Cursors -/

/-- A place in a text: its column, and the text from there on. -/
structure Cursor where
  column : Nat
  rest : List Char
deriving Inhabited

/-- The blanks inside a line. -/
def isSpace (c : Char) : Bool := c == ' ' || c == '\t'

/-- The characters of line endings. -/
def isNewline (c : Char) : Bool := c == '\n' || c == '\r'

/-- Where the way to the next token stands. -/
inductive Way where
  /-- In the indentation of a line. -/
  | indent
  /-- Behind a token. -/
  | behind
  /-- Behind a blank. -/
  | blank
  | comment
deriving DecidableEq, Repr

namespace Cursor

/-- The cursor some characters further on the same line. -/
def advance (c : Cursor) (n : Nat) : Cursor := ⟨c.column + n, c.rest.drop n⟩

/-- The cursor behind the members of a class. -/
def skip (p : Char → Bool) (c : Cursor) : Cursor := c.advance (c.rest.takeWhile p).length

/-- The way to the next token behind blanks, comments and line endings.  A tabulator in an
indentation ends it. -/
def walk (column : Nat) : Way → List Char → Cursor
  | _, [] => ⟨column, []⟩
  | way, c :: s =>
    if isNewline c then walk 0 .indent s
    else match way with
      | .comment => walk (column + 1) .comment s
      | _ =>
        if c == ' ' then walk (column + 1) (if way = .indent then .indent else .blank) s
        else if c == '\t' && way != .indent then walk (column + 1) .blank s
        else if c == '#' && way != .behind then walk (column + 1) .comment s
        else ⟨column, c :: s⟩

/-- The next token. -/
def toToken (c : Cursor) : Cursor := walk c.column (if c.column = 0 then .indent else .behind) c.rest

/-- Whether the cursor stands at a line of three marks that separates documents. -/
def atMark (c : Cursor) : Bool :=
  c.column == 0 &&
    match c.rest with
    | a :: b :: d :: s =>
      (a == '-' || a == '.') && a == b && b == d &&
        (s.isEmpty || s.head?.any fun e => isSpace e || isNewline e)
    | _ => false

/-- Whether nothing follows that belongs to the document. -/
def atEnd (c : Cursor) : Bool := c.rest.isEmpty || c.atMark

end Cursor

/-! ### Plain scalars -/

/-- The value of a number with a fraction or an exponent. -/
def real? (s : List Char) : Option Binary64 := do
  let (negative, r) := Toml.unsigned s
  let (mantissa, exponent) := Toml.splitAt? (fun c => c == 'e' || c == 'E') r
  let (whole, part) := Toml.splitAt? (· == '.') mantissa
  let part := part.getD []
  if (whole.isEmpty && part.isEmpty) || !(whole ++ part).all Char.isDigit then none
  else do
    let e : Int ← match exponent with
      | some e =>
        let (down, ds) := Toml.unsigned e
        if ds.isEmpty || !ds.all Char.isDigit then none
        else some (if down then -(Value.digitsOf ds : Int) else (Value.digitsOf ds : Int))
      | none => some 0
    return .ofDecimal negative (Value.digitsOf (whole ++ part)) (e - part.length)

/-- A whole number in another base. -/
def based? (base : Nat) (s : List Char) : Option Value := do
  let (negative, ds) := Toml.unsigned s
  match ← Toml.based? base (if ds.contains '_' then [] else ds) with
  | .integer n => some (.integer (if negative then -n else n))
  | v => some v

/-- The value that the text of a plain scalar is a number of. -/
def number? (s : List Char) : Option Value :=
  let special := match s with
    | '0' :: 'x' :: r => based? 16 r
    | '0' :: 'o' :: r => based? 8 r
    | _ => none
  special.or (((Text.integer? s).map .integer).or ((real? s).map .float))

/-- The value of a plain scalar. -/
def ofPlain (s : String) : Value :=
  if ["~", "null", ""].contains s then .null
  else if s == "true" then .bool true
  else if s == "false" then .bool false
  else (number? s.toList).getD (.text s)

/-- The marks of lists and objects inside a line. -/
def isFlowMark (c : Char) : Bool :=
  [',', '[', ']'].contains c || c.toNat == 0x7B || c.toNat == 0x7D

/-- Whether a colon in front of a text ends a key. -/
def endsKey (inFlow : Bool) (s : List Char) : Bool :=
  match s with
  | [] => true
  | c :: _ => isSpace c || isNewline c || (inFlow && isFlowMark c)

/-- The marks that no plain scalar begins with. -/
def isMark (c : Char) : Bool :=
  isFlowMark c || ['#', '&', '*', '!', '|', '>', '\'', '"', '%', '@', Char.ofNat 0x60].contains c

/-- Whether a plain scalar begins here. -/
def beginsPlain (inFlow : Bool) : List Char → Bool
  | [] => false
  | c :: s =>
    if ['-', '?', ':'].contains c then !endsKey inFlow s
    else !isMark c && !isSpace c && !isNewline c

/-- The part of a plain scalar on one line, with the blanks behind it. -/
def plainLine (inFlow : Bool) (before : Char) : List Char → List Char
  | [] => []
  | c :: s =>
    if isNewline c || (c == '#' && isSpace before) || (c == ':' && endsKey inFlow s)
        || (inFlow && isFlowMark c) then []
    else c :: plainLine inFlow c s

/-- A part of a plain scalar without blanks at its end, and the cursor behind the part. -/
def plainPart (inFlow : Bool) (c : Cursor) : List Char × Cursor :=
  let body := Text.dropEndWhile isSpace (plainLine inFlow ' ' c.rest)
  (body, c.advance body.length)

/-- The number of line endings at the start of a text, blanks left aside. -/
def newlines : List Char → Nat
  | [] => 0
  | '\n' :: s => newlines s + 1
  | c :: s => if isSpace c || c == '\r' then newlines s else 0

/-- What some line endings stand for. -/
def fold (n : Nat) : List Char := if n ≤ 1 then [' '] else List.replicate (n - 1) '\n'

/-- A plain scalar with the lines that continue it: lines indented by at least `least`. -/
def plainFrom (inFlow : Bool) (least : Nat) : (budget : Nat) → Cursor → List Char × Cursor
  | 0, c => ([], c)
  | budget + 1, c =>
    let (body, next) := plainPart inFlow c
    if !(next.skip isSpace).rest.head?.any isNewline then (body, next)
    else
      let n := newlines next.rest
      let line := Cursor.walk 0 .indent (next.rest.dropWhile fun c => isSpace c || isNewline c)
      let start := next.toToken
      if start.atEnd || line.rest.length != start.rest.length || start.column < least
          || (inFlow && !beginsPlain inFlow start.rest) then (body, next)
      else
        let (more, last) := plainFrom inFlow least budget start
        if more.isEmpty then (body, next) else (body ++ fold n ++ more, last)

/-- A plain scalar. -/
def plain? (inFlow : Bool) (least : Nat) (c : Cursor) : Option (String × Cursor) :=
  if beginsPlain inFlow c.rest then
    let (body, next) := plainFrom inFlow least (c.rest.length + 1) c
    some (String.ofList body, next)
  else none

/-! ### Quoted scalars -/

/-- The character of an escape behind its backslash, and the number of characters that it takes. -/
def escape? : List Char → Option (Char × Nat)
  | '0' :: _ => some (Char.ofNat 0, 1)
  | 'a' :: _ => some (Char.ofNat 7, 1)
  | 'b' :: _ => some (Char.ofNat 8, 1)
  | 't' :: _ => some ('\t', 1)
  | '\t' :: _ => some ('\t', 1)
  | 'n' :: _ => some ('\n', 1)
  | 'v' :: _ => some (Char.ofNat 11, 1)
  | 'f' :: _ => some (Char.ofNat 12, 1)
  | 'r' :: _ => some ('\r', 1)
  | 'e' :: _ => some (Char.ofNat 27, 1)
  | ' ' :: _ => some (' ', 1)
  | '"' :: _ => some ('"', 1)
  | '/' :: _ => some ('/', 1)
  | '\\' :: _ => some ('\\', 1)
  | 'N' :: _ => some (Char.ofNat 0x85, 1)
  | '_' :: _ => some (Char.ofNat 0xA0, 1)
  | 'L' :: _ => some (Char.ofNat 0x2028, 1)
  | 'P' :: _ => some (Char.ofNat 0x2029, 1)
  | 'x' :: s => (Toml.hexChar? 2 s).map fun (c, _) => (c, 3)
  | 'u' :: s => (Toml.hexChar? 4 s).map fun (c, _) => (c, 5)
  | 'U' :: s => (Toml.hexChar? 8 s).map fun (c, _) => (c, 9)
  | _ => none

/-- The rest of a scalar in quotes; `read` holds the characters so far, latest first, and `soft` the
number of blanks among them that a line ending takes away. -/
def quotedFrom (quote : Char) : (budget : Nat) → (read : List Char) → (soft : Nat) → Cursor →
    Option (String × Cursor)
  | 0, _, _, _ => none
  | budget + 1, read, soft, c =>
    if c.atMark then none
    else match c.rest with
      | [] => none
      | a :: s =>
        if a == quote then
          if quote == '\'' && s.head? == some '\'' then
            quotedFrom quote budget ('\'' :: read) 0 (c.advance 2)
          else some (String.ofList read.reverse, c.advance 1)
        else if isNewline a then
          let n := newlines c.rest
          let rest := c.rest.dropWhile fun c => isSpace c || isNewline c
          let column := (c.rest.take (c.rest.length - rest.length)).reverse.takeWhile (!isNewline ·)
          quotedFrom quote budget ((fold n).reverse ++ read.drop soft) 0 ⟨column.length, rest⟩
        else if a == '\\' && quote == '"' then
          if s.head?.any isNewline then
            let rest := s.dropWhile fun c => isSpace c || isNewline c
            let extra := List.replicate (newlines s - 1) '\n'
            let column := (s.take (s.length - rest.length)).reverse.takeWhile (!isNewline ·)
            quotedFrom quote budget (extra ++ read) 0 ⟨column.length, rest⟩
          else do
            let (e, n) ← escape? s
            quotedFrom quote budget (e :: read) 0 (c.advance (n + 1))
        else quotedFrom quote budget (a :: read) (if isSpace a then soft + 1 else 0) (c.advance 1)

/-- A scalar in quotes. -/
def quoted? (c : Cursor) : Option (String × Cursor) :=
  match c.rest with
  | a :: s => if a == '"' || a == '\'' then quotedFrom a (s.length + 1) [] 0 (c.advance 1) else none
  | [] => none

/-! ### Blocks of lines -/

/-- What becomes of the line endings at the end of a block. -/
inductive Chomp where
  | strip
  | clip
  | keep
deriving DecidableEq, Repr

/-- The head of a block: its chomping and its indentation, if that is given, and the text behind. -/
def blockHead : List Char → Chomp × Option Nat × List Char
  | '-' :: c :: s => if c.isDigit && c != '0' then (.strip, some (c.toNat - '0'.toNat), s)
    else (.strip, none, c :: s)
  | '+' :: c :: s => if c.isDigit && c != '0' then (.keep, some (c.toNat - '0'.toNat), s)
    else (.keep, none, c :: s)
  | '-' :: s => (.strip, none, s)
  | '+' :: s => (.keep, none, s)
  | d :: s =>
    if d.isDigit && d != '0' then
      let size := some (d.toNat - '0'.toNat)
      match s with
      | '-' :: s => (.strip, size, s)
      | '+' :: s => (.keep, size, s)
      | s => (.clip, size, s)
    else (.clip, none, d :: s)
  | [] => (.clip, none, [])

/-- The lines of a block: those that are indented enough or blank. -/
def blockLines (indent : Nat) (lines : List (List Char)) : List (List Char) :=
  lines.takeWhile fun l => l.all (· == ' ') || indent ≤ (l.takeWhile (· == ' ')).length

/-- The lines of a folded block as one text: between two lines that begin with no blank a single line
ending stands for a space. -/
def foldLines : List (List Char) → List Char
  | [] => []
  | [l] => l
  | a :: b :: rest =>
    let flush := fun (l : List Char) => !l.isEmpty && !l.head?.any isSpace
    if flush a && flush b then a ++ ' ' :: foldLines (b :: rest)
    else if flush a && b.isEmpty && ((b :: rest).find? (!·.isEmpty)).any flush then
      a ++ foldLines (b :: rest)
    else a ++ '\n' :: foldLines (b :: rest)

/-- A block of lines behind its mark; its lines are indented further than `parent`. -/
def blockScalar? (folded : Bool) (parent : Int) (c : Cursor) : Option (String × Cursor) := do
  let (chomp, size, s) := blockHead c.rest
  let headRest := s.takeWhile (!isNewline ·)
  let comment := headRest.head?.any isSpace && (headRest.dropWhile isSpace).head? == some '#'
  if !(headRest.all isSpace || comment)
  then none
  let body := match s.dropWhile (!isNewline ·) with
    | '\r' :: '\n' :: r => r
    | _ :: r => r
    | [] => []
  let lines := (Text.segments (· == '\n') body).map fun l => Text.dropEndWhile (· == '\r') l
  let least := (parent + 1).toNat
  let found := (lines.find? fun l => !l.all (· == ' ')).map fun l => (l.takeWhile (· == ' ')).length
  let indent := match size with
    | some n => (max parent 0).toNat + n
    | none => max least (found.getD least)
  let taken := blockLines indent lines
  let stripped := taken.map (·.drop indent)
  let filled := (stripped.reverse.dropWhile List.isEmpty).reverse
  let text := if folded then foldLines filled else ['\n'].intercalate filled
  let trailing := stripped.length - filled.length
  let ending := match chomp with
    | .strip => []
    | .clip => if filled.isEmpty then [] else ['\n']
    | .keep => if filled.isEmpty then List.replicate (trailing - 1) '\n'
      else List.replicate (if taken.length < lines.length then trailing + 1 else trailing) '\n'
  let left := (Text.segments (· == '\n') body).drop taken.length
  return (String.ofList (text ++ ending), ⟨0, ['\n'].intercalate left⟩)

end Yaml

end Configuration

end Upkeep
