/-
**Typed reads on a line.**

A typed read of a cvar is its name as a whole word, a dot or an arrow with blanks around it, and one
of the typed fields as a whole word.  A line is cut into its reads and the characters between them.

Main definitions:

* `Upkeep.Cvar.FieldNames` — the typed fields, in the order in which they are tried;
* `Upkeep.Cvar.readAt?` — the read at the start of a text;
* `Upkeep.Cvar.Piece`, `Upkeep.Cvar.pieces` — a line cut at its reads.
-/

import Upkeep.Text.Search
import Upkeep.Text.Words

set_option relaxedAutoImplicit false
set_option autoImplicit false

namespace Upkeep

namespace Cvar

/-- The names of the typed fields, in the order in which they are tried. -/
abbrev FieldNames := List String

/-- The last character of a text, or the one in front of it. -/
def lastOf (before : Option Char) (s : List Char) : Option Char := s.getLast?.or before

/-- All ways to skip blanks at the start of a text: what is skipped and what is left, the longest
way first. -/
def blankSplits (s : List Char) : List (List Char × List Char) :=
  let n := (s.takeWhile Unicode.isBlank).length
  (List.range (n + 1)).reverse.map fun i => (s.take i, s.drop i)

/-- The first of the fields that stands at the start of a text and ends at a word boundary. -/
def fieldAt? (fields : FieldNames) (before : Option Char) (s : List Char) : Option String :=
  fields.find? fun f =>
    match Text.stripPrefix? f.toList s with
    | some rest => Text.boundary (lastOf before f.toList) rest.head?
    | none => false

/-- A dot or an arrow at the start of a text. -/
def accessAt? : List Char → Option (List Char × List Char)
  | '.' :: s => some (['.'], s)
  | '-' :: '>' :: s => some (['-', '>'], s)
  | _ => none

/-- A read of a cvar: the text it covers, and the field. -/
structure TypedRead where
  text : List Char
  field : String
deriving DecidableEq, Repr

/-- The read at the start of a text, if there is one; `before` is the character in front of it. -/
def readAt? (name : String) (fields : FieldNames) (before : Option Char) (s : List Char) :
    Option TypedRead :=
  match Text.stripPrefix? name.toList s with
  | none => none
  | some rest =>
    if Text.boundary before s.head? then
      (blankSplits rest).findSome? fun (blanks, rest) =>
        (accessAt? rest).bind fun (access, rest) =>
          (blankSplits rest).findSome? fun (blanks', rest) =>
            (fieldAt? fields (lastOf (access.getLast?) blanks') rest).map fun f =>
              ⟨name.toList ++ blanks ++ access ++ blanks' ++ f.toList, f⟩
    else none

/-- A piece of a line: a read, or a character between reads. -/
inductive Piece where
  | read (r : TypedRead)
  | plain (c : Char)
deriving DecidableEq, Repr

/-- The text of a piece. -/
def Piece.text : Piece → List Char
  | read r => r.text
  | plain c => [c]

/-- The pieces of the rest of a line; `skip` counts the characters of the last read that are still
to be passed over, `before` is the character in front. -/
def piecesFrom (name : String) (fields : FieldNames) :
    (skip : Nat) → (before : Option Char) → List Char → List Piece
  | _, _, [] => []
  | skip + 1, _, c :: s => piecesFrom name fields skip (some c) s
  | 0, before, c :: s =>
    match readAt? name fields before (c :: s) with
    | some r => .read r :: piecesFrom name fields (r.text.length - 1) (some c) s
    | none => .plain c :: piecesFrom name fields 0 (some c) s

/-- A line cut at its reads of a cvar. -/
def pieces (name : String) (fields : FieldNames) (s : List Char) : List Piece :=
  piecesFrom name fields 0 none s

end Cvar

end Upkeep
