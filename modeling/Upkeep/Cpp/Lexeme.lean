/-
**The lexemes of a source.**

A lexeme is a word, a number, a quoted text or a mark, with the bytes that it covers.  Blanks,
comments and lines for the preprocessor leave no lexeme.

Main definitions:

* `Upkeep.Cpp.Lexeme` — a lexeme and its place;
* `Upkeep.Cpp.lexemesFrom`, `Upkeep.Cpp.lexemes` — the lexemes of a text, in order.
-/

import Upkeep.Text.Search
import Upkeep.Unicode.Classes

set_option relaxedAutoImplicit false
set_option autoImplicit false

namespace Upkeep

namespace Cpp

/-- What a lexeme is. -/
inductive LexemeKind where
  | word
  | number
  | string
  | character
  | mark
deriving DecidableEq, Repr

/-- A lexeme and the bytes that it covers. -/
structure Lexeme where
  kind : LexemeKind
  text : String
  start : Nat
  stop : Nat
deriving DecidableEq, Repr

/-! ### What a text begins with -/

/-- The number of characters up to and with the end of a comment that may go over lines. -/
def blockLength : List Char → Nat
  | '*' :: '/' :: _ => 2
  | _ :: s => blockLength s + 1
  | [] => 0

/-- The number of characters of a line for the preprocessor: a backslash in front of the line feed
carries it on. -/
def directiveLength : List Char → Nat
  | '\\' :: _ :: s => directiveLength s + 2
  | c :: s => if c == '\n' then 0 else directiveLength s + 1
  | [] => 0

/-- The number of characters up to and with the closing quote. -/
def quotedLength (quote : Char) : List Char → Nat
  | '\\' :: _ :: s => quotedLength quote s + 2
  | c :: s => if c == quote then 1 else quotedLength quote s + 1
  | [] => 0

/-- Whether a word may begin with a character. -/
def beginsWord (c : Char) : Bool := Unicode.isWord c && !c.isDigit

/-- Whether a character may stand inside a number. -/
def isNumberPart (c : Char) : Bool := c.isAlphanum || c == '.' || c == '\''

/-- The marks of several characters; of two that fit the longer is in front. -/
def longMarks : List (List Char) :=
  ["<<=", ">>=", "...", "->", "++", "--", "<<", ">>", "<=", ">=", "==", "!=", "&&", "||", "+=",
    "-=", "*=", "/=", "%=", "&=", "|=", "^=", "::"].map String.toList

/-- The number of characters of the mark that a text begins with. -/
def markLength (s : List Char) : Nat :=
  ((longMarks.find? fun m => m.isPrefixOf s).map List.length).getD 1

/-- What a text begins with: the kind of a lexeme, unless it is skipped, and its number of
characters. -/
def shapeOf (s : List Char) : Option LexemeKind × Nat :=
  match s with
  | '/' :: '/' :: rest => (none, (rest.takeWhile (· != '\n')).length + 2)
  | '/' :: '*' :: rest => (none, blockLength rest + 2)
  | '#' :: rest => (none, directiveLength rest + 1)
  | '"' :: rest => (some .string, quotedLength '"' rest + 1)
  | '\'' :: rest => (some .character, quotedLength '\'' rest + 1)
  | c :: rest =>
    if c.isWhitespace then (none, 1)
    else if beginsWord c then (some .word, (rest.takeWhile Unicode.isWord).length + 1)
    else if c.isDigit then (some .number, (rest.takeWhile isNumberPart).length + 1)
    else (some .mark, markLength s)
  | [] => (none, 0)

/-! ### All lexemes -/

/-- The number of bytes of some characters. -/
def byteLength (s : List Char) : Nat := s.foldr (fun c n => c.utf8Size + n) 0

/-- The lexemes of a text behind `place` bytes.  Every step takes at least one character, so the
budget need not be larger than the text. -/
def lexemesFrom : (budget place : Nat) → List Char → List Lexeme
  | 0, _, _ => []
  | _, _, [] => []
  | budget + 1, place, s =>
    let (kind, n) := shapeOf s
    let stop := place + byteLength (s.take n)
    match kind with
    | none => lexemesFrom budget stop (s.drop n)
    | some k => ⟨k, String.ofList (s.take n), place, stop⟩ :: lexemesFrom budget stop (s.drop n)

/-- The lexemes of a text, in order. -/
def lexemes (text : String) : List Lexeme := lexemesFrom text.length 0 text.toList

@[simp] theorem lexemes_empty : lexemes "" = [] := rfl

end Cpp

end Upkeep
