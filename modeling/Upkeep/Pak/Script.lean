/-
**The keywords of scripts.**

A script is read without its comments as a row of tokens: braces, words, and names of files.  A word
begins with a letter; a run of characters with a slash or a backslash inside it is the name of a file.
Whatever fits nowhere is passed over one byte at a time.  Words of more than one letter inside braces
are keywords, in lower case.

Main definitions:

* `Upkeep.Pak.Script.stripComments` — a script without its comments;
* `Upkeep.Pak.Script.Token`, `Upkeep.Pak.Script.tokens` — the tokens of a script;
* `Upkeep.Pak.Script.Census`, `Upkeep.Pak.Script.keywords` — the keywords, and what is known of the
  braces;
* `Upkeep.Pak.Script.Kind`, `Upkeep.Pak.Script.Kind.covers` — the kinds of scripts.
-/

import Upkeep.Pak.Entities

set_option relaxedAutoImplicit false
set_option autoImplicit false

namespace Upkeep

namespace Pak

namespace Script

/-! ### Comments -/

def slash : UInt8 := 0x2f

def backslash : UInt8 := 0x5c

def asterisk : UInt8 := 0x2a

/-- What follows the end of a bracketed comment. -/
def afterComment? : List UInt8 → Option (List UInt8)
  | a :: b :: s => if a == asterisk && b == slash then some s else afterComment? (b :: s)
  | _ => none

theorem afterComment?_length {s r : List UInt8} (h : afterComment? s = some r) :
    r.length < s.length := by
  fun_induction afterComment? s with
  | case1 a b s _ =>
      simp only [Option.some.injEq] at h
      rw [← h, List.length_cons, List.length_cons]
      omega
  | case2 a b s _ ih =>
      have := ih h
      rw [List.length_cons]
      omega
  | case3 => simp at h

theorem length_dropWhile_le (p : UInt8 → Bool) (s : List UInt8) :
    (s.dropWhile p).length ≤ s.length := (List.dropWhile_suffix p).sublist.length_le

/-- The rest of a script without its comments; `bracketed` tells that bracketed comments are looked
for.  Behind one that is never closed there is no other. -/
def stripFrom (bracketed : Bool) (s : List UInt8) : List UInt8 :=
  match s with
  | [] => []
  | a :: t =>
    if a == slash && t.head? == some slash then
      have := length_dropWhile_le (· != newline) t
      stripFrom bracketed (t.dropWhile (· != newline))
    else if bracketed && a == slash && t.head? == some asterisk then
      match h : afterComment? t.tail with
      | some r =>
        have := afterComment?_length h
        have : t.tail.length ≤ t.length := by simp
        stripFrom bracketed r
      | none => a :: stripFrom false t
    else a :: stripFrom bracketed t
termination_by s.length
decreasing_by all_goals (simp only [List.length_cons]; omega)

/-- A script without its comments.  A line comment ends before the end of its line; a bracketed
comment that is never closed is none. -/
def stripComments (s : List UInt8) : List UInt8 := stripFrom true s

@[simp] theorem stripComments_nil : stripComments [] = [] := by simp [stripComments, stripFrom]

/-! ### Tokens -/

/-- The tokens of a script. -/
inductive Token where
  | opening
  | closing
  /-- The name of a file. -/
  | file (bytes : List UInt8)
  | word (bytes : List UInt8)
deriving DecidableEq, Repr

/-- Whether a byte is a blank: the tabulator and the controls up to the carriage return, and the
space. -/
def isBlankByte (b : UInt8) : Bool := b == space || (9 ≤ b && b ≤ 13)

/-- Whether a byte can be part of the name of a file. -/
def isNameByte (b : UInt8) : Bool := !isBlankByte b && b != openBrace && b != closeBrace

/-- Whether a byte is a letter of ASCII. -/
def isLetterByte (b : UInt8) : Bool := (0x41 ≤ b && b ≤ 0x5a) || (0x61 ≤ b && b ≤ 0x7a)

/-- Whether a byte can be part of a word. -/
def isWordByte (b : UInt8) : Bool := isLetterByte b || (0x30 ≤ b && b ≤ 0x39) || b == 0x5f

/-- Whether a byte is a slash of either kind. -/
def isSlash (b : UInt8) : Bool := b == slash || b == backslash

/-- Whether a run has a slash inside it, neither first nor last. -/
def hasInnerSlash (run : List UInt8) : Bool := run.tail.dropLast.any isSlash

/-- The tokens of a text without comments. -/
def tokens (s : List UInt8) : List Token :=
  match s with
  | [] => []
  | b :: t =>
    if b == openBrace then .opening :: tokens t
    else if b == closeBrace then .closing :: tokens t
    else if isNameByte b && hasInnerSlash (b :: t.takeWhile isNameByte) then
      have := length_dropWhile_le isNameByte t
      .file (b :: t.takeWhile isNameByte) :: tokens (t.dropWhile isNameByte)
    else if isLetterByte b then
      have := length_dropWhile_le isWordByte t
      .word (b :: t.takeWhile isWordByte) :: tokens (t.dropWhile isWordByte)
    else tokens t
termination_by s.length
decreasing_by all_goals (simp only [List.length_cons]; omega)

/-! ### Keywords -/

/-- What is known of a script: its keywords, the number of braces that are open, and whether some
brace was closed that was not open. -/
structure Census where
  keywords : Counts
  depth : Nat
  unexpectedClose : Bool
deriving DecidableEq, Repr

namespace Census

/-- The census of nothing. -/
def empty : Census := ⟨[], 0, false⟩

/-- Whether a brace is still open. -/
def unclosed (c : Census) : Bool := c.depth != 0

end Census

/-- The lower-case text of a word. -/
def keywordText (bytes : List UInt8) : String :=
  String.ofList (bytes.map fun b => (Char.ofNat b.toNat).toLower)

/-- The census with one more token; words outside braces count only if that is asked for. -/
def count (anyDepth : Bool) (c : Census) : Token → Census
  | .opening => { c with depth := c.depth + 1 }
  | .closing =>
    if c.depth = 0 then { c with unexpectedClose := true } else { c with depth := c.depth - 1 }
  | .file _ => c
  | .word w =>
    if (anyDepth || 0 < c.depth) && 1 < w.length then
      { c with keywords := c.keywords.add (keywordText w) }
    else c

/-- The census of a script. -/
def keywords (s : List UInt8) (anyDepth : Bool) : Census :=
  (tokens (stripComments s)).foldl (count anyDepth) .empty

/-! ### Kinds -/

/-- The kinds of scripts. -/
inductive Kind where
  | shader
  | particle
  | trail
deriving DecidableEq, Repr

namespace Kind

/-- The extension of the scripts of a kind. -/
def extension : Kind → String
  | shader => "shader"
  | particle => "particle"
  | trail => "trail"

/-- All kinds. -/
def all : List Kind := [shader, particle, trail]

/-- The kind with an extension. -/
def ofExtension? (s : String) : Option Kind := all.find? (·.extension == s)

/-- Whether an entry of a pak is a script of a kind: it lies below the directory of the scripts and
has the extension.  There is no line feed in its name. -/
def covers (k : Kind) (entry : String) : Bool :=
  match Text.stripFoldPrefix? "scripts/".toList entry.toList with
  | some rest =>
    match Text.stripFoldSuffix? ('.' :: k.extension.toList) rest with
    | some stem => !stem.contains '\n'
    | none => false
  | none => false

end Kind

end Script

end Pak

end Upkeep
