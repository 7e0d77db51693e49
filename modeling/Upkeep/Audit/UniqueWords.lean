/-
**Words that occur once.**

A word that occurs only once in a code base is often misspelled.  A word is a run of at least two
ASCII letters, digits and underscores that does not begin with a digit; all other bytes, those of
characters beyond ASCII among them, stand between words.

An index holds every occurrence of every word of the texts that were added to it.  From the
occurrences sorted by word, those that stand alone are read off, so the order in which texts are added
does not matter.

Main definitions:

* `Upkeep.Audit.wordsOfLine`, `Upkeep.Audit.Sighting.ofText` — the words of a line and of a text;
* `Upkeep.Audit.WordIndex`, `Upkeep.Audit.WordIndex.addText` — indexes;
* `Upkeep.Audit.WordIndex.unique` — the words that occur once, in the order of their places;
* `Upkeep.Audit.indexTree` — the index of the files below a directory;
* `Upkeep.Audit.renderUnique` — their text.
-/

import Upkeep.Files.Content
import Upkeep.Files.Walk
import Upkeep.Files.Workspace
import Upkeep.Path.Normal
import Upkeep.Text.Paint

set_option relaxedAutoImplicit false
set_option autoImplicit false

namespace Upkeep

namespace Audit

open Files

/-! ### Words -/

/-- The letters, digits and the underscore of ASCII. -/
def isWordByte (b : UInt8) : Bool :=
  (0x61 ≤ b && b ≤ 0x7a) || (0x41 ≤ b && b ≤ 0x5a) || (0x30 ≤ b && b ≤ 0x39) || b == 0x5f

/-- Whether a run of word bytes is a word: it does not begin with a digit, and is no single byte. -/
def isIdentifier : List UInt8 → Bool
  | first :: _ :: _ => !(0x30 ≤ first && first ≤ 0x39)
  | _ => false

/-- The words of a line. -/
def wordsOfLine (line : List UInt8) : List String :=
  ((Text.segments (!isWordByte ·) line).filter isIdentifier).map Text.Utf8.decode

/-- A word at its place: the path of the text, and the number of the line. -/
structure Sighting where
  path : String
  line : Nat
  word : String
deriving DecidableEq, Repr, Inhabited

namespace Sighting

/-- The order of occurrences: by path, line and word. -/
def order (a b : Sighting) : Ordering :=
  (compare a.path b.path).then ((compare a.line b.line).then (compare a.word b.word))

/-- The words of a text, with their places. -/
def ofText (path : String) (text : List UInt8) : List Sighting :=
  ((Text.segments (· == 0x0a) text).zipIdx 1).flatMap fun (l, n) =>
    (wordsOfLine l).map fun w => ⟨path, n, w⟩

/-- The text of an occurrence. -/
def render (o : Sighting) : String :=
  Text.padEnd 50 (o.path ++ ":" ++ toString o.line) ++ " " ++ o.word

end Sighting

/-! ### Indexes -/

/-- All occurrences of words in some texts. -/
structure WordIndex where
  sightings : List Sighting
deriving DecidableEq, Repr, Inhabited

/-- The members of a list whose neighbours all belong to other words; `before` is the word in front
of the list.  In a list that is sorted by word these are the words that occur once. -/
def alone (before : Option String) : List Sighting → List Sighting
  | [] => []
  | o :: rest =>
    let others := alone (some o.word) rest
    if before != some o.word && rest.head?.map (·.word) != some o.word then o :: others else others

namespace WordIndex

/-- The index of no text. -/
def empty : WordIndex := ⟨[]⟩

/-- The index with the words of one more text. -/
def addText (ix : WordIndex) (path : String) (text : List UInt8) : WordIndex :=
  ⟨Sighting.ofText path text ++ ix.sightings⟩

/-- The words that occur once, without those whose path begins with one of the excluded texts, in the
order of their places. -/
def unique (ix : WordIndex) (excluded : List String) : List Sighting :=
  let sorted := ix.sightings.mergeSort fun a b => (compare a.word b.word).isLE
  let kept := (alone none sorted).filter fun o => !excluded.any (Text.startsWith o.path ·)
  kept.mergeSort fun a b => (a.order b).isLE

@[simp] theorem sightings_addText (ix : WordIndex) (path : String) (text : List UInt8) :
    (ix.addText path text).sightings = Sighting.ofText path text ++ ix.sightings := rfl

end WordIndex

@[simp] theorem alone_nil (before : Option String) : alone before [] = [] := rfl

/-! ### Trees -/

/-- The pattern of the directories in which revisions are kept. -/
def revisionPattern : String := "**/.git"

/-- The path of a file seen from the root, with slashes for backslashes; a file elsewhere keeps its
path. -/
def relativeText (root p : Path) : String := Path.unifySlashes ((p.below? root).getD p).text

/-- The index with the words of a file; a binary has none. -/
def addFile (d : Disk) (root : Path) (ix : WordIndex) (p : Path) : Outcome WordIndex := do
  let bytes := bytesOf (← readContent d p).2
  return if seemsBinary bytes then ix else ix.addText (relativeText root p) bytes

/-- The index of the files below some directories of the root; what is no directory is passed over. -/
def indexTree (d : Disk) (root : Path) (subpaths ignore : List String) : Outcome WordIndex := do
  let walker ← Walker.ofTexts (ignore ++ [revisionPattern]) []
  let files := subpaths.flatMap fun s =>
    let dir := root.join ⟨s⟩
    if d.isDirectory dir then walker.files d dir else []
  files.foldlM (addFile d root) .empty

/-- The text of words that occur once. -/
def renderUnique (os : List Sighting) : String := Text.unlines (os.map Sighting.render)

end Audit

end Upkeep
