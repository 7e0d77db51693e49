/-
**Patches.**

A patch keeps a working copy of every file it touches.  An edit names its line by number, as the
files were when they were first read, and finds it in the working copy by its text, so that earlier
edits of the same file do not get in the way.  The patch shows the difference between the working
copies and the files as they are.

Main definitions:

* `Upkeep.Patch` — working copies by file, in the order in which they were touched;
* `Upkeep.Patch.locate` — the place of a line in the working copy;
* `Upkeep.blankRun` — the blank lines that go with a deleted line;
* `Upkeep.countBlanks` — the same, counted in words;
* `Upkeep.LineEdit` — what can be done to a line;
* `Upkeep.Patch.edit` — a patch with one more edit;
* `Upkeep.Patch.changes`, `Upkeep.Patch.render` — what a patch does.
-/

import Upkeep.Diff.Unified
import Upkeep.Files.Workspace
import Upkeep.Text.Blank

set_option relaxedAutoImplicit false
set_option autoImplicit false

namespace Upkeep

open Files

/-! ### Edits of one line -/

/-- The number of blank lines that go with the deleted line at a place, on each side of it: as far
as the lines at equal distances above and below it are both there and both blank. -/
def blankRun (text : List String) (place : Nat) : Nat :=
  (List.zip (text.take place).reverse (text.drop (place + 1))).takeWhile
    (fun p => Text.isBlankLine p.1 && Text.isBlankLine p.2) |>.length

/-- The sum of two words. -/
def addWords (a b : UInt64) : Stoppable UInt64 :=
  if a.toNat + b.toNat < UInt64.size then .ok (a + b) else .error .overflow

/-- Whether there is a blank line at an index. -/
def blankAt (text : List String) (index : UInt64) : Bool := text[index.toNat]?.any Text.isBlankLine

/-- The number of blank lines that go with the line at an index, of which `n` on each side have been
counted. -/
def countBlanksFrom (text : List String) (index n : UInt64) : Stoppable UInt64 :=
  if h : n < index then do
    let below ← addWords (← addWords index n) 1
    if below.toNat < text.length && blankAt text (index - n - 1) && blankAt text below then
      countBlanksFrom text index (n + 1)
    else return n
  else return n
termination_by index.toNat - n.toNat
decreasing_by
  have hlt : n.toNat < index.toNat := UInt64.lt_iff_toNat_lt.1 h
  have hindex := index.toNat_lt
  rw [UInt64.toNat_add, UInt64.toNat_one, Nat.mod_eq_of_lt (by omega)]
  omega

/-- The number of blank lines that go with the line at an index, counted one by one on both sides of it
at once.  The index is a word, and so are the places that are looked at. -/
def countBlanks (text : List String) (index : UInt64) : Stoppable UInt64 := countBlanksFrom text index 0

/-- What can be done to a line of a file. -/
inductive LineEdit where
  /-- Delete it together with the blank lines around it. -/
  | delete
  /-- Put another text in its place. -/
  | replace (text : String)
  /-- Put any number of lines in its place. -/
  | splice (lines : List String)
  /-- Put the mark in front of it, unless it is there. -/
  | mark
deriving DecidableEq, Repr

/-- A line with the mark in front of it. -/
def marked (line : String) : String :=
  if Text.startsWith line Diff.mark then line else Diff.mark ++ line

/-- The lines that come for the line at a place. -/
def LineEdit.applyAt (e : LineEdit) (text : List String) (i : Nat) : List String :=
  match e with
  | delete =>
    let n := blankRun text i
    text.take (i - n) ++ text.drop (i + n + 1)
  | replace line => text.set i line
  | splice lines => text.take i ++ lines ++ text.drop (i + 1)
  | mark => text.modify i marked

/-! ### Patches -/

/-- The working copies of a patch in the order in which the files were touched, and the number of
kept lines that it shows around a change. -/
structure Patch where
  copies : List (Path × List String)
  context : Nat
deriving DecidableEq, Repr

namespace Patch

/-- A patch that touches nothing. -/
def empty (context : Nat) : Patch := ⟨[], context⟩

/-- Whether a patch touches no file. -/
def isEmpty (p : Patch) : Bool := p.copies.isEmpty

/-- The files that a patch touches. -/
def files (p : Patch) : List Path := p.copies.map Prod.fst

/-- The working copy of a file. -/
def copy? (p : Patch) (file : Path) : Option (List String) :=
  (p.copies.find? (·.1.same file)).map Prod.snd

/-- The patch with the working copy of a file changed. -/
def modifyCopy (p : Patch) (file : Path) (f : List String → List String) : Patch :=
  { p with copies := p.copies.map fun c => if c.1.same file then (c.1, f c.2) else c }

/-- The patch with a working copy of a file. -/
def load (p : Patch) (file : Path) : Work Patch := do
  match p.copy? file with
  | some _ => return p
  | none =>
    let text ← currentLines file
    return { p with copies := p.copies ++ [(file, text)] }

/-- The place of a line in the working copy: the first line with the text that the numbered line had
when the file was first read.  The file is loaded once the number is known to be good. -/
def locate (p : Patch) (file : Path) (line : Nat) : Work (Option Nat × Patch) := do
  match ← heldLine file line with
  | none => return (none, p)
  | some content =>
    let p ← p.load file
    return ((p.copy? file).bind fun text => text.findIdx? (· == content), p)

/-- The patch with one more edit, and whether the line was found. -/
def edit (p : Patch) (file : Path) (line : Nat) (e : LineEdit) : Work (Bool × Patch) := do
  match ← p.locate file line with
  | (none, p) => return (false, p)
  | (some i, p) => return (true, p.modifyCopy file (e.applyAt · i))

/-- The hunks of every file that a patch changes. -/
def changes (p : Patch) : Work Diff.PatchSet := do
  let sets ← p.copies.mapM fun (file, text) => do
    let now ← currentLines file
    return (file, Diff.hunks now text p.context)
  return (sets.filter fun s => !s.2.isEmpty).map fun (file, hunks) => ⟨file, hunks⟩

/-- The text of a patch. -/
def render (p : Patch) (style : Diff.Style) : Work String := do
  return Diff.render style (← p.changes)

end Patch

end Upkeep
