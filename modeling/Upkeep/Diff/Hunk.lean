/-
**Hunks.**

A hunk shows a group of edits: where its lines stand in the old and in the new list, and the lines
themselves, each kept, removed or added.  Lines are counted from one; a hunk without lines on one
side names the line before it there.  A line that was only marked for manual work is shown as such,
provided that the whole block of removed and added lines around it was.

Main definitions:

* `Upkeep.Diff.mark` — what is put in front of a line that needs manual work;
* `Upkeep.Diff.HunkLine`, `Upkeep.Diff.Hunk` — hunks;
* `Upkeep.Diff.collapseMarks` — blocks of marked lines;
* `Upkeep.Diff.hunksOf`, `Upkeep.Diff.hunks` — the hunks of an edit script, and of two lists of
  lines.
-/

import Upkeep.Diff.Compact
import Upkeep.Diff.Group
import Upkeep.Text.Search

set_option relaxedAutoImplicit false
set_option autoImplicit false

namespace Upkeep

namespace Diff

/-- What is put in front of a line that needs manual work. -/
def mark : String := "XXX "

/-! ### Lines -/

/-- A line of a hunk. -/
inductive HunkLine where
  | kept (text : String)
  | removed (text : String)
  | added (text : String)
  /-- A line that only gained the mark. -/
  | marked (old new : String)
deriving DecidableEq, Repr

namespace HunkLine

/-- The line of the old list that is shown, if there is one. -/
def before : HunkLine → List String
  | kept s => [s]
  | removed s => [s]
  | added _ => []
  | marked old _ => [old]

/-- The line of the new list that is shown, if there is one. -/
def after : HunkLine → List String
  | kept s => [s]
  | removed _ => []
  | added s => [s]
  | marked _ new => [new]

/-- Whether a line was removed. -/
def isRemoved : HunkLine → Bool
  | removed _ => true
  | _ => false

/-- Whether a line was added. -/
def isAdded : HunkLine → Bool
  | added _ => true
  | _ => false

/-- The marked line that a removed and an added line make, if the added one only gained the
mark. -/
def pair? : HunkLine → HunkLine → Option HunkLine
  | removed old, added new => if new = mark ++ old then some (marked old new) else none
  | _, _ => none

end HunkLine

/-! ### Marks -/

/-- The marked lines that a block of removed and added lines makes, if there are as many of both and
every added line only gained the mark. -/
def markedBlock? (removed added : List HunkLine) : Option (List HunkLine) :=
  if removed.length = added.length then
    (List.zipWith HunkLine.pair? removed added).mapM id
  else none

/-- Blocks of removed lines with the added lines that follow them, where all lines only gained the
mark, turned into marked lines.  The budget is the number of lines. -/
def collapseFrom : (budget : Nat) → List HunkLine → List HunkLine
  | 0, ls => ls
  | _, [] => []
  | budget + 1, l :: ls =>
    if l.isRemoved then
      let removed := (l :: ls).takeWhile HunkLine.isRemoved
      let rest := (l :: ls).dropWhile HunkLine.isRemoved
      let added := rest.takeWhile HunkLine.isAdded
      (markedBlock? removed added).getD (removed ++ added) ++
        collapseFrom budget (rest.dropWhile HunkLine.isAdded)
    else l :: collapseFrom budget ls

/-- The lines with their marked blocks shown as such. -/
def collapseMarks (ls : List HunkLine) : List HunkLine := collapseFrom ls.length ls

/-! ### Hunks -/

/-- A stretch of lines as a header gives it: its first line, counted from one, and its length. -/
structure Range where
  start : Nat
  count : Nat
deriving DecidableEq, Repr

/-- The stretch between two places.  An empty stretch is given by the line before it. -/
def Range.between (first last : Nat) : Range :=
  let count := last - first
  ⟨if count = 0 then first else first + 1, count⟩

/-- A hunk. -/
structure Hunk where
  old : Range
  new : Range
  lines : List HunkLine
deriving DecidableEq, Repr

/-- The lines that an edit shows. -/
def Edit.hunkLines (old new : List String) (e : Edit) : List HunkLine :=
  match e with
  | .keep .. => (e.oldLines old).map .kept
  | _ => (e.oldLines old).map .removed ++ (e.newLines new).map .added

/-- The hunk of a group. -/
def hunkOfGroup? (old new : List String) (group : List Edit) : Option Hunk :=
  match group.head?, group.getLast? with
  | some first, some last =>
    some ⟨.between first.oldStart last.oldEnd, .between first.newStart last.newEnd,
      collapseMarks (group.flatMap (·.hunkLines old new))⟩
  | _, _ => none

/-- The hunks that the edits between two lists make, with `context` kept lines around every
change. -/
def hunksOf (old new : List String) (context : Nat) (es : List Edit) : List Hunk :=
  (groups context es).filterMap (hunkOfGroup? old new)

/-- The hunks between two lists of lines, with `context` kept lines around every change. -/
def hunks (old new : List String) (context : Nat) : List Hunk :=
  hunksOf old new context (script old new)

end Diff

end Upkeep
