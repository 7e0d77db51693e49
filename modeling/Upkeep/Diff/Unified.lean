/-
**Unified diffs.**

The text of a patch set.  In the plain style it is a unified diff in the usual form, and a marked
line is a removed and an added line.  In the colored style headers and changes are highlighted and a
marked line is shown once, as it will be.

Main definitions:

* `Upkeep.Diff.FilePatch`, `Upkeep.Diff.PatchSet` — the hunks of files;
* `Upkeep.Diff.Style` — plain or colored;
* `Upkeep.Diff.render` — the text of a patch set.
-/

import Upkeep.Diff.Hunk
import Upkeep.Path.Basic
import Upkeep.Text.Paint

set_option relaxedAutoImplicit false
set_option autoImplicit false

namespace Upkeep

namespace Diff

open Text (Paint)

/-- The hunks of one file. -/
structure FilePatch where
  path : Path
  hunks : List Hunk
deriving DecidableEq, Repr

/-- The hunks of several files. -/
abbrev PatchSet := List FilePatch

/-- How a patch is shown. -/
inductive Style where
  /-- An exact unified diff. -/
  | plain
  /-- Highlighted for a terminal. -/
  | color
deriving DecidableEq, Repr

/-- A stretch of lines in a hunk header; a count of one is left out. -/
def Range.render (r : Range) : String :=
  if r.count = 1 then toString r.start else toString r.start ++ "," ++ toString r.count

/-- The header of a hunk. -/
def Hunk.header (h : Hunk) : String :=
  "@@ -" ++ h.old.render ++ " +" ++ h.new.render ++ " @@"

/-- A text in a highlight, if the style has highlights. -/
def Style.paint (style : Style) (p : Paint) (s : String) : String :=
  match style with
  | .plain => s
  | .color => p.apply s

/-- The lines that show a line of a hunk. -/
def HunkLine.rendered (style : Style) : HunkLine → List String
  | .kept text => [" " ++ text]
  | .removed text => [style.paint .red ("-" ++ text)]
  | .added text => [style.paint .green ("+" ++ text)]
  | .marked old new =>
    match style with
    | .plain => ["-" ++ old, "+" ++ new]
    | .color => [Paint.yellow.apply (" " ++ new)]

/-- The lines that show a hunk. -/
def Hunk.rendered (style : Style) (h : Hunk) : List String :=
  style.paint .cyan h.header :: h.lines.flatMap (HunkLine.rendered style)

/-- The lines that show the hunks of a file. -/
def FilePatch.rendered (style : Style) (p : FilePatch) : List String :=
  style.paint .bold ("--- " ++ p.path.text) :: style.paint .bold ("+++ " ++ p.path.text) ::
    p.hunks.flatMap (Hunk.rendered style)

/-- The text of a patch set. -/
def render (style : Style) (ps : PatchSet) : String :=
  Text.unlines (ps.flatMap (FilePatch.rendered style))

@[simp] theorem render_nil (style : Style) : render style [] = "" := rfl

end Diff

end Upkeep
