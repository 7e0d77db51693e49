/-
**A workspace: the disk and what was read of it.**

Places in a source file are known by line numbers, and these only mean something for the text as it
was when it was first read.  A workspace therefore holds on to the lines of every file from their
first reading on.  What a patch compares with is the held text too, unless the workspace rereads: then
it is the text on the disk at that moment, and the held text stays as it is.

Main definitions:

* `Upkeep.Files.Workspace`, `Upkeep.Files.Work` — workspaces and operations on them;
* `Upkeep.Files.readLines` — the lines of a file on the disk;
* `Upkeep.Files.heldLines`, `Upkeep.Files.heldLine` — the lines as they were first read;
* `Upkeep.Files.currentLines` — the lines that patches compare with;
* `Upkeep.Files.Workspace.hold` — a text given instead of a first reading.
-/

import Upkeep.Failure
import Upkeep.Files.Disk
import Upkeep.Text.Utf8

set_option relaxedAutoImplicit false
set_option autoImplicit false

namespace Upkeep

namespace Files

/-! ### Texts of files -/

/-- The bytes of a content. -/
def bytesOf (content : ByteArray) : List UInt8 := content.data.toList

/-- The text of a content. -/
def textOf (content : ByteArray) : String := Text.Utf8.decode (bytesOf content)

/-- The lines of a file on the disk. -/
def readLines (d : Disk) (p : Path) : Outcome (List String) :=
  match d.read? p with
  | some content => .ok (Text.lines (textOf content))
  | none => .error (.readFile p)

/-! ### Workspaces -/

/-- A disk, the lines of the files that were read, and whether patches compare with the disk. -/
structure Workspace where
  disk : Disk
  held : List (Path × List String)
  rereads : Bool

namespace Workspace

/-- A workspace in which nothing was read yet. -/
def ofDisk (d : Disk) (rereads : Bool) : Workspace := ⟨d, [], rereads⟩

/-- The held lines of a file. -/
def held? (w : Workspace) (p : Path) : Option (List String) :=
  (w.held.find? (·.1.same p)).map Prod.snd

/-- The workspace with lines held for a file, unless there are some already. -/
def holdLines (w : Workspace) (p : Path) (ls : List String) : Workspace :=
  if (w.held? p).isSome then w else { w with held := w.held ++ [(p, ls)] }

/-- The workspace with a text held for a file, unless there is one already. -/
def hold (w : Workspace) (p : Path) (text : String) : Workspace := w.holdLines p (Text.lines text)

end Workspace

/-- An operation on a workspace that can fail.  What it did to the workspace before it failed
stays. -/
abbrev Work := ExceptT Failure (StateM Workspace)

/-- The outcome of an operation, and the workspace it leaves behind. -/
def Work.on {α : Type} (m : Work α) (w : Workspace) : Outcome α × Workspace :=
  StateT.run (ExceptT.run m) w

/-- The lines of a file as they were when it was first read; this reading is the first one if there
was none. -/
def heldLines (p : Path) : Work (List String) := do
  let w ← get
  match w.held? p with
  | some ls => return ls
  | none =>
    let ls ← readLines w.disk p
    set (w.holdLines p ls)
    return ls

/-- A line, counted from one, of a file as it was when it was first read. -/
def heldLine (p : Path) (n : Nat) : Work (Option String) := do
  let ls ← heldLines p
  return if n = 0 then none else ls[n - 1]?

/-- The lines of a file that patches compare with. -/
def currentLines (p : Path) : Work (List String) := do
  let w ← get
  if w.rereads then readLines w.disk p else heldLines p

end Files

end Upkeep
