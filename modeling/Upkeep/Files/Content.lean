/-
**The contents of files, as bytes.**

A file is taken for a binary when a byte near its start is no part of a text.  Contents are read in
one of two ways, small ones into memory and large ones through a mapping of the file.

Main definitions:

* `Upkeep.Files.isTextByte`, `Upkeep.Files.seemsBinary` — what a text may hold;
* `Upkeep.Files.Reading`, `Upkeep.Files.readContent` — how a file is read.
-/

import Upkeep.Failure
import Upkeep.Files.Disk

set_option relaxedAutoImplicit false
set_option autoImplicit false

namespace Upkeep

namespace Files

/-- The bytes that may stand in a text: the bell, the backspace, the tabulator, the line feed, the
form feed, the carriage return, the escape, and everything from the space on except the delete
character. -/
def isTextByte (b : UInt8) : Bool :=
  [7, 8, 9, 10, 12, 13, 27].contains b || (0x20 ≤ b && b != 0x7f)

/-- The number of bytes that tell a binary from a text. -/
def probeLength : Nat := 256

/-- Whether one of the first bytes is no part of a text. -/
def seemsBinary (bytes : List UInt8) : Bool := (bytes.take probeLength).any fun b => !isTextByte b

@[simp] theorem seemsBinary_nil : seemsBinary [] = false := rfl

/-- How the content of a file is read. -/
inductive Reading where
  | mapped
  | buffered
deriving DecidableEq, Repr

/-- The length up to which a file is read into memory. -/
def bufferLimit : Nat := 1024 * 1024

/-- How a content of a given length is read. -/
def Reading.ofLength (n : Nat) : Reading := if bufferLimit < n then mapped else buffered

/-- The content of a file, and how it is read. -/
def readContent (d : Disk) (p : Path) : Outcome (Reading × ByteArray) :=
  match d.find? p with
  | some (_, .file content) => .ok (.ofLength content.size, content)
  | some _ => .error (.readFile p)
  | none => .error (.readMetadata p)

end Files

end Upkeep
