/-
**A disk.**

A disk holds files, directories and symbolic links under the root directory, and knows the directory
that relative paths start from.  An entry is named by the names on the way to it.  Directories that
something lies in need no entry of their own.

Paths are followed name by name: a link on the way is replaced by its target, `..` leads to the
directory above, and nothing lies below a file.  Links are followed at most a fixed number of times.

Main definitions:

* `Upkeep.Files.Entry`, `Upkeep.Files.Disk` — entries and disks;
* `Upkeep.Files.Disk.entry?` — what stands under a list of names;
* `Upkeep.Files.Disk.locate?` — where a path leads;
* `Upkeep.Files.Disk.read?`, `Upkeep.Files.Disk.write?`, `Upkeep.Files.Disk.remove` — files by path.
-/

import Upkeep.Path.Basic

set_option relaxedAutoImplicit false
set_option autoImplicit false

namespace Upkeep

namespace Files

/-- The names on the way from the root to an entry. -/
abbrev Names := List String

/-- What can stand under a name. -/
inductive Entry where
  | file (content : ByteArray)
  | directory
  | link (target : String)
deriving Inhabited

namespace Entry

/-- Whether an entry is a file. -/
def isFile : Entry → Bool
  | file _ => true
  | _ => false

/-- Whether an entry is a directory. -/
def isDirectory : Entry → Bool
  | directory => true
  | _ => false

/-- The content of a file. -/
def content? : Entry → Option ByteArray
  | file c => some c
  | _ => none

/-- Whether two entries are of one kind and hold the same. -/
def same : Entry → Entry → Bool
  | file c, file c' => c.data == c'.data
  | directory, directory => true
  | link t, link t' => t == t'
  | _, _ => false

end Entry

/-- A disk: its entries, and the directory that relative paths start from. -/
structure Disk where
  entries : List (Names × Entry)
  home : Names

namespace Disk

/-! ### Entries -/

/-- Whether something lies below a list of names. -/
def hasBelow (d : Disk) (names : Names) : Bool :=
  d.entries.any fun e => names.isPrefixOf e.1 && names.length < e.1.length

/-- What stands under a list of names.  The root, and whatever something lies in, is a directory. -/
def entry? (d : Disk) (names : Names) : Option Entry :=
  match d.entries.find? (·.1 == names) with
  | some e => some e.2
  | none => if names.isEmpty || d.hasBelow names then some .directory else none

/-- The disk with an entry put in place of what stood under its names. -/
def put (d : Disk) (names : Names) (e : Entry) : Disk :=
  { d with entries := (names, e) :: d.entries.filter (·.1 != names) }

/-- The disk without what stands under a list of names. -/
def erase (d : Disk) (names : Names) : Disk :=
  { d with entries := d.entries.filter (·.1 != names) }

/-! ### Following a path -/

/-- The segments of a written path. -/
def segmentsOf (s : String) : List String :=
  (Text.segments (· == '/') s.toList).map String.ofList

/-- The number of links that are followed on one way. -/
def maxLinks : Nat := 40

/-- Where a list of segments leads from the directory `here`, and what stands there.  When nothing
stands under the last name, the place is given without an entry.  The budget bounds the number of
segments and links passed. -/
def follow (d : Disk) : (budget links : Nat) → (here : Names) → List String →
    Option (Names × Option Entry)
  | 0, _, _, _ => none
  | _, _, here, [] => some (here, some .directory)
  | budget + 1, links, here, seg :: rest =>
    if seg.isEmpty || seg == "." then follow d budget links here rest
    else if seg == ".." then follow d budget links here.dropLast rest
    else
      let next := here ++ [seg]
      match d.entry? next with
      | some .directory => follow d budget links next rest
      | some (.file c) => if rest.isEmpty then some (next, some (.file c)) else none
      | some (.link target) =>
        match links with
        | 0 => none
        | links + 1 =>
          let start := if (⟨target⟩ : Path).isAbsolute then [] else here
          follow d budget links start (segmentsOf target ++ rest)
      | none => if rest.all String.isEmpty then some (next, none) else none

/-- A bound for the segments on the way along a path, those of links included. -/
def wayBound (d : Disk) (segs : List String) : Nat :=
  segs.length + (maxLinks + 1) *
    (d.entries.foldl (fun n e => match e.2 with
      | .link target => max n (target.length + 2)
      | _ => n) 1) + 1

/-- Where a path leads, and what stands there; the place is given without an entry when only its
last name is missing. -/
def locate? (d : Disk) (p : Path) : Option (Names × Option Entry) :=
  if p.text.isEmpty then none
  else
    let segs := segmentsOf p.text
    d.follow (d.wayBound segs) maxLinks (if p.isAbsolute then [] else d.home) segs

/-- What stands where a path leads. -/
def find? (d : Disk) (p : Path) : Option (Names × Entry) :=
  match d.locate? p with
  | some (names, some e) => some (names, e)
  | _ => none

/-- Whether a path leads to something. -/
def exists? (d : Disk) (p : Path) : Bool := (d.find? p).isSome

/-- Whether a path leads to a directory. -/
def isDirectory (d : Disk) (p : Path) : Bool := (d.find? p).any (·.2.isDirectory)

/-- The path of a list of names. -/
def pathOf (names : Names) : Path := ⟨"/" ++ "/".intercalate names⟩

/-- The path without links or dots on it that leads to the same place. -/
def canonical? (d : Disk) (p : Path) : Option Path := (d.find? p).map (pathOf ·.1)

/-! ### Files -/

/-- The content of the file that a path leads to. -/
def read? (d : Disk) (p : Path) : Option ByteArray := (d.find? p).bind (·.2.content?)

/-- Why nothing can be read where a path leads. -/
inductive Obstacle where
  | missing
  | isDirectory
  /-- A file stands where the path needs a directory. -/
  | notDirectory
deriving DecidableEq, Repr

/-- Why nothing can be read where a path leads that does not lead to a file. -/
def obstacle (d : Disk) (p : Path) : Obstacle :=
  if d.isDirectory p then .isDirectory
  else if (p.take p.components.length :: p.ancestors).any fun a => (d.read? a).isSome then
    .notDirectory
  else .missing

/-- The disk with a content written to the file that a path leads to; the file may be new, but the
directory that it lies in must be there. -/
def write? (d : Disk) (p : Path) (content : ByteArray) : Option Disk :=
  match d.locate? p with
  | some (names, some (.file _)) => some (d.put names (.file content))
  | some (names, none) =>
    if p.text.toList.getLast? == some '/' then none else some (d.put names (.file content))
  | _ => none

/-- The disk without the file that a path leads to. -/
def remove (d : Disk) (p : Path) : Disk :=
  match d.find? p with
  | some (names, .file _) =>
    -- The directory stays even if nothing else lies in it.
    (d.erase names).put names.dropLast .directory
  | _ => d

/-- The disk with a directory under a list of names, and with all directories above it. -/
def makeDirectories (d : Disk) (p : Path) : Option Disk :=
  match d.find? p with
  | some (_, .directory) => some d
  | some _ => none
  | none =>
    let names := p.components.filterMap Component.name?
    let start := if p.isAbsolute then [] else d.home
    some (d.put (start ++ names) .directory)

end Disk

end Files

end Upkeep
