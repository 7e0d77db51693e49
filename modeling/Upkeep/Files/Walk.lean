/-
**Walking a directory.**

A walk lists the files below a root, in the order of their paths.  Nothing is left out on its own:
names that begin with a dot are listed, and no settings inside the tree are consulted.  Links below
the root are neither followed nor listed; the root itself may be a link, and a root that is a file is
the only file of its walk.

What is not wanted is told by patterns and extensions.  A directory below the root is passed over
with all it holds when a pattern describes its path as walked, that is, the root joined with the
names below it; a file is passed over when a pattern describes its path relative to the root.

Main definitions:

* `Upkeep.Files.Walker` — what a walk leaves out;
* `Upkeep.Files.Walker.relativeFiles` — the names below the root of the files that are wanted;
* `Upkeep.Files.Walker.files` — their paths, in order.
-/

import Upkeep.Data.Ordered
import Upkeep.Files.Disk
import Upkeep.Path.Glob

set_option relaxedAutoImplicit false
set_option autoImplicit false

namespace Upkeep

namespace Files

/-- What a walk leaves out: what is described by one of the patterns and, if there are extensions,
every file with none of these. -/
structure Walker where
  skip : Globs
  extensions : List String
deriving Inhabited

namespace Walker

/-- The lower-case form of a text, for the letters of ASCII only. -/
def lowerAscii (s : List Char) : List Char := s.map Char.toLower

/-- The walker that leaves out what the given patterns describe, and all files without one of the
given extensions; these may be written with dots in front and in any case. -/
def ofTexts (patterns : List String) (extensions : List String) : Outcome Walker := do
  let skip ← Globs.ofTexts patterns
  return ⟨skip, extensions.map fun e => String.ofList (lowerAscii (e.toList.dropWhile (· == '.')))⟩

/-- Whether a file name has one of the extensions, if there are any. -/
def hasExtension (w : Walker) (name : String) : Bool :=
  w.extensions.isEmpty ||
    match Path.extensionOfName? name.toList with
    | some e => w.extensions.contains (String.ofList (lowerAscii e))
    | none => false

/-- The path of names below a root, seen from the root. -/
def relativePath (names : Names) : Path := ⟨"/".intercalate names⟩

/-- The path of names below a root, as walked. -/
def walkedPath (root : Path) (names : Names) : Path := names.foldl (fun p n => p.join ⟨n⟩) root

/-- The directories between the root and the last of the names. -/
def directoriesAbove (names : Names) : List Names :=
  (List.range (names.length - 1)).map fun n => names.take (n + 1)

/-- Whether a file below the root is wanted. -/
def wants (w : Walker) (root : Path) (names : Names) : Bool :=
  w.hasExtension (names.getLastD "") && !w.skip.matchesAny (relativePath names) &&
    (directoriesAbove names).all fun dir => !w.skip.matchesAny (walkedPath root dir)

/-- The names below the root of the files that are wanted.  A root that is a file has no names below
it.  A root written as a single dash stands for no place on the disk. -/
def relativeFiles (w : Walker) (d : Disk) (root : Path) : List Names :=
  if root.same ⟨"-"⟩ then [] else
  match d.find? root with
  | some (_, .file _) =>
    if w.hasExtension (root.fileName?.getD "") && !w.skip.matchesAny ⟨""⟩ then [[]] else []
  | some (top, .directory) =>
    d.entries.filterMap fun (names, e) =>
      match Text.stripPrefix? top names with
      | some (n :: rest) => if e.isFile && w.wants root (n :: rest) then some (n :: rest) else none
      | _ => none
  | _ => []

/-- The paths of the files that are wanted, as walked and in order. -/
def files (w : Walker) (d : Disk) (root : Path) : List Path :=
  ((w.relativeFiles d root).map (walkedPath root)).mergeSort fun a b => (a.compare b).isLE

end Walker

end Files

end Upkeep
