/-
**Reading and applying unified diffs.**

A unified diff is read by its headers alone: after a hunk header come as many lines as its two counts
say, whatever they look like, so that a removed line that looks like a header is no header.  A hunk
is applied at the place that its header states, and only if the lines it keeps and removes are there.

Main definitions:

* `Upkeep.Diff.readHunk?`, `Upkeep.Diff.read?` — a hunk and a patch set as they are written;
* `Upkeep.Diff.Hunk.oldLines`, `Upkeep.Diff.Hunk.newLines` — the two sides of a hunk;
* `Upkeep.Diff.applyHunks?` — the lines after all hunks.
-/

import Upkeep.Diff.Unified
import Upkeep.Text.Integer

set_option relaxedAutoImplicit false
set_option autoImplicit false

namespace Upkeep

namespace Diff

/-! ### Reading -/

/-- A stretch as a hunk header gives it; a count that is left out is one. -/
def Range.read? (s : List Char) : Option Range :=
  match Text.splitOnce? [','] s with
  | some (a, b) => do
    let start ← Text.digitsValue? a
    let count ← Text.digitsValue? b
    some ⟨start, count⟩
  | none => (Text.digitsValue? s).map fun start => ⟨start, 1⟩

/-- The two stretches of a hunk header. -/
def readHeader? (line : String) : Option (Range × Range) := do
  let rest ← Text.stripPrefix? "@@ -".toList line.toList
  let (old, rest) ← Text.splitOnce? " +".toList rest
  let new ← Text.stripSuffix? " @@".toList rest
  let old ← Range.read? old
  let new ← Range.read? new
  some (old, new)

/-- The body of a hunk with so many old and new lines, and the lines behind it. -/
def readBody? : (old new : Nat) → List String → Option (List HunkLine × List String)
  | 0, 0, rest => some ([], rest)
  | _, _, [] => none
  | old, new, line :: rest =>
    match line.toList, old, new with
    | ' ' :: s, old + 1, new + 1 =>
      (readBody? old new rest).map fun (b, r) => (.kept (String.ofList s) :: b, r)
    | '-' :: s, old + 1, new =>
      (readBody? old new rest).map fun (b, r) => (.removed (String.ofList s) :: b, r)
    | '+' :: s, old, new + 1 =>
      (readBody? old new rest).map fun (b, r) => (.added (String.ofList s) :: b, r)
    | _, _, _ => none

/-- No line is taken where none is counted. -/
@[simp] theorem readBody?_zero (rest : List String) : readBody? 0 0 rest = some ([], rest) := by
  rw [readBody?]

/-- A hunk at the start of some lines, and the lines behind it. -/
def readHunk? : List String → Option (Hunk × List String)
  | [] => none
  | line :: rest => do
    let (old, new) ← readHeader? line
    let (body, rest) ← readBody? old.count new.count rest
    some (⟨old, new, body⟩, rest)

/-- The hunks at the start of some lines, and the lines behind them.  Every hunk takes a line, so the
number of lines is budget enough. -/
def readHunks : (budget : Nat) → List String → List Hunk × List String
  | 0, ls => ([], ls)
  | budget + 1, ls =>
    match readHunk? ls with
    | none => ([], ls)
    | some (h, rest) =>
      let (hs, rest) := readHunks budget rest
      (h :: hs, rest)

/-- The file patches that some lines are made of. -/
def readFiles? : (budget : Nat) → List String → Option PatchSet
  | _, [] => some []
  | 0, _ => none
  | budget + 1, a :: b :: rest => do
    let old ← Text.afterStart? "--- " a
    let new ← Text.afterStart? "+++ " b
    let (hunks, rest) := readHunks rest.length rest
    let more ← readFiles? budget rest
    if old == new then some (⟨⟨new⟩, hunks⟩ :: more) else none
  | _, _ => none

/-- The lines of a diff.  Only line feeds end them. -/
def diffLines (s : String) : List String :=
  let segs := (Text.segments (· == '\n') s.toList).map String.ofList
  if segs.getLast? = some "" then segs.dropLast else segs

/-- The patch set that a text is, if it is one. -/
def read? (s : String) : Option PatchSet :=
  let ls := diffLines s
  readFiles? ls.length ls

/-! ### Applying -/

/-- The lines that a hunk expects. -/
def Hunk.oldLines (h : Hunk) : List String := h.lines.flatMap HunkLine.before

/-- The lines that a hunk leaves. -/
def Hunk.newLines (h : Hunk) : List String := h.lines.flatMap HunkLine.after

/-- The number of lines in front of a stretch. -/
def Range.offset (r : Range) : Nat := if r.count = 0 then r.start else r.start - 1

@[simp] theorem Range.count_between (first last : Nat) :
    (Range.between first last).count = last - first := rfl

/-- Both ways of giving a stretch tell the same place. -/
@[simp] theorem Range.offset_between (first last : Nat) :
    (Range.between first last).offset = first := by
  by_cases h : last - first = 0 <;> simp [Range.offset, Range.between, h]

/-- The lines behind `pos` lines of a file after all hunks. -/
def applyFrom? (pos : Nat) (rest : List String) : List Hunk → Option (List String)
  | [] => some rest
  | h :: hs =>
    let gap := h.old.offset - pos
    let here := rest.drop gap
    if pos ≤ h.old.offset && gap ≤ rest.length && h.oldLines.isPrefixOf here then
      (applyFrom? (h.old.offset + h.oldLines.length) (here.drop h.oldLines.length) hs).map
        fun after => rest.take gap ++ h.newLines ++ after
    else none

/-- The lines of a file after all hunks, if they fit. -/
def applyHunks? (hunks : List Hunk) (old : List String) : Option (List String) :=
  applyFrom? 0 old hunks

@[simp] theorem applyHunks?_nil (old : List String) : applyHunks? [] old = some old := rfl

end Diff

end Upkeep
