/-
**Edit scripts.**

An edit script says how one list of lines becomes another.  Lines on which the lists agree at their
ends are kept.  What is between is cut in two where a shortest script has its middle, and both parts
are treated in the same way; a part with only one side is deleted or inserted as a whole.

Main definitions:

* `Upkeep.Diff.scriptFrom` — the script for stretches of the lists;
* `Upkeep.Diff.rawScript` — the script of two lists, as the cuts leave it.
-/

import Upkeep.Diff.Snake

set_option relaxedAutoImplicit false
set_option autoImplicit false

namespace Upkeep

namespace Diff

variable {α : Type} [DecidableEq α]

/-- An edit that keeps lines, if there are any. -/
def keepSome (i j n : Nat) : List Edit := if n = 0 then [] else [.keep i j n]

/-- A cut that leaves less on both of its sides. -/
def properCut (n m : Nat) (cut : Cut) : Bool :=
  cut.1 ≤ n && cut.2 ≤ m && 0 < cut.1 + cut.2 && cut.1 + cut.2 < n + m

/-- The script that turns `old` into `new`, where these are stretches that begin at the places `i`
and `j`.  The frontiers of the searches are handed on.  The budget is larger than the number of
lines, and every part of a proper cut has fewer lines. -/
def scriptFrom : (budget : Nat) → (i j : Nat) → (old new : List α) → Frontiers →
    List Edit × Frontiers
  | 0, _, _, _, _, fs => ([], fs)
  | budget + 1, i, j, old, new, fs =>
    let first := commonStart old new
    let i' := i + first
    let j' := j + first
    let last := commonEnd (old.drop first) (new.drop first)
    let old' := (old.drop first).take (old.length - first - last)
    let new' := (new.drop first).take (new.length - first - last)
    let head := keepSome i j first
    let tail := keepSome (i' + old'.length) (j' + new'.length) last
    if old'.isEmpty && new'.isEmpty then (head ++ tail, fs)
    else if new'.isEmpty then (head ++ [.delete i' j' old'.length] ++ tail, fs)
    else if old'.isEmpty then (head ++ [.insert i' j' new'.length] ++ tail, fs)
    else
      match middle? old' new' fs with
      | (fs, cut) =>
        match cut.filter (properCut old'.length new'.length) with
        | some (x, y) =>
          let (before, fs) := scriptFrom budget i' j' (old'.take x) (new'.take y) fs
          let (after, fs) := scriptFrom budget (i' + x) (j' + y) (old'.drop x) (new'.drop y) fs
          (head ++ before ++ after ++ tail, fs)
        | none =>
          (head ++ [.delete i' j' old'.length, .insert i' j' new'.length] ++ tail, fs)

/-- The script of two lists, as the cuts leave it. -/
def rawScript (old new : List α) : List Edit :=
  (scriptFrom (old.length + new.length + 1) 0 0 old new
    (.ofLengths old.length new.length)).1

end Diff

end Upkeep
