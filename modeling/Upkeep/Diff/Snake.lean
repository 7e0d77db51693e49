/-
**The middle of a shortest edit script.**

Two searches run over the diagonals of the grid of old and new lines, one from the start and one
from the end.  Both keep, for every diagonal, the farthest place they have reached with a given
number of edits.  Where they meet, a shortest script can be cut in two.  The searches keep their
frontiers from one cut to the next; what an earlier cut left behind is not cleared.

The place found is only a hint: a script that is cut at any place inside the grid is a script.

Main definitions:

* `Upkeep.Diff.Frontier` — the farthest places by diagonal;
* `Upkeep.Diff.Frontiers` — the frontiers of the two searches;
* `Upkeep.Diff.middle?` — where the searches meet.
-/

import Upkeep.Diff.Edit

set_option relaxedAutoImplicit false
set_option autoImplicit false

namespace Upkeep

namespace Diff

/-! ### Frontiers -/

/-- The farthest places reached, by diagonal.  Diagonal `k` is stored at place `k + offset`. -/
structure Frontier where
  offset : Nat
  reached : Array Nat
deriving Repr

namespace Frontier

/-- A frontier for diagonals of distance less than `size` from the main one, nothing reached. -/
def ofSize (size : Nat) : Frontier := ⟨size, Array.replicate (2 * size) 0⟩

/-- The farthest place on a diagonal. -/
def get (f : Frontier) (k : Int) : Nat := f.reached.getD (k + f.offset).toNat 0

/-- The frontier with another place on a diagonal. -/
def put (f : Frontier) (k : Int) (x : Nat) : Frontier :=
  { f with reached := f.reached.setIfInBounds (k + f.offset).toNat x }

end Frontier

/-- The frontiers of the search from the start and of the search from the end. -/
structure Frontiers where
  fore : Frontier
  back : Frontier
deriving Repr

/-- The largest number of edits that either search has to make for lists of these lengths. -/
def searchDepth (n m : Nat) : Nat := (n + m + 1) / 2 + 1

/-- Frontiers for lists of these lengths. -/
def Frontiers.ofLengths (n m : Nat) : Frontiers :=
  ⟨.ofSize (searchDepth n m), .ofSize (searchDepth n m)⟩

/-! ### One step -/

variable {α : Type} [DecidableEq α]

/-- How far two arrays agree from the places `i` and `j` on. -/
def runLength (as bs : Array α) (i j : Nat) : Nat :=
  if hi : i < as.size then
    if hj : j < bs.size then
      if as[i] = bs[j] then runLength as bs (i + 1) (j + 1) + 1 else 0
    else 0
  else 0
termination_by as.size - i

/-- A step of a search on one diagonal: the place where it enters the diagonal, and the place up to
which the lines agree from there. -/
structure Step where
  enterOld : Nat
  enterNew : Int
  leaveOld : Nat
  leaveNew : Int
deriving Repr

/-- The step of a search with `d` edits on diagonal `k`: it enters from the neighbour that reaches
farther, and goes on as long as the lines agree. -/
def Frontier.step (f : Frontier) (as bs : Array α) (d : Nat) (k : Int) : Step :=
  let x := if k = -(d : Int) ∨ (k ≠ d ∧ f.get (k - 1) < f.get (k + 1)) then f.get (k + 1)
    else f.get (k - 1) + 1
  let y := (x : Int) - k
  let run := if x < as.size ∧ 0 ≤ y ∧ y < bs.size then runLength as bs x y.toNat else 0
  ⟨x, y, x + run, y + run⟩

/-! ### The search -/

/-- What both searches run over: the lists in both directions, and the difference of their
lengths. -/
structure Grid (α : Type) where
  old : Array α
  new : Array α
  oldBack : Array α
  newBack : Array α

/-- The grid of two lists. -/
def Grid.ofLists {α : Type} (old new : List α) : Grid α :=
  ⟨old.toArray, new.toArray, old.reverse.toArray, new.reverse.toArray⟩

/-- The difference of the lengths. -/
def Grid.skew {α : Type} (g : Grid α) : Int := (g.old.size : Int) - g.new.size

/-- A place to cut, as numbers of old and new lines in front of it. -/
abbrev Cut := Nat × Nat

/-- One diagonal of the search from the start. -/
def foreStep (g : Grid α) (d : Nat) (k : Int) (fs : Frontiers) : Frontiers × Option Cut :=
  let s := fs.fore.step g.old g.new d k
  let fs := { fs with fore := fs.fore.put k s.leaveOld }
  let met := g.skew % 2 = 1 ∧ (k - g.skew).natAbs < d ∧
    g.old.size ≤ s.leaveOld + fs.back.get (-(k - g.skew))
  (fs, if met then some (s.enterOld, s.enterNew.toNat) else none)

/-- One diagonal of the search from the end. -/
def backStep (g : Grid α) (d : Nat) (k : Int) (fs : Frontiers) : Frontiers × Option Cut :=
  let s := fs.back.step g.oldBack g.newBack d k
  let fs := { fs with back := fs.back.put k s.leaveOld }
  let met := g.skew % 2 = 0 ∧ (k - g.skew).natAbs ≤ d ∧
    g.old.size ≤ s.leaveOld + fs.fore.get (-(k - g.skew))
  (fs, if met then some (g.old.size - s.leaveOld, ((g.new.size : Int) - s.leaveNew).toNat) else none)

/-- Run over diagonals until the searches meet. -/
def overDiagonals (step : Int → Frontiers → Frontiers × Option Cut) :
    List Int → Frontiers → Frontiers × Option Cut
  | [], fs => (fs, none)
  | k :: ks, fs =>
    match step k fs with
    | (fs, some cut) => (fs, some cut)
    | (fs, none) => overDiagonals step ks fs

/-- The diagonals that `d` edits can end on, from the farthest one down. -/
def diagonals (d : Nat) : List Int :=
  (List.range (d + 1)).map fun (i : Nat) => (d : Int) - 2 * (i : Int)

/-- Search with `d` edits and more, for `rounds` rounds. -/
def searchFrom (g : Grid α) (d : Nat) : (rounds : Nat) → Frontiers → Frontiers × Option Cut
  | 0, fs => (fs, none)
  | rounds + 1, fs =>
    match overDiagonals (foreStep g d) (diagonals d) fs with
    | (fs, some cut) => (fs, some cut)
    | (fs, none) =>
      match overDiagonals (backStep g d) (diagonals d) fs with
      | (fs, some cut) => (fs, some cut)
      | (fs, none) => searchFrom g (d + 1) rounds fs

/-- The place where the searches meet, and the frontiers they leave behind. -/
def middle? (old new : List α) (fs : Frontiers) : Frontiers × Option Cut :=
  searchFrom (.ofLists old new) 0 (searchDepth old.length new.length)
    ⟨fs.fore.put 1 0, fs.back.put 1 0⟩

end Diff

end Upkeep
