/-
**Compact scripts.**

A script is tidied before it is shown.  An insertion next to kept lines is moved up and then down
past them as long as the lines that change sides are equal, deletions and insertions that meet
change places, and edits of one kind that meet are joined.  What is moved keeps the rest of its
places as they are.  Deletions are tidied first, insertions after them.

Main definitions:

* `Upkeep.Diff.Cursor` — a place in a script;
* `Upkeep.Diff.shiftUp`, `Upkeep.Diff.shiftDown` — move an edit as far as it goes;
* `Upkeep.Diff.compact` — the tidied script;
* `Upkeep.Diff.joined` — neighbours joined into replacements and longer stretches;
* `Upkeep.Diff.script` — the script of two lists.
-/

import Upkeep.Diff.Script

set_option relaxedAutoImplicit false
set_option autoImplicit false

namespace Upkeep

namespace Diff

variable {α : Type} [DecidableEq α]

/-! ### Places in a script -/

/-- A place in a script: the edits before it, nearest first, the edit at it, and the edits after
it. -/
structure Cursor where
  before : List Edit
  this : Edit
  after : List Edit
deriving Repr

/-- The size of a list of edits: every edit counts one, and kept lines count too. -/
def bulk (es : List Edit) : Nat := es.foldr (fun e n => e.oldLength + 1 + n) 0

/-! ### Moving an edit -/

/-- What follows an edit that moves up past `n` kept lines: they come after it. -/
def keptAfter (keep this : Edit) (n : Nat) : List Edit → List Edit
  | e :: after =>
    if e.keeps then e.growLeft n :: after
    else .keep (keep.oldEnd - n) (this.newEnd - n) n :: e :: after
  | [] => [.keep (keep.oldEnd - n) (this.newEnd - n) n]

/-- What precedes an edit that moves down past `n` kept lines: they come before it. -/
def keptBefore (keep this : Edit) (n : Nat) : List Edit → List Edit
  | e :: before =>
    if e.keeps then e.growRight n :: before
    else .keep keep.oldStart this.newStart n :: e :: before
  | [] => [.keep keep.oldStart this.newStart n]

/-- The edits with one more in front, unless it covers nothing. -/
def consUnlessEmpty (e : Edit) (es : List Edit) : List Edit := if e.isEmpty then es else e :: es

/-- One move up: the edit passes or joins its upper neighbour.  `none` when it cannot move. -/
def moveUp? (old new : List α) (c : Cursor) : Option Cursor :=
  match c.before with
  | [] => none
  | prev :: before =>
    if prev.keeps then
      let n := commonEnd (prev.oldLines old) (c.this.newLines new)
      if 0 < n then
        some ⟨consUnlessEmpty (prev.cutRight n) before, c.this.shiftLeft n,
          keptAfter prev c.this n c.after⟩
      else if prev.isEmpty then some ⟨before, c.this, c.after⟩
      else none
    else if prev.inserts == c.this.inserts then
      some ⟨before, prev.growRight (c.this.oldLength + c.this.newLength), c.after⟩
    else some ⟨before, c.this, prev :: c.after⟩

/-- One move down: the edit passes or joins its lower neighbour.  `none` when it cannot move. -/
def moveDown? (old new : List α) (c : Cursor) : Option Cursor :=
  match c.after with
  | [] => none
  | next :: after =>
    if next.keeps then
      let n := commonStart (next.oldLines old) (c.this.newLines new)
      if 0 < n then
        some ⟨keptBefore next c.this n c.before, c.this.shiftRight n,
          consUnlessEmpty (next.cutLeft n) after⟩
      else if next.isEmpty then some ⟨c.before, c.this, after⟩
      else none
    else if next.inserts == c.this.inserts then
      some ⟨c.before, c.this.growRight (next.oldLength + next.newLength), after⟩
    else some ⟨next :: c.before, c.this, after⟩

/-- Repeat a move until the edit stays, at most `budget` times. -/
def moveAll (move : Cursor → Option Cursor) : (budget : Nat) → Cursor → Cursor
  | 0, c => c
  | budget + 1, c =>
    match move c with
    | none => c
    | some c' => moveAll move budget c'

/-- Move an edit up as far as it goes.  Every move takes from the edits before it. -/
def shiftUp (old new : List α) (c : Cursor) : Cursor :=
  moveAll (moveUp? old new) (bulk c.before) c

/-- Move an edit down as far as it goes.  Every move takes from the edits after it. -/
def shiftDown (old new : List α) (c : Cursor) : Cursor :=
  moveAll (moveDown? old new) (bulk c.after) c

/-! ### Tidying -/

/-- Move all edits of one kind up and then down, from the start of the script to its end.  An edit
that comes back down leaves at most as many edits after it as there were. -/
def tidy (kind : Edit → Bool) (old new : List α) :
    (budget : Nat) → (done rest : List Edit) → List Edit
  | 0, done, rest => done.reverse ++ rest
  | _, done, [] => done.reverse
  | budget + 1, done, e :: rest =>
    if kind e then
      let c := shiftDown old new (shiftUp old new ⟨done, e, rest⟩)
      tidy kind old new budget (c.this :: c.before) c.after
    else tidy kind old new budget (e :: done) rest

/-- The tidied script. -/
def compact (old new : List α) (es : List Edit) : List Edit :=
  let budget := bulk es + old.length + new.length
  tidy Edit.inserts old new budget [] (tidy Edit.deletes old new budget [] es)

/-! ### Joining neighbours -/

/-- Edits that wait to be joined with what follows. -/
structure Waiting where
  kept : Option (Nat × Nat × Nat)
  deleted : Option (Nat × Nat × Nat)
  inserted : Option (Nat × Nat × Nat)

/-- Nothing waits. -/
def Waiting.none : Waiting := ⟨Option.none, Option.none, Option.none⟩

/-- The edit that waiting kept lines make. -/
def Waiting.keptEdits (w : Waiting) : List Edit :=
  match w.kept with
  | some (i, j, n) => [.keep i j n]
  | Option.none => []

/-- The edit that waiting deletions and insertions make together. -/
def Waiting.changedEdits (w : Waiting) : List Edit :=
  match w.deleted, w.inserted with
  | some (i, _, n), some (_, j, m) => [.replace i n j m]
  | some (i, j, n), Option.none => [.delete i j n]
  | Option.none, some (i, j, m) => [.insert i j m]
  | Option.none, Option.none => []

/-- A waiting stretch made longer, or begun. -/
def extended (waiting : Option (Nat × Nat × Nat)) (i j n : Nat) : Option (Nat × Nat × Nat) :=
  match waiting with
  | some (i', j', n') => some (i', j', n' + n)
  | none => some (i, j, n)

/-- The script with neighbours joined: kept lines with kept lines, and all that is deleted and
inserted between kept lines into one edit. -/
def joinFrom (w : Waiting) : List Edit → List Edit
  | [] => w.keptEdits ++ w.changedEdits
  | e :: es =>
    match e with
    | .keep i j n =>
      w.changedEdits ++ joinFrom ⟨extended w.kept i j n, none, none⟩ es
    | .delete i j n =>
      w.keptEdits ++ joinFrom ⟨none, extended w.deleted i j n, w.inserted⟩ es
    | .insert i j n =>
      w.keptEdits ++ joinFrom ⟨none, w.deleted, extended w.inserted i j n⟩ es
    | .replace .. => w.keptEdits ++ w.changedEdits ++ e :: joinFrom .none es

/-- The script with neighbours joined. -/
def joined (es : List Edit) : List Edit := joinFrom .none es

/-- The script that turns `old` into `new`. -/
def script (old new : List α) : List Edit := joined (compact old new (rawScript old new))

end Diff

end Upkeep
