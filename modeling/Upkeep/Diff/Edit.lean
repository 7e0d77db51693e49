/-
**Edits between two lists of lines.**

An edit covers a stretch of the old list and a stretch of the new one.  It keeps lines that are
equal on both sides, deletes old lines, inserts new lines, or replaces old lines by new ones.  Every
edit says where its stretches begin.

Main definitions:

* `Upkeep.Diff.Edit` — an edit;
* `Upkeep.Diff.Edit.oldStart`, `Upkeep.Diff.Edit.oldLength` and the same for the new side;
* `Upkeep.Diff.slice` — the members of a list in a stretch;
* `Upkeep.Diff.commonStart`, `Upkeep.Diff.commonEnd` — how far two lists agree.
-/

set_option relaxedAutoImplicit false
set_option autoImplicit false

namespace Upkeep

namespace Diff

/-! ### Stretches -/

variable {α : Type}

/-- The `len` members of a list from place `start` on. -/
def slice (xs : List α) (start len : Nat) : List α := (xs.drop start).take len

@[simp] theorem slice_zero (xs : List α) (i : Nat) : slice xs i 0 = [] := by simp [slice]

theorem length_slice {xs : List α} {i n : Nat} (h : i + n ≤ xs.length) :
    (slice xs i n).length = n := by
  simp only [slice, List.length_take, List.length_drop]
  omega

/-- Stretches that meet make one stretch. -/
theorem slice_append (xs : List α) (i m n : Nat) :
    slice xs i m ++ slice xs (i + m) n = slice xs i (m + n) := by
  rw [slice, slice, slice, ← List.drop_drop, List.take_add]

/-- A stretch and what is behind it make all that begins there. -/
theorem slice_append_drop (xs : List α) (i n : Nat) :
    slice xs i n ++ xs.drop (i + n) = xs.drop i := by
  rw [slice, ← List.drop_drop, List.take_append_drop]

/-- A stretch inside a stretch. -/
theorem slice_slice {xs : List α} {i n d m : Nat} (h : d + m ≤ n) :
    slice (slice xs i n) d m = slice xs (i + d) m := by
  rw [slice, slice, slice, List.drop_take, List.drop_drop, List.take_take,
    Nat.min_eq_left (by omega)]

/-! ### Parts in common -/

variable [DecidableEq α]

/-- The number of members at the start on which two lists agree. -/
def commonStart : List α → List α → Nat
  | a :: as, b :: bs => if a = b then commonStart as bs + 1 else 0
  | _, _ => 0

/-- The number of members at the end on which two lists agree. -/
def commonEnd (as bs : List α) : Nat := commonStart as.reverse bs.reverse

theorem commonStart_le_left (as bs : List α) : commonStart as bs ≤ as.length := by
  fun_induction commonStart as bs <;> simp_all

theorem commonStart_le_right (as bs : List α) : commonStart as bs ≤ bs.length := by
  fun_induction commonStart as bs <;> simp_all

/-- The parts on which two lists agree at the start are equal. -/
theorem take_commonStart (as bs : List α) :
    as.take (commonStart as bs) = bs.take (commonStart as bs) := by
  fun_induction commonStart as bs <;> simp_all

theorem commonEnd_le_left (as bs : List α) : commonEnd as bs ≤ as.length := by
  simpa [commonEnd] using commonStart_le_left as.reverse bs.reverse

theorem commonEnd_le_right (as bs : List α) : commonEnd as bs ≤ bs.length := by
  simpa [commonEnd] using commonStart_le_right as.reverse bs.reverse

/-! ### Edits -/

/-- An edit: the places where its stretches of the old and the new list begin, and their lengths. -/
inductive Edit where
  | keep (oldAt newAt len : Nat)
  | delete (oldAt newAt len : Nat)
  | insert (oldAt newAt len : Nat)
  | replace (oldAt oldLen newAt newLen : Nat)
deriving DecidableEq, Repr

namespace Edit

/-- Where the stretch of the old list begins. -/
def oldStart : Edit → Nat
  | keep i _ _ => i
  | delete i _ _ => i
  | insert i _ _ => i
  | replace i _ _ _ => i

/-- The length of the stretch of the old list. -/
def oldLength : Edit → Nat
  | keep _ _ n => n
  | delete _ _ n => n
  | insert _ _ _ => 0
  | replace _ n _ _ => n

/-- Where the stretch of the new list begins. -/
def newStart : Edit → Nat
  | keep _ j _ => j
  | delete _ j _ => j
  | insert _ j _ => j
  | replace _ _ j _ => j

/-- The length of the stretch of the new list. -/
def newLength : Edit → Nat
  | keep _ _ n => n
  | delete _ _ _ => 0
  | insert _ _ n => n
  | replace _ _ _ n => n

/-- Where the stretch of the old list ends. -/
def oldEnd (e : Edit) : Nat := e.oldStart + e.oldLength

/-- Where the stretch of the new list ends. -/
def newEnd (e : Edit) : Nat := e.newStart + e.newLength

@[simp] theorem oldStart_keep (i j n : Nat) : (keep i j n).oldStart = i := rfl

@[simp] theorem newStart_keep (i j n : Nat) : (keep i j n).newStart = j := rfl

@[simp] theorem oldEnd_keep (i j n : Nat) : (keep i j n).oldEnd = i + n := rfl

@[simp] theorem newEnd_keep (i j n : Nat) : (keep i j n).newEnd = j + n := rfl

/-- Whether an edit covers no line at all. -/
def isEmpty (e : Edit) : Bool := e.oldLength == 0 && e.newLength == 0

/-- Whether an edit keeps its lines. -/
def keeps : Edit → Bool
  | keep .. => true
  | _ => false

/-- Whether an edit deletes lines without inserting any. -/
def deletes : Edit → Bool
  | delete .. => true
  | _ => false

/-- Whether an edit inserts lines without deleting any. -/
def inserts : Edit → Bool
  | insert .. => true
  | _ => false

/-- The edit with both beginnings `n` places earlier. -/
def shiftLeft (n : Nat) : Edit → Edit
  | keep i j l => keep (i - n) (j - n) l
  | delete i j l => delete (i - n) (j - n) l
  | insert i j l => insert (i - n) (j - n) l
  | replace i l j m => replace (i - n) l (j - n) m

/-- The edit with both beginnings `n` places later. -/
def shiftRight (n : Nat) : Edit → Edit
  | keep i j l => keep (i + n) (j + n) l
  | delete i j l => delete (i + n) (j + n) l
  | insert i j l => insert (i + n) (j + n) l
  | replace i l j m => replace (i + n) l (j + n) m

/-- The edit with its stretches extended by `n` lines at their ends. -/
def growRight (n : Nat) : Edit → Edit
  | keep i j l => keep i j (l + n)
  | delete i j l => delete i j (l + n)
  | insert i j l => insert i j (l + n)
  | replace i l j m => replace i (l + n) j (m + n)

/-- The edit with its stretches cut by `n` lines at their ends. -/
def cutRight (n : Nat) : Edit → Edit
  | keep i j l => keep i j (l - n)
  | delete i j l => delete i j (l - n)
  | insert i j l => insert i j (l - n)
  | replace i l j m => replace i (l - n) j (m - n)

/-- The edit with its stretches extended by `n` lines at their beginnings. -/
def growLeft (n : Nat) (e : Edit) : Edit := (e.shiftLeft n).growRight n

/-- The edit with its stretches cut by `n` lines at their beginnings. -/
def cutLeft (n : Nat) (e : Edit) : Edit := (e.cutRight n).shiftRight n

@[simp] theorem cutLeft_keep (i j n d : Nat) :
    (keep i j n).cutLeft d = keep (i + d) (j + d) (n - d) := rfl

/-- The old lines that an edit covers. -/
def oldLines {α : Type} (e : Edit) (old : List α) : List α := slice old e.oldStart e.oldLength

/-- The new lines that an edit covers. -/
def newLines {α : Type} (e : Edit) (new : List α) : List α := slice new e.newStart e.newLength

end Edit

end Diff

end Upkeep
