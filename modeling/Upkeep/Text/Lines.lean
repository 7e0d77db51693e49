/-
**The lines of a text.**

A line ends with a line feed, and a carriage return directly before it belongs to the ending.  What
follows the last line feed is a line only if it is not empty, and keeps its carriage return.

Main definitions:

* `Upkeep.Text.segments` — the stretches between the members of a class;
* `Upkeep.Text.lineChars`, `Upkeep.Text.lines` — the lines without their endings.
-/

set_option relaxedAutoImplicit false
set_option autoImplicit false

namespace Upkeep

namespace Text

/-! ### Segments -/

variable {α : Type}

/-- The stretches of `s` between the separators, at least one of them.  The fold runs from the end
of the list, so the first stretch is always the one under construction. -/
def segments (isSep : α → Bool) (s : List α) : List (List α) :=
  s.foldr (fun c segs =>
    if isSep c then [] :: segs
    else match segs with
      | [] => [[c]]
      | l :: rest => (c :: l) :: rest) [[]]

@[simp] theorem segments_nil (isSep : α → Bool) : segments isSep [] = [[]] := rfl

theorem segments_cons_sep {isSep : α → Bool} {c : α} (h : isSep c = true) (s : List α) :
    segments isSep (c :: s) = [] :: segments isSep s := by
  simp [segments, h]

/-- There is always a first stretch. -/
theorem segments_ne_nil (isSep : α → Bool) (s : List α) : segments isSep s ≠ [] := by
  cases s with
  | nil => simp
  | cons c s =>
      simp only [segments, List.foldr_cons]
      split
      · simp
      · split <;> simp

/-- The first stretch ends at the first separator. -/
theorem segments_append_sep {isSep : α → Bool} {a : List α} {c : α} (ha : ∀ x ∈ a, isSep x = false)
    (hc : isSep c = true) (s : List α) : segments isSep (a ++ c :: s) = a :: segments isSep s := by
  induction a with
  | nil => exact segments_cons_sep hc s
  | cons x a ih =>
      obtain ⟨hx, ha⟩ := List.forall_mem_cons.1 ha
      have hi := ih ha
      simp only [segments] at hi
      simp [segments, hx, hi]

/-! ### Lines -/

/-- A line without the carriage return of its ending. -/
def dropReturn (l : List Char) : List Char :=
  if l.getLast? = some '\r' then l.dropLast else l

/-- The lines of a list of characters, without their endings. -/
def lineChars (s : List Char) : List (List Char) :=
  let segs := segments (· == '\n') s
  segs.dropLast.map dropReturn ++ (segs.getLast?.filter (fun l => !l.isEmpty)).toList

/-- The lines of a text, without their endings. -/
def lines (s : String) : List String := (lineChars s.toList).map String.ofList

@[simp] theorem lines_empty : lines "" = [] := rfl

/-- The text whose lines, each closed by a line feed, are the given ones. -/
def unlines (ls : List String) : String := String.join (ls.map (· ++ "\n"))

@[simp] theorem unlines_nil : unlines [] = "" := rfl

theorem toList_unlines (ls : List String) :
    (unlines ls).toList = ls.flatMap fun l => l.toList ++ ['\n'] := by
  induction ls with
  | nil => rfl
  | cons l ls ih =>
      simp only [unlines, List.map_cons, String.join_cons, String.toList_append] at ih ⊢
      simp [ih]

end Text

end Upkeep
