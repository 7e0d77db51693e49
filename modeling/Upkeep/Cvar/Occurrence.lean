/-
**Places of mentions.**

A mention of a cvar stands in a file, on a line, at a column, the last two counted from one and the
column in bytes.  Places are ordered by file, line and column, files component by component, and a
set of places is a list in this order.  Places in files of the same components are the same place;
the one that came first stays as it was written.

Main definitions:

* `Upkeep.Cvar.Occurrence` — a place;
* `Upkeep.Cvar.Occurrence.order`, `Upkeep.Cvar.Occurrence.same` — order and sameness;
* `Upkeep.Cvar.Places`, `Upkeep.Cvar.Places.insert` — sets of places.
-/

import Upkeep.Data.Ordered
import Upkeep.Path.Basic

set_option relaxedAutoImplicit false
set_option autoImplicit false

namespace Upkeep

namespace Cvar

/-- The place of a mention. -/
structure Occurrence where
  file : Path
  line : Nat
  column : Nat
deriving DecidableEq, Repr

namespace Occurrence

/-- The order of places. -/
def order (a b : Occurrence) : Ordering :=
  (a.file.compare b.file).then ((compare a.line b.line).then (compare a.column b.column))

/-- Whether two places are the same. -/
def same (a b : Occurrence) : Bool :=
  a.file.same b.file && a.line == b.line && a.column == b.column

/-- Whether two places are on the same line. -/
def sameLine (a b : Occurrence) : Bool := a.file.same b.file && a.line == b.line

/-- The text of a place; it leaves the line out. -/
def render (o : Occurrence) : String := o.file.text ++ ":" ++ toString o.column

@[simp] theorem same_self (o : Occurrence) : o.same o = true := by simp [same]

@[simp] theorem sameLine_self (o : Occurrence) : o.sameLine o = true := by simp [sameLine]

theorem sameLine_iff {a b : Occurrence} :
    a.sameLine b = true ↔ a.file.components = b.file.components ∧ a.line = b.line := by
  simp [sameLine, Path.same_iff]

theorem same_iff {a b : Occurrence} :
    a.same b = true ↔ a.sameLine b = true ∧ a.column = b.column := by
  simp [same, sameLine]

theorem sameLine_of_same {a b : Occurrence} (h : a.same b = true) : a.sameLine b = true :=
  (same_iff.1 h).1

theorem sameLine_trans {a b c : Occurrence} (hab : a.sameLine b = true)
    (hbc : b.sameLine c = true) : a.sameLine c = true := by
  rw [sameLine_iff] at *
  exact ⟨hab.1.trans hbc.1, hab.2.trans hbc.2⟩

theorem same_trans {a b c : Occurrence} (hab : a.same b = true) (hbc : b.same c = true) :
    a.same c = true := by
  rw [same_iff] at *
  exact ⟨sameLine_trans hab.1 hbc.1, hab.2.trans hbc.2⟩

/-- Places that the order takes for equal are the same. -/
theorem same_of_order {a b : Occurrence} (h : a.order b = .eq) : a.same b = true := by
  simp only [order, Ordering.then_eq_eq, Std.LawfulEqCmp.compare_eq_iff_eq] at h
  obtain ⟨hfile, hline, hcolumn⟩ := h
  simp [same, Path.same_of_compare hfile, hline, hcolumn]

end Occurrence

/-- A set of places, in order. -/
abbrev Places := List Occurrence

namespace Places

/-- Whether a place is in a set. -/
def has (ps : Places) (o : Occurrence) : Bool := ps.any (o.same ·)

/-- The set with one more place; a place that is there stays as it was written. -/
def insert (ps : Places) (o : Occurrence) : Places := Data.insertBy Occurrence.order o ps

/-- The set of a list of places. -/
def ofList (os : List Occurrence) : Places := os.foldl insert []

@[simp] theorem insert_nil (o : Occurrence) : insert [] o = [o] := rfl

theorem mem_insert_of_mem {ps : Places} {o p : Occurrence} (h : p ∈ ps) : p ∈ ps.insert o :=
  Data.mem_insertBy_of_mem h

/-- A place that was put into a set is there, perhaps written otherwise. -/
theorem exists_same_mem_insert (ps : Places) (o : Occurrence) : ∃ p ∈ ps.insert o, o.same p := by
  induction ps with
  | nil => exact ⟨o, List.mem_singleton_self o, o.same_self⟩
  | cons q ps ih =>
      rw [insert, Data.insertBy]
      split
      · exact ⟨o, List.mem_cons_self, o.same_self⟩
      · rename_i heq
        exact ⟨q, List.mem_cons_self, Occurrence.same_of_order heq⟩
      · obtain ⟨p, hp, hsame⟩ := ih
        exact ⟨p, List.mem_cons_of_mem _ hp, hsame⟩

end Places

end Cvar

end Upkeep
