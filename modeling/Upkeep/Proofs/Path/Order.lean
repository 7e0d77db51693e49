/-
**Paths are ordered.**

The order of paths goes by kinds and names of components, one after the other: it is made of orders of
numbers and texts, and inherits their laws.

Main results:

* `Upkeep.Component.order_eq_compareLex`, `Upkeep.compareComponents_eq_compareLex` — what the order
  is made of;
* `Upkeep.Path.transCmp_compare` — **the order of paths is transitive**;
* `Upkeep.Path.compare_eq_eq_iff` — paths are equal by the order when they are the same.
-/

import Upkeep.Path.Basic
import Upkeep.Proofs.Data.Ordered

set_option relaxedAutoImplicit false
set_option autoImplicit false

namespace Upkeep

/-- The text that decides between components of one kind. -/
def Component.spelling (c : Component) : String := c.name?.getD ""

/-- Components are ordered by kind first. -/
theorem Component.order_eq_compareLex :
    Component.order = compareLex (compareOn Component.rank) (compareOn Component.spelling) := by
  funext a b
  cases a <;> cases b <;> rfl

instance Component.transCmp_order : Std.TransCmp Component.order := by
  rw [Component.order_eq_compareLex]
  infer_instance

theorem compareComponents_eq_compareLex (as bs : List Component) :
    compareComponents as bs = List.compareLex Component.order as bs := by
  induction as generalizing bs with
  | nil => cases bs <;> rfl
  | cons a as ih =>
      cases bs with
      | nil => rfl
      | cons b bs =>
          rw [compareComponents, List.compareLex_cons_cons, ih]

namespace Path

instance transCmp_compare : Std.TransCmp Path.compare := by
  have hcompare : Path.compare = fun p q : Path =>
      List.compareLex Component.order p.components q.components := by
    funext p q
    rw [compare_eq_compareComponents, compareComponents_eq_compareLex]
  rw [hcompare]
  exact Data.transCmp_on components

/-- Paths are equal by the order when they are the same. -/
theorem compare_eq_eq_iff {p q : Path} : p.compare q = .eq ↔ p.same q = true := by
  constructor
  · exact same_of_compare
  · intro h
    rw [compare_eq_compareComponents, same_iff.1 h, compareComponents_self]

end Path

end Upkeep
