/-
**Groups of edits with context.**

Changes that are close together are shown together.  Each group begins and ends with a given number
of kept lines, and kept lines between two changes separate groups when there are more than twice as
many.

Main definitions:

* `Upkeep.Diff.trimmed` — a script whose kept ends are cut to the context;
* `Upkeep.Diff.groups` — the groups of a script.
-/

import Upkeep.Diff.Edit

set_option relaxedAutoImplicit false
set_option autoImplicit false

namespace Upkeep

namespace Diff

/-- The script whose kept lines at the start are cut to the last `context` ones. -/
def trimFirst (context : Nat) : List Edit → List Edit
  | .keep i j n :: es => (Edit.keep i j n).cutLeft (n - context) :: es
  | es => es

/-- The script whose kept lines at the end are cut to the first `context` ones. -/
def trimLast (context : Nat) : List Edit → List Edit
  | [] => []
  | [.keep i j n] => [.keep i j (min n context)]
  | [e] => [e]
  | e :: e' :: es => e :: trimLast context (e' :: es)

/-- The script whose kept ends are cut to the context. -/
def trimmed (context : Nat) (es : List Edit) : List Edit := trimLast context (trimFirst context es)

/-- A last group counts unless it is empty or only keeps lines. -/
def lastGroup : List Edit → List (List Edit)
  | [] => []
  | [.keep ..] => []
  | es => [es]

/-- The groups of the rest of a script; `building` holds the group under construction, latest edit
first. -/
def groupFrom (context : Nat) (building : List Edit) : List Edit → List (List Edit)
  | [] => lastGroup building.reverse
  | .keep i j n :: es =>
    if 2 * context < n then
      (Edit.keep i j context :: building).reverse ::
        groupFrom context [(Edit.keep i j n).cutLeft (n - context)] es
    else groupFrom context (.keep i j n :: building) es
  | e :: es => groupFrom context (e :: building) es

/-- The groups of a script, each with its context. -/
def groups (context : Nat) (es : List Edit) : List (List Edit) :=
  groupFrom context [] (trimmed context es)

@[simp] theorem groups_nil (context : Nat) : groups context [] = [] := rfl

end Diff

end Upkeep
