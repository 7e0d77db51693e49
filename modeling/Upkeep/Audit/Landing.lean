/-
**Commits that landed on a branch.**

A commit that was rebased is a new commit, so whether it landed is judged by its summary: the commits
of a feature branch are looked up in the log of the base branch, newest first.

Main definitions:

* `Upkeep.Audit.Landing` — a commit and where it landed;
* `Upkeep.Audit.landings` — the look-up.
-/

import Upkeep.Text.Paint

set_option relaxedAutoImplicit false
set_option autoImplicit false

namespace Upkeep

namespace Audit

/-- A commit, and where it landed: the number of commits after it on the base branch. -/
structure Landing where
  summary : String
  index : Option Nat
deriving DecidableEq, Repr

namespace Landing

/-- The place where a commit landed, as it is written for the revision. -/
def location (l : Landing) : String :=
  match l.index with
  | some n => "~" ++ toString n
  | none => "not found"

/-- The text of a landing. -/
def render (l : Landing) : String := Text.padEnd 12 l.location ++ " " ++ l.summary

end Landing

/-- Where commits landed, given the log of the base branch, newest first; of equal summaries the
newest counts. -/
def landings (commits baseLog : List String) : List Landing :=
  commits.map fun s => ⟨s, baseLog.idxOf? s⟩

@[simp] theorem landings_nil (baseLog : List String) : landings [] baseLog = [] := rfl

end Audit

end Upkeep
