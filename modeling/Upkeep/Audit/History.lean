/-
**Histories of branches.**

A repository has branches, and each is a row of commits with messages.  What belongs to a feature
branch are the commits that the base branch does not have.  A log shows the subjects of commits: the
first lines of a message up to an empty one, on one line.

Main definitions:

* `Upkeep.Audit.Commit`, `Upkeep.Audit.Commit.subject` — commits and their subjects;
* `Upkeep.Audit.History`, `Upkeep.Audit.History.log`, `Upkeep.Audit.History.logBetween` — histories and
  their logs.
-/

import Upkeep.Failure
import Upkeep.Text.Blank

set_option relaxedAutoImplicit false
set_option autoImplicit false

namespace Upkeep

namespace Audit

/-! ### Commits -/

/-- A commit: a number that no other commit of the repository has, and a message. -/
structure Commit where
  id : Nat
  message : String
deriving DecidableEq, Repr

/-- The blanks of a message. -/
def isMessageSpace (c : Char) : Bool := c == ' ' || c == '\t' || c == '\r'

/-- The lines of a message, without blanks at their ends. -/
def messageLines (message : String) : List (List Char) :=
  (Text.segments (· == '\n') message.toList).map (Text.dropEndWhile isMessageSpace)

/-- The first lines of a message up to an empty one, on one line. -/
def subjectOf (message : String) : String :=
  " ".intercalate ((((messageLines message).dropWhile List.isEmpty).takeWhile (!·.isEmpty)).map
    String.ofList)

/-- The subject of a commit. -/
def Commit.subject (c : Commit) : String := subjectOf c.message

/-! ### Histories -/

/-- The branches of a repository by name, each with its commits, newest first. -/
structure History where
  branches : List (String × List Commit)
deriving DecidableEq, Repr, Inhabited

namespace History

/-- The commits of a branch. -/
def branch? (h : History) (name : String) : Option (List Commit) :=
  (h.branches.find? (·.1 == name)).map Prod.snd

/-- The commits of one branch that another does not have. -/
def without (commits base : List Commit) : List Commit :=
  commits.filter fun c => !base.any (·.id == c.id)

/-- The lines of a log of commits. -/
def subjects (commits : List Commit) : List String :=
  Text.lines (Text.unlines (commits.map Commit.subject))

/-- The log of a branch, newest first. -/
def log (h : History) (name : String) : Outcome (List String) :=
  match h.branch? name with
  | some commits => .ok (subjects commits)
  | none => .error (.gitLog [name])

/-- The option that limits a log. -/
def limitOption (limit : Nat) : String := "-" ++ toString limit

/-- How the commits between two branches are written. -/
def range (base feature : String) : String := base ++ ".." ++ feature

/-- The log of the commits that a branch has beyond its base, newest first, up to a limit. -/
def logBetween (h : History) (base feature : String) (limit : Nat) : Outcome (List String) :=
  match h.branch? base, h.branch? feature with
  | some b, some f => .ok (subjects ((without f b).take limit))
  | _, _ => .error (.gitLog [limitOption limit, range base feature])

@[simp] theorem subjects_nil : subjects [] = [] := rfl

end History

end Audit

end Upkeep
