/-
**Headers that a build list leaves out.**

A check walks a tree of headers and looks for the path of each of them in the text of a build file.
Before that, variables of the form `${KEY}` in the text are replaced.  Headers in ignored parts of the
tree do not count.

Main definitions:

* `Upkeep.Audit.HeaderCheck`, `Upkeep.Audit.HeaderAudit` — checks and their results;
* `Upkeep.Audit.headers` — the headers of a tree;
* `Upkeep.Audit.substitute` — a text with its variables replaced;
* `Upkeep.Audit.HeaderCheck.run`, `Upkeep.Audit.HeaderAudit.render` — a check and its report;
* `Upkeep.Audit.substitution` — a substitution written as `KEY=VALUE`.
-/

import Upkeep.Data.Ordered
import Upkeep.Files.Walk
import Upkeep.Files.Workspace
import Upkeep.Path.Normal

set_option relaxedAutoImplicit false
set_option autoImplicit false

namespace Upkeep

namespace Audit

open Files

/-- A tree of headers and the build file that should list them. -/
structure HeaderCheck where
  name : String
  path : String
  cmake : String
  /-- The parts of the tree that do not count, seen from its root. -/
  ignore : List String := []
  /-- What the variables of the build file stand for, by name. -/
  substitutions : List (String × String) := []
deriving DecidableEq, Repr, Inhabited

/-- The result of a check. -/
structure HeaderAudit where
  name : String
  /-- The number of headers that were looked for. -/
  total : Nat
  /-- The headers that the build file leaves out. -/
  missing : List String
deriving DecidableEq, Repr, Inhabited

/-- The report on a check. -/
def HeaderAudit.render (a : HeaderAudit) : String :=
  "Missing headers from " ++ a.name ++ " (out of " ++ toString a.total ++ "):\n" ++
    Text.unlines (a.missing.map ("  " ++ ·))

/-! ### Headers -/

/-- The headers below a root as normal paths, without those whose path begins with the normal path of
an ignored part. -/
def headers (d : Disk) (root : String) (ignore : List String) : Outcome (List String) := do
  let root := Path.normalize root
  let ignored := ignore.map fun i => (Path.normalize (root.join ⟨i⟩).text).text
  let walker ← Walker.ofTexts [] ["h"]
  let found := (walker.files d root).map fun p => (Path.normalize p.text).text
  return found.filter fun h => !ignored.any (Text.startsWith h ·)

/-! ### Variables -/

/-- How the use of a variable is written. -/
def variableUse (key : String) : List Char :=
  '$' :: Char.ofNat 0x7B :: key.toList ++ [Char.ofNat 0x7D]

/-- A text in which the uses of one variable after the other are replaced. -/
def substitute (text : List Char) (substitutions : List (String × String)) : List Char :=
  substitutions.foldl (fun t (k, v) => Text.replaceAll (variableUse k) v.toList t) text

@[simp] theorem substitute_nil (text : List Char) : substitute text [] = text := rfl

/-- A substitution written as `KEY=VALUE`. -/
def substitution (raw : String) : Outcome (String × String) :=
  match Text.splitOnce? ['='] raw.toList with
  | some (k, v) => .ok (String.ofList k, String.ofList v)
  | none => .error (.notKeyValue raw)

/-- Substitutions by name; of those for one name the last counts. -/
def orderSubstitutions (s : List (String × String)) : List (String × String) :=
  s.foldl (fun m (k, v) => Data.upsertBy compare k (fun _ => v) m) []

/-! ### Checks -/

/-- Carry out a check. -/
def HeaderCheck.run (c : HeaderCheck) (d : Disk) : Outcome HeaderAudit := do
  let found ← headers d c.path c.ignore
  match (d.read? ⟨c.cmake⟩).bind fun content => Text.Utf8.decode? (bytesOf content) with
  | none => .error (.readSource ⟨c.cmake⟩)
  | some text =>
    let text := substitute text.toList c.substitutions
    return ⟨c.name, found.length, found.filter fun h => !Text.occursIn h.toList text⟩

end Audit

end Upkeep
