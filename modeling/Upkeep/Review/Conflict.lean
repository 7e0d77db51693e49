/-
**Why a patch was refused.**

What the version control system says when it refuses a patch is read line by line.  Each line that
tells a cause becomes a conflict, and the conflicts are summed up with a remedy for each.

Main definitions:

* `Upkeep.Review.Conflict` — the causes;
* `Upkeep.Review.conflicts` — the causes that a text tells;
* `Upkeep.Review.summary` — their summary.
-/

import Upkeep.Text.Blank
import Upkeep.Text.Lines
import Upkeep.Text.Search

set_option relaxedAutoImplicit false
set_option autoImplicit false

namespace Upkeep

namespace Review

/-- Why a patch was refused. -/
inductive Conflict where
  /-- The file is not as the patch expects. -/
  | mismatch (path : String)
  /-- The file is gone. -/
  | missing (path : String)
  /-- The patch itself is not well formed. -/
  | corrupt (line : String)
  | other (line : String)
deriving DecidableEq, Repr

/-- The path that a line is about: what stands between the word in front and the last colon with a
space, without quotes around it. -/
def pathIn (line : String) : String :=
  let cs := line.toList
  let rest := Text.trimChars
    (((Text.stripPrefix? "error:".toList cs).or (Text.stripPrefix? "fatal:".toList cs)).getD cs)
  match Text.splitLast? [':', ' '] rest with
  | some (path, _) =>
    let path := Text.trimBoth (fun c => c == '\'' || c == '"') path
    if path.isEmpty then "unknown" else String.ofList path
  | none => "unknown"

/-- The cause that a line tells, if it tells one. -/
def conflictIn? (line : String) : Option Conflict :=
  let line := Text.trim line
  if Text.contains line "patch does not apply" then some (.mismatch (pathIn line))
  else if Text.contains line "No such file or directory" ||
      Text.contains line "does not exist in index" then some (.missing (pathIn line))
  else if Text.contains line "corrupt patch" then some (.corrupt line)
  else if Text.startsWith line "error:" || Text.startsWith line "fatal:" then
    if Text.startsWith line "error: patch failed:" then none else some (.other line)
  else none

/-- The causes that a text tells. -/
def conflicts (stderr : String) : List Conflict := (Text.lines stderr).filterMap conflictIn?

/-- The lines of a summary for a cause. -/
def Conflict.lines : Conflict → List String
  | mismatch path =>
    ["  • " ++ path ++ ": preimage mismatch",
      "    Remedy: The file changed since the patch was built. Re-run to regenerate it."]
  | missing path =>
    ["  • " ++ path ++ ": missing file", "    Remedy: The patch names a file that is gone."]
  | corrupt line =>
    ["  • " ++ line,
      "    Remedy: Hunk headers no longer match their bodies; check hand edits."]
  | other line => ["  • Other: " ++ line]

/-- The summary of some causes. -/
def summary (cs : List Conflict) : String :=
  if cs.isEmpty then ""
  else Text.unlines (("Conflicts (" ++ toString cs.length ++ ")") :: cs.flatMap Conflict.lines)

@[simp] theorem summary_nil : summary [] = "" := rfl

end Review

end Upkeep
