/-
**The desk of a reviewer.**

A review is a dialogue: patches are shown, questions are asked, answers are read line by line, and
patches are handed to whoever applies them.  The desk holds all of it as data: the workspace, the
answers that are left, the applier, and the log of what has happened so far.

An applier either has its answers given beforehand, or puts patches into the files of the disk after
an editor has been called where that is asked for.

Main definitions:

* `Upkeep.Review.ApplyFailure` — why a patch was not applied;
* `Upkeep.Review.Applier`, `Upkeep.Review.Call` — appliers and calls of them;
* `Upkeep.Review.Event` — what happens in a review;
* `Upkeep.Review.Desk`, `Upkeep.Review.Session` — desks and operations at them;
* `Upkeep.Review.say`, `Upkeep.Review.prompt`, `Upkeep.Review.hear`, `Upkeep.Review.apply` — the
  operations.
-/

import Upkeep.Diff.Reader
import Upkeep.Files.Workspace
import Upkeep.Patch.Basic
import Upkeep.Review.Conflict
import Upkeep.Text.Lower

set_option relaxedAutoImplicit false
set_option autoImplicit false

namespace Upkeep

namespace Review

open Files

/-! ### Applying patches -/

/-- Why a patch was not applied. -/
inductive ApplyFailure where
  | rejected (stderr : String)
  | editor (program status : String)
  | other (message : String)
deriving DecidableEq, Repr

/-- The wording of a failure. -/
def ApplyFailure.message : ApplyFailure → String
  | rejected stderr => "git apply rejected the patch:\n" ++ stderr ++ summary (conflicts stderr)
  | editor program status => "editor `" ++ program ++ "` failed: " ++ status
  | other message => message

/-- Who applies patches. -/
inductive Applier where
  /-- The answers are given beforehand, `none` for success; after the last one all calls succeed. -/
  | scripted (answers : List (Option ApplyFailure))
  /-- Patches go into the files.  The editor leaves them as they are, or fails with a status. -/
  | onDisk (editor : String) (status : Option String)
deriving DecidableEq, Repr

/-- A call of an applier: the patch, and whether it was to be edited first. -/
structure Call where
  diff : String
  edit : Bool
deriving DecidableEq, Repr

/-- The disk with the hunks of a file applied, every line ended by a line feed. -/
def applyFile? (d : Disk) (p : Diff.FilePatch) : Option Disk := do
  let old ← (readLines d p.path).toOption
  let new ← Diff.applyHunks? p.hunks old
  d.write? p.path (Text.unlines new).toUTF8

/-- The disk with a patch applied, if all of it fits. -/
def applyDiff? (d : Disk) (diff : String) : Option Disk := do
  let ps ← Diff.read? diff
  if ps.isEmpty then none else ps.foldlM applyFile? d

/-! ### Desks -/

/-- What happens in a review. -/
inductive Event where
  | told (text : String)
  /-- A patch is shown. -/
  | showed (patch : Patch) (text : String)
  | asked (text : String)
  /-- A line of the input is read. -/
  | answered (line : String)
  /-- The applier is called; it succeeds, or fails for some reason. -/
  | called (call : Call) (failure : Option ApplyFailure)
deriving DecidableEq, Repr

namespace Event

/-- The text that an event shows. -/
def text : Event → String
  | told t => t
  | showed _ t => t
  | asked t => t
  | answered _ => ""
  | called _ _ => ""

/-- The patch that is shown. -/
def patch? : Event → Option Patch
  | showed p _ => some p
  | _ => none

/-- The line that is read. -/
def answer? : Event → Option String
  | answered line => some line
  | _ => none

/-- The call that is made. -/
def call? : Event → Option Call
  | called c _ => some c
  | _ => none

end Event

/-- The state of a review; the log holds what has happened, latest first. -/
structure Desk where
  workspace : Workspace
  answers : List String
  applier : Applier
  log : List Event

/-- All text shown so far. -/
def Desk.output (d : Desk) : String := String.join (d.log.reverse.map Event.text)

/-- All calls made so far, latest first. -/
def Desk.calls (d : Desk) : List Call := d.log.filterMap Event.call?

/-- A desk at which nothing has happened yet.  The answers are the lines of the input. -/
def Desk.ofInput (w : Workspace) (input : String) (applier : Applier) : Desk :=
  ⟨w, Text.lines input, applier, []⟩

/-- An operation at a desk that can fail. -/
abbrev Session := ExceptT Failure (StateM Desk)

/-- The outcome of an operation at a desk, and the desk it leaves behind. -/
def Session.on {α : Type} (s : Session α) (d : Desk) : Outcome α × Desk :=
  StateT.run (ExceptT.run s) d

/-- An operation on the workspace of the desk. -/
def work {α : Type} (m : Work α) : Session α := do
  let d ← get
  let (result, w) := m.on d.workspace
  set { d with workspace := w }
  liftM (n := Session) (m := Except Failure) result

/-- Let something happen. -/
def note (e : Event) : Session PUnit := modify fun d => { d with log := e :: d.log }

/-- Show a text. -/
def say (text : String) : Session PUnit := note (.told text)

/-- Whether a text is shown in the highlight of questions. -/
def tinted (color : Bool) (text : String) : String :=
  if color then Text.Paint.yellow.apply text else text

/-- Show a question. -/
def prompt (color : Bool) (question : String) : Session PUnit :=
  note (.asked (tinted color question ++ " "))

/-- The options of a question, each with the letter that chooses it in brackets. -/
def choices (color : Bool) (options : List String) : String :=
  ", ".intercalate (options.map fun o =>
    match o.toList with
    | [] => "[" ++ tinted color "" ++ "]"
    | c :: rest => "[" ++ tinted color (String.singleton c) ++ "]" ++ String.ofList rest)

/-- Show a question with options. -/
def promptChoice (color : Bool) (question : String) (options : List String) : Session PUnit :=
  prompt color (question ++ " " ++ choices color options)

/-- Read a line of the input; the lines behind it are left. -/
def hear (line : String) (rest : List String) : Session PUnit :=
  modify fun d => { d with answers := rest, log := .answered line :: d.log }

/-- The answer of an applier to a call, the applier afterwards, and the disk afterwards. -/
def Applier.answer (a : Applier) (d : Disk) (c : Call) : Option ApplyFailure × Applier × Disk :=
  match a with
  | .scripted [] => (none, a, d)
  | .scripted (r :: rest) => (r, .scripted rest, d)
  | .onDisk editor status =>
    match (if c.edit then status else none) with
    | some s => (some (.editor editor s), a, d)
    | none =>
      match applyDiff? d c.diff with
      | some d => (none, a, d)
      | none => (some (.rejected "error: patch does not apply\n"), a, d)

/-- Hand a patch to the applier; a failure is shown.  Whether it succeeded. -/
def apply (diff : String) (edit : Bool) : Session Bool := do
  let d ← get
  let (failure, applier, disk) := d.applier.answer d.workspace.disk ⟨diff, edit⟩
  set { d with
    applier := applier
    workspace := { d.workspace with disk := disk }
    log := .called ⟨diff, edit⟩ failure :: d.log }
  match failure with
  | none => return true
  | some f =>
    say (f.message ++ "\n")
    return false

/-- How the review of a patch ended. -/
inductive Ending where
  | applied
  | skipped
  /-- The answers ran out. -/
  | quit
deriving DecidableEq, Repr

/-- An answer without blanks at its ends. -/
def answerText (line : String) : String := Text.trim line

/-- An answer to a question with options. -/
def choiceText (line : String) : String := Text.lower (answerText line)

end Review

end Upkeep
