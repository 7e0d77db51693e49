/-
**Reviewing patches.**

The dialogue about a removal shows the patch and asks until it is applied or refused; more context
can be asked for.  The dialogue about a migration first settles the type, then asks for a
description, and then whether to apply the patch; when that fails, the patch can be edited and tried
again.  Answers that mean nothing are passed over, and at the end of the answers the review ends.

Each loop reads the list of answers, so it ends with it.

Main definitions:

* `Upkeep.Review.present` — show a patch;
* `Upkeep.Review.reviewRemoval` — the dialogue about a removal;
* `Upkeep.Review.chooseType`, `Upkeep.Review.offer`, `Upkeep.Review.retry` — the parts of the
  dialogue about a migration;
* `Upkeep.Review.reviewMigration` — the dialogue about a migration.
-/

import Upkeep.Cvar.Migration
import Upkeep.Review.Desk

set_option relaxedAutoImplicit false
set_option autoImplicit false

namespace Upkeep

namespace Review

open Cvar

/-- The style in which patches are shown. -/
def shownStyle (color : Bool) : Diff.Style := if color then .color else .plain

/-- Show a patch; the result is its plain text, which is what is applied. -/
def present (color : Bool) (p : Patch) : Session String := do
  note (.showed p (← work (p.render (shownStyle color))))
  work (p.render .plain)

/-! ### Removals -/

/-- The dialogue about a removal, with the answers that are left.  The result holds the patch as it
ended up. -/
def removalLoop (color : Bool) : List String → Patch → Session (Ending × Patch)
  | answers, p => do
    let diff ← present color p
    promptChoice color "Apply patch?" ["yes", "no", "context++", "edit"]
    match answers with
    | [] => return (.quit, p)
    | a :: rest =>
      hear a rest
      match choiceText a with
      | "y" => if ← apply diff false then return (.applied, p) else removalLoop color rest p
      | "e" => if ← apply diff true then return (.applied, p) else removalLoop color rest p
      | "n" => return (.skipped, p)
      | "c" => removalLoop color rest { p with context := p.context + 1 }
      | _ => removalLoop color rest p

/-- The dialogue about a removal. -/
def reviewRemoval (color : Bool) (p : Patch) : Session (Ending × Patch) := do
  removalLoop color (← get).answers p

/-! ### Types -/

/-- What an operator says about the type: another type, no known one, or nothing any more. -/
inductive TypeAnswer where
  | type (t : ValueType)
  | unknown
  | nothing
deriving DecidableEq, Repr

/-- The type that an answer names. -/
def TypeAnswer.ofChoice (choice : String) (bounds : Option Bounds) : TypeAnswer :=
  match ValueType.ofChoice? choice bounds with
  | some t => .type t
  | none => .unknown

/-- Ask for a type, and for bounds if it is ranged. -/
def askType (color : Bool) (answers : List String) : Session (TypeAnswer × List String) := do
  prompt color "Type [bool, int, float, string, range-int, range-float]:"
  match answers with
  | [] => return (.nothing, [])
  | a :: rest =>
    hear a rest
    if ValueType.isRangeChoice (answerText a) then
      prompt color "Min:"
      match rest with
      | [] => return (.nothing, [])
      | lo :: rest =>
        hear lo rest
        prompt color "Max:"
        match rest with
        | [] => return (.nothing, [])
        | hi :: rest =>
          hear hi rest
          return (.ofChoice (answerText a) (some ⟨answerText lo, answerText hi⟩), rest)
    else return (.ofChoice (answerText a) none, rest)

/-- Settle the type of a migration.  The result is the migration, whether it goes on, and the
answers that are left; every round reads at least one answer, so their number is budget enough. -/
def chooseType (color : Bool) (cfg : Settings) (context : Nat) :
    (budget : Nat) → List String → Migration → Session (Option Ending × Migration × List String)
  | 0, answers, m => return (some .quit, m, answers)
  | budget + 1, answers, m => do
    let p ← work (m.patch cfg context)
    let _ ← present color p
    promptChoice color ("Migrate " ++ m.name ++ " as " ++ m.type.render ++ "?")
      ["accept", "reject", "type override"]
    match answers with
    | [] => return (some .quit, m, [])
    | a :: rest =>
      hear a rest
      match choiceText a with
      | "a" => return (none, m, rest)
      | "r" => return (some .skipped, m, rest)
      | "t" =>
        match ← askType color rest with
        | (.type t, rest) => chooseType color cfg context budget rest { m with type := t }
        | (.unknown, rest) =>
          say "unknown type\n"
          chooseType color cfg context budget rest m
        | (.nothing, rest) => return (some .quit, m, rest)
      | _ => chooseType color cfg context budget rest m

/-! ### Applying a migration -/

/-- After a failure: edit the patch and try again, or give up. -/
def retry (color : Bool) (diff : String) : List String → Session Ending
  | [] => do
    promptChoice color "Patch failed." ["edit again", "abandon"]
    return .quit
  | a :: rest => do
    promptChoice color "Patch failed." ["edit again", "abandon"]
    hear a rest
    match choiceText a with
    | "e" => if ← apply diff true then return .applied else retry color diff rest
    | "a" => return .skipped
    | _ => retry color diff rest

/-- Ask whether to apply a patch that was shown. -/
def offer (color : Bool) (diff : String) : List String → Session Ending
  | [] => do
    promptChoice color "Apply patch?" ["yes", "edit", "no"]
    return .quit
  | a :: rest => do
    promptChoice color "Apply patch?" ["yes", "edit", "no"]
    hear a rest
    match choiceText a with
    | "y" => if ← apply diff false then return .applied else retry color diff rest
    | "e" => if ← apply diff true then return .applied else retry color diff rest
    | "n" => return .skipped
    | _ => offer color diff rest

/-- The dialogue about a migration.  The result holds the migration as it ended up. -/
def reviewMigration (color : Bool) (cfg : Settings) (context : Nat) (m : Migration) :
    Session (Ending × Migration) := do
  let answers := (← get).answers
  match ← chooseType color cfg context (answers.length + 1) answers m with
  | (some ending, m, _) => return (ending, m)
  | (none, m, rest) =>
    prompt color "Description:"
    match rest with
    | [] => return (.quit, m)
    | line :: rest =>
      hear line rest
      let m := { m with description := answerText line }
      let p ← work (m.patch cfg context)
      let diff ← present color p
      return (← offer color diff rest, m)

end Review

end Upkeep
