/-
**Reading arguments.**

Arguments are read from left to right.  An argument that begins with two dashes is an option with a
long name, and a value may be attached to it behind an equals sign; one that begins with a single dash
is a row of letters, and what follows a letter that takes a value is its value.  Everything else is
the value of the option in front of it, if that waits for one, a subcommand, or an operand.  Behind
two dashes alone everything is an operand.

Values are not looked at when they are read but when the next parameter begins or the arguments end:
until then they are pending.  So an argument that is not known is reported before a wrong value
directly in front of it.

Main definitions:

* `Upkeep.CommandLine.Given` — what was given;
* `Upkeep.CommandLine.State`, `Upkeep.CommandLine.State.settle` — the state of the reader, and the end
  of what is pending;
* `Upkeep.CommandLine.read` — the arguments of a command read by its grammar;
* `Upkeep.CommandLine.validate` — whether what was given goes together.
-/

import Upkeep.CommandLine.Grammar
import Upkeep.Text.Search

set_option relaxedAutoImplicit false
set_option autoImplicit false

namespace Upkeep

namespace CommandLine

/-- The outcome of reading arguments. -/
abbrev Usage (α : Type) := Except UsageError α

/-! ### What was given -/

/-- The parameters given, each with all its values; a flag has one empty value for each time. -/
abbrev Given := List (String × List String)

namespace Given

/-- Whether a parameter was given. -/
def has (g : Given) (name : String) : Bool := g.any (·.1 == name)

/-- The values of a parameter. -/
def values (g : Given) (name : String) : List String :=
  (g.filter (·.1 == name)).flatMap Prod.snd

/-- The value of a parameter with one value. -/
def value? (g : Given) (name : String) : Option String := (g.values name).head?

/-- How often a parameter was given. -/
def count (g : Given) (name : String) : Nat := (g.values name).length

@[simp] theorem has_nil (name : String) : has [] name = false := rfl

@[simp] theorem values_nil (name : String) : values [] name = [] := rfl

end Given

/-! ### The state of the reader -/

/-- A parameter whose values are still being read. -/
structure Pending where
  parameter : Parameter
  values : List String
deriving DecidableEq, Repr

/-- The state of the reader. -/
structure State where
  given : Given
  pending : Option Pending
  /-- Whether the pending parameter is an option that waits for its value. -/
  waiting : Bool
  /-- The number of operands that are complete. -/
  position : Nat
  /-- Whether everything that follows is an operand. -/
  trailing : Bool
deriving DecidableEq, Repr

namespace State

/-- The state before anything was read. -/
def start : State := ⟨[], none, false, 0, false⟩

/-- Give values to a parameter: those of a parameter that takes one are exactly one, a parameter that
does not repeat was not given before, and all values are of the right kind. -/
def give (s : State) (p : Parameter) (values : List String) : Usage State := do
  if p.use.takesValue && values.isEmpty then .error .invalidValue
  else if s.given.has p.name && !p.use.repeats then .error .argumentConflict
  else
    values.forM p.use.check
    return { s with given := s.given ++ [(p.name, values)] }

/-- Nothing is pending any more. -/
def settle (s : State) : Usage State :=
  match s.pending with
  | none => .ok s
  | some p => { s with pending := none }.give p.parameter p.values

/-- An option without a value. -/
def flag (s : State) (p : Parameter) : Usage State := do
  let s ← s.settle
  match p.use with
  | .help => .error .displayHelp
  | .version => .error .displayVersion
  | _ => ({ s with waiting := false } : State).give p [""]

/-- An option with a value, which is attached or still to come. -/
def option (s : State) (p : Parameter) (attached : Option String) : Usage State := do
  let s ← s.settle
  match attached with
  | some v => ({ s with waiting := false } : State).give p [v]
  | none => return { s with pending := some ⟨p, []⟩, waiting := true }

/-! ### Arguments -/

/-- An option with a long name, and the value attached to it. -/
def long (g : Grammar) (s : State) (name : String) (attached : Option String) : Usage State :=
  match g.byName? name with
  | none => .error .unknownArgument
  | some p =>
    if p.use.takesValue then s.option p attached
    else if attached.isSome then .error .tooManyValues
    else s.flag p

/-- The value that follows a letter, if there is one; an equals sign in front of it is left out. -/
def attachedValue : List Char → Option String
  | [] => none
  | '=' :: v => some (String.ofList v)
  | v => some (String.ofList v)

/-- A row of letters. -/
def letters (g : Grammar) (s : State) : List Char → Usage State
  | [] => .ok s
  | c :: rest =>
    match g.byLetter? c with
    | none => .error .unknownArgument
    | some p =>
      if p.use.takesValue then s.option p (attachedValue rest)
      else do letters g (← s.flag p) rest

/-- An argument that is no option: a subcommand is missing here, or there are no more operands. -/
def stray (g : Grammar) (s : State) (arg : String) : UsageError :=
  if g.subcommands.isEmpty then .unknownArgument
  else if s.trailing && g.subcommands.contains arg then .unknownArgument
  else .invalidSubcommand

/-- An operand. -/
def operand (g : Grammar) (s : State) (arg : String) : Usage State :=
  match g.operands[s.position]? with
  | none => .error (stray g s arg)
  | some p => do
    let s ← if s.pending.any (·.parameter == p) then pure s else s.settle
    let values := match s.pending with
      | some q => q.values
      | none => []
    return { s with
      pending := some ⟨p, values ++ [arg]⟩
      waiting := false
      position := if p.use.repeats then s.position else s.position + 1 }

/-- The value that the pending option waits for. -/
def value (s : State) (arg : String) : State :=
  { s with
    pending := s.pending.map fun p => { p with values := p.values ++ [arg] }
    waiting := false }

/-- The name and the attached value of an option with a long name. -/
def splitLong (body : List Char) : String × Option String :=
  match Text.splitOnce? ['='] body with
  | some (name, v) => (String.ofList name, some (String.ofList v))
  | none => (String.ofList body, none)

/-- One argument that is no subcommand. -/
def argument (g : Grammar) (s : State) (arg : String) : Usage State :=
  if s.trailing then s.operand g arg
  else match arg.toList with
    | ['-', '-'] => .ok { s with trailing := true }
    | '-' :: '-' :: body => s.long g (splitLong body).1 (splitLong body).2
    | '-' :: c :: cs => s.letters g (c :: cs)
    | _ => if s.waiting then .ok (s.value arg) else s.operand g arg

end State

/-- The arguments of a command up to its subcommand, if there is one: what was given, and the
subcommand with the arguments behind it. -/
def read (g : Grammar) (s : State) : List String → Usage (Given × Option (String × List String))
  | [] => do return ((← s.settle).given, none)
  | arg :: rest =>
    if !s.trailing && !s.waiting && g.subcommands.contains arg then do
      return ((← s.settle).given, some (arg, rest))
    else do read g (← s.argument g arg) rest

/-- Whether what was given goes together. -/
def validate (g : Grammar) (given : Given) : Usage PUnit :=
  if g.excludes.any fun (a, b) => given.has a && given.has b then .error .argumentConflict
  else if g.required.any fun r => !given.has r then .error .missingRequiredArgument
  else if g.needs.any fun (a, b) => given.has a && !given.has b then .error .missingRequiredArgument
  else .ok ()

end CommandLine

end Upkeep
