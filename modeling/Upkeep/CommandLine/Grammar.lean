/-
**The grammar of a command.**

A command has options, which are called by a long name or a letter, and operands, which stand for
themselves in order.  What may be given is told as data; reading arguments by it is another matter.

Main definitions:

* `Upkeep.CommandLine.Kind`, `Upkeep.CommandLine.Kind.check` — the kinds of values;
* `Upkeep.CommandLine.Use`, `Upkeep.CommandLine.Parameter` — what a command can be given;
* `Upkeep.CommandLine.Grammar` — the parameters of a command, and how they go together;
* `Upkeep.CommandLine.UsageError` — what can be wrong with arguments.
-/

import Upkeep.Text.Integer

set_option relaxedAutoImplicit false
set_option autoImplicit false

namespace Upkeep

namespace CommandLine

/-- What can be wrong with arguments, or asked for in place of a command. -/
inductive UsageError where
  | unknownArgument
  | missingRequiredArgument
  | invalidValue
  | tooManyValues
  | valueValidation
  | argumentConflict
  | invalidSubcommand
  | missingSubcommand
  | displayHelp
  | displayHelpOnMissingArgument
  | displayVersion
deriving DecidableEq, Repr

/-- The kinds of values. -/
inductive Kind where
  | text
  /-- A path, which is not empty. -/
  | path
  /-- A natural number of 64 bits. -/
  | number
  | choice (options : List String)
deriving DecidableEq, Repr

/-- Whether a value is of a kind, and what is wrong otherwise. -/
def Kind.check (k : Kind) (v : String) : Except UsageError PUnit :=
  match k with
  | text => .ok ()
  | path => if v.isEmpty then .error .invalidValue else .ok ()
  | number => if (Text.word? v.toList).isSome then .ok () else .error .valueValidation
  | choice options => if options.contains v then .ok () else .error .invalidValue

/-- How a parameter is used. -/
inductive Use where
  /-- An option without a value, given at most once. -/
  | flag
  /-- An option without a value; how often it is given counts. -/
  | count
  /-- One value. -/
  | single (kind : Kind)
  /-- Any number of values. -/
  | many (kind : Kind)
  | help
  | version
deriving DecidableEq, Repr

/-- Whether an option with this use is followed by a value. -/
def Use.takesValue : Use → Bool
  | single _ | many _ => true
  | _ => false

/-- Whether a parameter with this use may be given more than once. -/
def Use.repeats : Use → Bool
  | many _ | count => true
  | _ => false

/-- The check of the values of a parameter. -/
def Use.check (u : Use) (v : String) : Except UsageError PUnit :=
  match u with
  | single k | many k => k.check v
  | _ => .ok ()

/-- A parameter of a command. -/
structure Parameter where
  name : String
  use : Use
  letter : Option Char := none
deriving DecidableEq, Repr

/-- The parameters of a command, and how they go together. -/
structure Grammar where
  options : List Parameter
  operands : List Parameter := []
  /-- The parameters that have to be given. -/
  required : List String := []
  /-- Pairs of parameters of which the first needs the second. -/
  needs : List (String × String) := []
  /-- Pairs of parameters that exclude each other. -/
  excludes : List (String × String) := []
  subcommands : List String := []
deriving DecidableEq, Repr

namespace Grammar

/-- The option with a long name. -/
def byName? (g : Grammar) (name : String) : Option Parameter := g.options.find? (·.name == name)

/-- The option with a letter. -/
def byLetter? (g : Grammar) (c : Char) : Option Parameter :=
  g.options.find? (·.letter == some c)

end Grammar

end CommandLine

end Upkeep
