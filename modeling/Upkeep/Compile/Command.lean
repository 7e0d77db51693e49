/-
**Compiler command lines.**

A command written as one text is split into arguments: blanks separate them, single and double
quotes group them, and a backslash escapes a double quote or a backslash unless it stands in single
quotes.  All other backslashes are kept, so that paths written with backslashes survive.

Main definitions:

* `Upkeep.Compile.splitCommand` — the arguments of a command;
* `Upkeep.Compile.adjustArguments` — the arguments that matter to a reader of the source;
* `Upkeep.Compile.includeDirs` — the directories that the arguments add to the include path.
-/

import Upkeep.Path.Normal
import Upkeep.Text.Blank

set_option relaxedAutoImplicit false
set_option autoImplicit false

namespace Upkeep

namespace Compile

/-! ### Splitting a command -/

/-- Which kind of quotes are open. -/
inductive Quoting where
  | none
  | single
  | double
deriving DecidableEq, Repr

/-- An argument under construction, its characters latest first; `none` between arguments. -/
abbrev Draft := Option (List Char)

/-- The argument under construction with one more character. -/
def Draft.push (w : Draft) (c : Char) : Draft := some (c :: w.getD [])

/-- The argument under construction, begun if it was not. -/
def Draft.begun (w : Draft) : Draft := some (w.getD [])

/-- The finished argument, if one is under construction. -/
def Draft.close (w : Draft) : List String :=
  match w with
  | none => []
  | some cs => [String.ofList cs.reverse]

/-- Whether a backslash escapes the next character. -/
def escapable (c : Char) : Bool := c == '"' || c == '\\'

/-- The arguments of the rest of a command. -/
def splitFrom : Quoting → Draft → List Char → List String
  | _, w, [] => w.close
  | .single, w, c :: s =>
    if c == '\'' then splitFrom .none w s else splitFrom .single (w.push c) s
  | .double, w, '\\' :: c :: s =>
    if escapable c then splitFrom .double (w.push c) s
    else splitFrom .double (w.push '\\') (c :: s)
  | .double, w, c :: s =>
    if c == '"' then splitFrom .none w s else splitFrom .double (w.push c) s
  | .none, w, '\\' :: c :: s =>
    if escapable c then splitFrom .none (w.push c) s
    else splitFrom .none (w.push '\\') (c :: s)
  | .none, w, c :: s =>
    if c == '"' then splitFrom .double w.begun s
    else if c == '\'' then splitFrom .single w.begun s
    else if Unicode.isBlank c then w.close ++ splitFrom .none none s
    else splitFrom .none (w.push c) s

/-- At the end of a command the argument under construction is finished. -/
theorem splitFrom_nil (q : Quoting) (w : Draft) : splitFrom q w [] = w.close := by rw [splitFrom]

/-- The arguments of a command. -/
def splitCommand (command : String) : List String := splitFrom .none none command.toList

@[simp] theorem splitCommand_empty : splitCommand "" = [] := rfl

/-! ### Arguments -/

/-- Flags that only the compiler's own driver understands. -/
def isDriverFlag (arg : String) : Bool :=
  arg == "-TP" || arg == "/MP" || Text.startsWith arg "/F"

/-- The arguments between the driver and the first `-c`. -/
def argumentSpan (args : List String) : List String := (args.drop 1).takeWhile (· != "-c")

/-- The arguments between the driver and the first `-c`, without driver flags. -/
def adjustArguments (args : List String) : List String :=
  (argumentSpan args).filter (!isDriverFlag ·)

/-! ### The include path -/

/-- What an argument says about the include path. -/
inductive IncludeMention where
  /-- A flag and its directory in one argument. -/
  | joined (dir : String)
  /-- A flag alone; the directory is the next argument. -/
  | separate
  | absent
deriving DecidableEq, Repr

/-- The flags that add a directory to the include path.  None of them begins another. -/
def includeFlags : List String := ["-iquote", "-I", "/I"]

/-- What an argument says about the include path. -/
def includeMention (arg : String) : IncludeMention :=
  match includeFlags.findSome? (Text.afterStart? · arg) with
  | none => .absent
  | some tail => if tail.isEmpty then .separate else .joined tail

/-- The directory without quotes around it. -/
def unquote (s : String) : String := String.ofList (Text.trimBoth (· == '"') s.toList)

/-- The list with one more path at its end, unless it holds it already. -/
def addPath (ps : List Path) (p : Path) : List Path := if p.isIn ps then ps else ps ++ [p]

/-- The directories named by the rest of the arguments, added to those found so far. -/
def includeDirsFrom (directory : Path) (found : List Path) : List String → List Path
  | [] => found
  | [arg] =>
    match includeMention arg with
    | .joined dir => addPath found (Path.resolve directory (unquote dir))
    | _ => found
  | arg :: next :: rest =>
    match includeMention arg with
    | .joined dir =>
      includeDirsFrom directory (addPath found (Path.resolve directory (unquote dir))) (next :: rest)
    | .separate =>
      includeDirsFrom directory (addPath found (Path.resolve directory (unquote next))) rest
    | .absent => includeDirsFrom directory found (next :: rest)

/-- The include path of a command: the directories behind `-iquote`, `-I` and `/I`, joined or
separate, each once and seen from the directory of the command. -/
def includeDirs (args : List String) (directory : Path) : List Path :=
  includeDirsFrom directory [] args

end Compile

end Upkeep
