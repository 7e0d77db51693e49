/-
**Parsed sources and their errors.**

A source is a text with its syntax tree.  Errors of the grammar do not prevent the use of a tree;
they are reported, but only the outermost node of an erroneous place.

Main definitions:

* `Upkeep.Cpp.Source` — a text with its tree;
* `Upkeep.Cpp.Diagnostic` — a reported error;
* `Upkeep.Cpp.Source.diagnostics` — the errors of a source;
* `Upkeep.Cpp.isBenign` — the errors that need no attention.
-/

import Upkeep.Cpp.Tree
import Upkeep.Path.Basic
import Upkeep.Text.Blank

set_option relaxedAutoImplicit false
set_option autoImplicit false

namespace Upkeep

namespace Cpp

/-- A source file with its syntax tree. -/
structure Source where
  path : Path
  text : String
  tree : Node

/-- A line of a source, counted from one; empty when there is none. -/
def Source.line (s : Source) (n : Nat) : String :=
  if n = 0 then "" else (Text.lines s.text)[n - 1]?.getD ""

/-! ### Errors -/

/-- An error of the grammar. -/
structure Diagnostic where
  path : Path
  line : Nat
  column : Nat
  message : String
deriving DecidableEq, Repr

/-- The text of a reported error. -/
def Diagnostic.render (d : Diagnostic) : String :=
  d.path.text ++ ":" ++ toString d.line ++ ":" ++ toString d.column ++ ": " ++ d.message

/-- What is said about an erroneous node: it quotes the line that the node begins on. -/
def Source.diagnostic (s : Source) (n : Node) : Diagnostic :=
  let quoted := Text.trim (s.line n.line)
  let message :=
    if n.label.isMissing then "missing `" ++ n.kind ++ "`: " ++ quoted
    else "syntax error: " ++ quoted
  ⟨s.path, n.line, n.column, message⟩

mutual

/-- The outermost erroneous nodes of a tree.  A tree without the error bit is not entered. -/
def brokenNodes : Node → List Node
  | .mk l cs =>
    if l.isError || l.isMissing then [.mk l cs]
    else if l.hasError then brokenNodesOf cs
    else []

/-- The outermost erroneous nodes of some trees. -/
def brokenNodesOf : List Node → List Node
  | [] => []
  | n :: ns => brokenNodes n ++ brokenNodesOf ns

end

/-- The errors of a source.  A tree whose root has no error bit has none. -/
def Source.diagnostics (s : Source) : List Diagnostic :=
  if s.tree.label.hasError then (brokenNodes s.tree).map s.diagnostic else []

/-- Whether a message holds one of the phrases that make it harmless. -/
def isBenign (message : String) (phrases : List String) : Bool :=
  phrases.any (Text.contains message ·)

end Cpp

end Upkeep
