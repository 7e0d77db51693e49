/-
**Small shapes of the syntax tree.**

The pieces that uses of cvars are made of: the variable that a declarator introduces, literals,
addresses, callees and their arguments, and flags joined by bars.

Main definitions:

* `Upkeep.Cvar.declaredBy?` — the variable that a declarator introduces;
* `Upkeep.Cvar.literal?`, `Upkeep.Cvar.address?`, `Upkeep.Cvar.isNull` — values;
* `Upkeep.Cvar.callee?`, `Upkeep.Cvar.arguments` — calls;
* `Upkeep.Cvar.mentionsType` — whether a type text names one of some types;
* `Upkeep.Cvar.isPlainName` — the names that cvars have.
-/

import Upkeep.Cpp.Tree
import Upkeep.Text.Blank
import Upkeep.Text.Lines
import Upkeep.Text.Search
import Upkeep.Text.Words

set_option relaxedAutoImplicit false
set_option autoImplicit false

namespace Upkeep

namespace Cvar

open Cpp

/-! ### Declarators -/

/-- The kinds of nodes that name a variable. -/
def isVariableKind (kind : String) : Bool := kind == "identifier" || kind == "field_identifier"

/-- The kinds of declarators that wrap another declarator. -/
def isWrapperKind (kind : String) : Bool :=
  ["init_declarator", "pointer_declarator", "reference_declarator", "array_declarator",
    "parenthesized_declarator", "attributed_declarator"].contains kind

/-- The declarator inside a declarator: the one in the field of this name, or the first part that
may be one. -/
def innerDeclarator? (n : Node) : Option Node :=
  (n.field? "declarator").or
    (n.parts.find? fun c => isVariableKind c.kind || Text.endsWith c.kind "declarator")

theorem mem_children_of_innerDeclarator? {n c : Node} (h : innerDeclarator? n = some c) :
    c ∈ n.children := by
  unfold innerDeclarator? at h
  cases hf : n.field? "declarator" with
  | some d =>
      rw [hf] at h
      simp only [Option.some_or, Option.some.injEq] at h
      exact h ▸ Node.mem_children_of_field? hf
  | none =>
      rw [hf] at h
      simp only [Option.none_or] at h
      exact Node.mem_children_of_mem_parts (List.mem_of_find?_eq_some h)

/-- The variable that a declarator introduces.  Functions are no variables. -/
def declaredBy? (n : Node) : Option Node :=
  if isVariableKind n.kind then some n
  else if isWrapperKind n.kind then
    match _h : innerDeclarator? n with
    | some c => declaredBy? c
    | none => none
  else none
termination_by sizeOf n
decreasing_by exact Node.sizeOf_lt_of_mem (mem_children_of_innerDeclarator? _h)

/-- The variables that the declarators of a declaration introduce. -/
def declaredNodes (n : Node) : List Node := (n.fields "declarator").filterMap declaredBy?

/-! ### Values -/

/-- The text between the first and the last quote of a text. -/
def betweenQuotes? (s : List Char) : Option (List Char) := do
  let (_, afterFirst) ← Text.splitOnce? ['"'] s
  let (inside, _) ← Text.splitLast? ['"'] afterFirst
  some inside

/-- The content of a plain string literal, as the source spells it. -/
def literal? (n : Node) : Option String :=
  if n.kind == "string_literal" then (betweenQuotes? n.text.toList).map String.ofList else none

/-- The identifier whose address a node takes. -/
def address? (n : Node) : Option Node :=
  if n.kind == "pointer_expression" && n.fieldText? "operator" == some "&" then
    (n.field? "argument").filter (·.kind == "identifier")
  else none

/-- Whether a value is a null pointer. -/
def isNull (n : Node) : Bool :=
  n.kind == "null" || n.kind == "nullptr" || ["NULL", "0", "nullptr"].contains (Text.trim n.text)

/-- The flags of an expression that joins them by bars. -/
def splitFlags (s : String) : List String :=
  ((Text.segments (· == '|') s.toList).map Text.trimChars |>.filter (!·.isEmpty)).map String.ofList

/-! ### Calls -/

/-- The name of a called function without what it is qualified by. -/
def callee? (n : Node) : Option String :=
  (n.field? "function").map fun f =>
    Text.trim (match Text.splitLast? [':', ':'] f.text.toList with
      | some (_, last) => String.ofList last
      | none => f.text)

/-- The arguments of a call. -/
def arguments (n : Node) : List Node := ((n.field? "arguments").map Node.parts).getD []

/-! ### Names -/

/-- Whether a type text names one of the types, as whole words.  Without any type, the text has only
to contain a word. -/
def mentionsType (types : List String) (text : String) : Bool :=
  (if types.isEmpty then [""] else types).any fun t => Text.standsAlone t.toList none text.toList

/-- Whether a name begins with a small ASCII letter and consists of word characters. -/
def isPlainName (s : String) : Bool :=
  match s.toList with
  | [] => false
  | c :: cs => c.isLower && cs.all Unicode.isWord

end Cvar

end Upkeep
