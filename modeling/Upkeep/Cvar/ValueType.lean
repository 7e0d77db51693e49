/-
**The types of migrated cvars.**

A migrated cvar has a type of its own, which may be bound to a range.  The type is inferred from the
reads: one read as a floating-point number makes it one, else one read as an integer, and a cvar that
is only read as a string is a string.  Bounds that a range check gives make a number ranged.

Main definitions:

* `Upkeep.Cvar.ValueType` — the types, and `ValueType.render`, their spelling;
* `Upkeep.Cvar.ValueType.infer` — the type of a record;
* `Upkeep.Cvar.ValueType.ofChoice?` — the type that an operator names;
* `Upkeep.Cvar.ValueType.convert` — a value of the old kind, spelled for the type.
-/

import Upkeep.Cvar.Record
import Upkeep.Text.Blank
import Upkeep.Text.Integer
import Upkeep.Text.Search

set_option relaxedAutoImplicit false
set_option autoImplicit false

namespace Upkeep

namespace Cvar

/-- The type of a migrated cvar.  Bounds are spelled as in the source. -/
inductive ValueType where
  | bool
  | int
  | float
  | string
  | rangeInt (bounds : Bounds)
  | rangeFloat (bounds : Bounds)
deriving DecidableEq, Repr

namespace ValueType

/-- The type of the values. -/
def valueName : ValueType → String
  | bool => "bool"
  | int => "int"
  | rangeInt _ => "int"
  | float => "float"
  | rangeFloat _ => "float"
  | string => "std::string"

/-- The bounds of a ranged type. -/
def bounds? : ValueType → Option Bounds
  | rangeInt b => some b
  | rangeFloat b => some b
  | _ => none

/-- Whether a type is ranged. -/
def isRanged (t : ValueType) : Bool := t.bounds?.isSome

/-- Whether the values are strings. -/
def isString (t : ValueType) : Bool := t == string

/-- The spelling of a type in the source. -/
def render (t : ValueType) : String :=
  let plain := "Cvar::Cvar<" ++ t.valueName ++ ">"
  if t.isRanged then "Cvar::Range<" ++ plain ++ ">" else plain

/-- The type of a cvar by its reads and its first bounds. -/
def infer (r : Record) : ValueType :=
  match r.has .float, r.has .int, r.bounds.head? with
  | true, _, some b => rangeFloat b
  | true, _, none => float
  | false, true, some b => rangeInt b
  | false, true, none => int
  | false, false, _ => string

/-! ### Choices -/

/-- Whether a choice names a ranged type. -/
def isRangeChoice (choice : String) : Bool :=
  let c := Text.trim choice
  c == "range-int" || c == "range-float"

/-- The type that a choice names; a ranged one takes bounds. -/
def ofChoice? (choice : String) (bounds : Option Bounds) : Option ValueType :=
  match Text.trim choice, bounds with
  | "bool", _ => some bool
  | "int", _ => some int
  | "float", _ => some float
  | "string", _ => some string
  | "range-int", some b => some (rangeInt b)
  | "range-float", some b => some (rangeFloat b)
  | _, _ => none

/-! ### Values -/

/-- The text without blanks at the ends and without the quotes around it. -/
def stripQuotes (raw : String) : String :=
  let t := Text.trimChars raw.toList
  String.ofList (((Text.stripPrefix? ['"'] t).bind (Text.stripSuffix? ['"'])).getD t)

/-- A truth value of the old kind: a word, or a number that is zero or not. -/
def convertBool (v : String) : String :=
  if v == "qtrue" || v == "true" then "true"
  else if v == "qfalse" || v == "false" then "false"
  else match Text.integer? v.toList with
    | some n => if n = 0 then "false" else "true"
    | none => v

/-- A value of the old kind, spelled for the type. -/
def convert (t : ValueType) (raw : String) : String :=
  match t with
  | string => Text.trim raw
  | bool => convertBool (stripQuotes raw)
  | _ => stripQuotes raw

/-- The value of a cvar without a default. -/
def defaultLiteral : ValueType → String
  | bool => "false"
  | string => "\"\""
  | _ => "0"

end ValueType

end Cvar

end Upkeep
