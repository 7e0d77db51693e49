/-
**The values of settings.**

Settings come from files of several formats and from the environment.  All of them are read as values
of one kind: scalars, lists and tables.  A value is put into a table under a key or along a place; what
is put over something else replaces it, but two tables are merged.

A place is written as a name followed by names behind dots and by numbers in brackets.

Main definitions:

* `Upkeep.Configuration.Value` — values;
* `Upkeep.Configuration.Place`, `Upkeep.Configuration.Place.ofText?` — places;
* `Upkeep.Configuration.Value.put`, `Upkeep.Configuration.Value.putAt` — a value put into another;
* `Upkeep.Configuration.Value.toText?`, `Upkeep.Configuration.Value.toNat?` — scalars as texts and
  numbers.
-/

import Upkeep.Data.Binary64
import Upkeep.Data.Json
import Upkeep.Text.Blank
import Upkeep.Text.Integer
import Upkeep.Text.Lower

set_option relaxedAutoImplicit false
set_option autoImplicit false

namespace Upkeep

namespace Configuration

open Data (Binary64)

/-- The value of a setting. -/
inductive Value where
  | null
  | bool (b : Bool)
  | integer (n : Int)
  | float (x : Binary64)
  | text (s : String)
  | list (items : List Value)
  | table (members : List (String × Value))
deriving Inhabited

namespace Value

/-! ### Tables -/

/-- The value under a key of a table. -/
def get? (members : List (String × Value)) (key : String) : Option Value :=
  (members.find? (·.1 == key)).map Prod.snd

/-- The table with the value of a key changed or given. -/
def update (members : List (String × Value)) (key : String) (f : Option Value → Value) :
    List (String × Value) :=
  match members with
  | [] => [(key, f none)]
  | (k, v) :: rest => if k == key then (k, f (some v)) :: rest else (k, v) :: update rest key f

/-- The members of a table; all other values have none. -/
def members : Value → List (String × Value)
  | table ms => ms
  | _ => []

/-- The items of a list; all other values have none. -/
def items : Value → List Value
  | list xs => xs
  | _ => []

mutual

/-- A value put over another: tables are merged, everything else is replaced. -/
def put (old : Value) : Value → Value
  | table incoming => table (putAll old.members incoming)
  | new => new

/-- A table with the members of another put over its own, one after the other. -/
def putAll (old : List (String × Value)) : List (String × Value) → List (String × Value)
  | [] => old
  | (k, v) :: rest => putAll (update old k fun o => put (o.getD null) v) rest

end

@[simp] theorem putAll_nil (old : List (String × Value)) : putAll old [] = old := by
  simp [putAll]

end Value

/-! ### Places -/

/-- One step from a value to a part of it. -/
inductive Step where
  | key (name : String)
  | index (n : Int)
deriving DecidableEq, Repr

/-- A place in a table: a key, and steps from its value. -/
structure Place where
  root : String
  steps : List Step
deriving DecidableEq, Repr

namespace Place

/-- The characters of the names in a place. -/
def isNameChar (c : Char) : Bool :=
  (c.toNat < 0x80 && c.isAlphanum) || c == '_' || c == '-'

/-- The characters that may stand around the number of an item. -/
def isNumberBlank (c : Char) : Bool := c == ' ' || c == '\t'

/-- The number of an item: digits behind at most a minus sign, with blanks around them. -/
def itemNumber? (s : List Char) : Option Int :=
  let s := Text.trimBoth isNumberBlank s
  if s.head? == some '+' then none else Text.integer? s

/-- The steps that a text is written for. -/
def steps? : (budget : Nat) → List Char → Option (List Step)
  | _, [] => some []
  | 0, _ => none
  | budget + 1, '.' :: s => do
    let name := s.takeWhile isNameChar
    if name.isEmpty then none
    else return .key (String.ofList name) :: (← steps? budget (s.dropWhile isNameChar))
  | budget + 1, '[' :: s => do
    let number := s.takeWhile (· != ']')
    match s.dropWhile (· != ']') with
    | [] => none
    | _ :: rest =>
      let n ← itemNumber? number
      return .index n :: (← steps? budget rest)
  | _, _ => none

/-- The place that a text is written for. -/
def ofText? (s : String) : Option Place := do
  let cs := s.toList
  let name := cs.takeWhile isNameChar
  if name.isEmpty then none
  else return ⟨String.ofList name, ← steps? cs.length (cs.dropWhile isNameChar)⟩

/-- The place of a key: the place that it is written for, or else the key itself. -/
def ofKey (key : String) : Place := (ofText? key).getD ⟨key, []⟩

end Place

namespace Value

/-- A list with the item at an index changed, made long enough for it; an index below zero counts from
the end. -/
def updateItem (xs : List Value) (n : Int) (f : Value → Value) : List Value :=
  let (xs, i) :=
    if 0 ≤ n then (xs ++ List.replicate (n.toNat + 1 - xs.length) null, n.toNat)
    else
      let back := (-n).toNat
      (List.replicate (back - xs.length) null ++ xs, xs.length - back)
  xs.set i (f (xs.getD i null))

/-- A value with another put over the part that some steps lead to; what is not of the right kind on
the way is replaced. -/
def putAt (old : Value) (new : Value) : List Step → Value
  | [] => put old new
  | .key name :: rest => table (update old.members name fun o => putAt (o.getD null) new rest)
  | .index n :: rest => list (updateItem old.items n fun o => putAt o new rest)

/-- A table with a value put at a place. -/
def putPlace (ms : List (String × Value)) (p : Place) (new : Value) : List (String × Value) :=
  update ms p.root fun o => putAt (o.getD null) new p.steps

/-- A table with the members of another, whose keys are written places. -/
def putMembers (ms new : List (String × Value)) : List (String × Value) :=
  new.foldl (fun ms (k, v) => putPlace ms (.ofKey k) v) ms

@[simp] theorem putMembers_nil (ms : List (String × Value)) : putMembers ms [] = ms := rfl

/-! ### Scalars -/

/-- A scalar as a text. -/
def toText? : Value → Option String
  | text s => some s
  | bool b => some (if b then "true" else "false")
  | integer n => some (toString n)
  | float x => some x.text
  | _ => none

/-- A text as a natural number of 64 bits; some words stand for one and zero. -/
def wordOfText? (s : String) : Option Nat :=
  let lower := Text.lower s
  if ["true", "on", "yes"].contains lower then some 1
  else if ["false", "off", "no"].contains lower then some 0
  else Text.word? s.toList

/-- A scalar as a natural number of 64 bits. -/
def toNat? : Value → Option Nat
  | integer n => if 0 ≤ n then some n.toNat else none
  | bool b => some (if b then 1 else 0)
  | float x => some x.toWord
  | text s => wordOfText? s
  | _ => none

/-! ### Documents -/

/-- The value of decimal digits. -/
def digitsOf (s : List Char) : Nat := (Text.digitsFrom 0 s).getD 0

/-- The number that a spelling stands for: a whole number that fits into 64 bits with a sign, or else
the nearest number of double precision. -/
def ofSpelling? (s : List Char) : Option Value :=
  let (negative, s) := match s with
    | '-' :: s => (true, s)
    | s => (false, s)
  let whole := s.takeWhile Char.isDigit
  let s := s.dropWhile Char.isDigit
  let (part, s) := match s with
    | '.' :: s => (s.takeWhile Char.isDigit, s.dropWhile Char.isDigit)
    | s => ([], s)
  let exponent : Int := match s with
    | _ :: '-' :: ds => -(digitsOf ds : Int)
    | _ :: '+' :: ds => (digitsOf ds : Int)
    | _ :: ds => (digitsOf ds : Int)
    | [] => 0
  let n := digitsOf (whole ++ part)
  let signed : Int := if negative then -(n : Int) else n
  if part.isEmpty && s.isEmpty && Text.fitsSigned signed
      && !(negative && n = 0) then some (integer signed)
  else match Binary64.ofDecimal negative n (exponent - part.length) with
    | .infinity _ => none
    | x => some (float x)

mutual

/-- The value of a JSON document; lists and objects may be nested to a limited depth. -/
def ofJson? : (depth : Nat) → Data.Json → Option Value
  | _, .null => some null
  | _, .bool b => some (bool b)
  | _, .number s => ofSpelling? s
  | _, .text s => some (text s)
  | _, .garbled => none
  | 0, _ => none
  | depth + 1, .list items => (ofJsonItems? depth items).map list
  | depth + 1, .table members => (ofJsonMembers? depth members).map table

/-- The values of the items of a JSON list. -/
def ofJsonItems? : (depth : Nat) → List Data.Json → Option (List Value)
  | _, [] => some []
  | depth, x :: rest => do return (← ofJson? depth x) :: (← ofJsonItems? depth rest)

/-- The values of the members of a JSON object; of those with one key the last counts. -/
def ofJsonMembers? : (depth : Nat) → List (String × Data.Json) → Option (List (String × Value))
  | _, [] => some []
  | depth, (k, x) :: rest => do
    let v ← ofJson? depth x
    let ms ← ofJsonMembers? depth rest
    return if (get? ms k).isSome then ms else (k, v) :: ms

end

/-- The depth to which the lists and objects of a JSON document may be nested. -/
def maxJsonDepth : Nat := 127

end Value

end Configuration

end Upkeep
