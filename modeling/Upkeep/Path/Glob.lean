/-
**Patterns for paths.**

A pattern describes whole path texts.  Stars and question marks also stand for slashes; two stars
between slashes, or at an end next to a slash, stand for any number of directories.  Alternatives
stand in braces, classes in brackets, and a backslash takes away the meaning of the character behind
it.

Texts are matched byte by byte: a question mark is one byte, and a class holds the bytes of its
members, so that a member of more than one byte is never matched as a whole by a class alone.

Main definitions:

* `Upkeep.Glob.Token` — the parts of a pattern;
* `Upkeep.Glob.tokens?` — the parts of a written pattern, if it is well formed;
* `Upkeep.Glob.Token.rests` — what a part can leave of the endings of a text;
* `Upkeep.Glob.accepts` — whether a pattern describes a text;
* `Upkeep.Globs`, `Upkeep.Globs.ofTexts` — several patterns, any of which may match.
-/

import Upkeep.Failure
import Upkeep.Text.Utf8

set_option relaxedAutoImplicit false
set_option autoImplicit false

namespace Upkeep

namespace Glob

/-! ### Patterns -/

/-- The parts of a pattern. -/
inductive Token where
  /-- A character for itself. -/
  | char (c : Char)
  /-- Any one byte. -/
  | any
  /-- Any bytes. -/
  | star
  /-- Any number of directories at the start, each with its slash. -/
  | leading
  /-- A slash, or any number of directories between two slashes. -/
  | between
  /-- Whatever lies below a directory. -/
  | under
  /-- One byte of the given ranges, or one that is in none of them. -/
  | oneOf (negated : Bool) (ranges : List (Char × Char))
  /-- One of several patterns. -/
  | choice (branches : List (List Token))
deriving Repr, Inhabited

/-! ### Classes -/

/-- What was read of a class: its ranges, latest first, and whether a range waits for its end. -/
structure ClassSoFar where
  ranges : List (Char × Char)
  pending : Bool

namespace ClassSoFar

/-- The class with one more character: the end of a range that waits for it, which must not lie
before its start, or else a range of its own. -/
def add? (k : ClassSoFar) (c : Char) : Option ClassSoFar :=
  match k.pending, k.ranges with
  | true, (a, _) :: before => if c < a then none else some ⟨(a, c) :: before, false⟩
  | _, before => some ⟨(c, c) :: before, false⟩

/-- The ranges of a class that ends here; a dash that waits for the end of a range is a member. -/
def close (k : ClassSoFar) : List (Char × Char) :=
  (if k.pending then ('-', '-') :: k.ranges else k.ranges).reverse

/-- One character inside a class. -/
def step? (k : ClassSoFar) (c : Char) : Option ClassSoFar :=
  if c == '-' && !k.ranges.isEmpty && !k.pending then some { k with pending := true } else k.add? c

end ClassSoFar

/-- The ranges of a class up to its closing bracket, and what follows.  A bracket that comes first
is a member. -/
def classFrom? (k : ClassSoFar) : List Char → Option (List (Char × Char) × List Char)
  | [] => none
  | c :: s =>
    if c == ']' && !k.ranges.isEmpty then some (k.close, s)
    else (k.step? c).bind fun k => classFrom? k s

/-- The class that starts behind a bracket, and what follows it. -/
def class? : List Char → Option (Token × List Char)
  | '!' :: s | '^' :: s => (classFrom? ⟨[], false⟩ s).map fun (r, rest) => (.oneOf true r, rest)
  | s => (classFrom? ⟨[], false⟩ s).map fun (r, rest) => (.oneOf false r, rest)

theorem classFrom?_length {k : ClassSoFar} {s rest : List Char} {r : List (Char × Char)}
    (h : classFrom? k s = some (r, rest)) : rest.length < s.length := by
  induction s generalizing k with
  | nil => simp [classFrom?] at h
  | cons c s ih =>
      simp only [classFrom?] at h
      split at h
      · simp only [Option.some.injEq, Prod.mk.injEq] at h
        simp [h.2]
      · obtain ⟨k', -, h⟩ := Option.bind_eq_some_iff.1 h
        have := ih h
        simp only [List.length_cons]
        omega

theorem class?_length {s rest : List Char} {t : Token} (h : class? s = some (t, rest)) :
    rest.length < s.length := by
  unfold class? at h
  split at h <;>
  · obtain ⟨⟨r, rest'⟩, h, heq⟩ := Option.map_eq_some_iff.1 h
    have := classFrom?_length h
    simp only [Prod.mk.injEq] at heq
    simp only [List.length_cons, ← heq.2]
    omega

/-! ### Written patterns -/

/-- A group of alternatives under construction: those that are finished, latest first, and the parts
of the present one, latest first. -/
structure Group where
  done : List (List Token)
  current : List Token

namespace Group

/-- The group in which nothing was read yet. -/
def empty : Group := ⟨[], []⟩

def push (g : Group) (t : Token) : Group := { g with current := t :: g.current }

/-- The group in which two stars in a row mean no more than one. -/
def pushStars (g : Group) : Group := (g.push .star).push .star

/-- The group with the present alternative finished. -/
def next (g : Group) : Group := ⟨g.current.reverse :: g.done, []⟩

/-- The alternatives of a finished group. -/
def close (g : Group) : Token := .choice (g.current.reverse :: g.done).reverse

/-- The group with its last part replaced, unless that part already stands for any number of
directories at the same place. -/
def replaceLast (g : Group) (t : Token) : Group :=
  match g.current with
  | .leading :: _ | .under :: _ => g
  | _ :: before => { g with current := t :: before }
  | [] => g.push t

end Group

/-- Whether two stars may stand for directories behind the character `before`. -/
def directoriesAfter (before : Option Char) (inGroup : Bool) : Bool :=
  before == some '/' || (inGroup && (before == some ',' || before == some '{'))

/-- The parts of a written pattern: `before` is the character in front, `top` the innermost group
and `outer` the groups around it, innermost first. -/
def tokensFrom? (before : Option Char) (top : Group) (outer : List Group) :
    List Char → Option (List Token)
  | [] => if outer.isEmpty then some top.current.reverse else none
  | '?' :: s => tokensFrom? (some '?') (top.push .any) outer s
  | '*' :: '*' :: s =>
    if top.current.isEmpty then
      match s with
      | [] => tokensFrom? (some '*') (top.push .leading) outer []
      | '/' :: s => tokensFrom? (some '/') (top.push .leading) outer s
      | c :: s => tokensFrom? (some '*') top.pushStars outer (c :: s)
    else if directoriesAfter before !outer.isEmpty then
      match s with
      | [] => tokensFrom? (some '*') (top.replaceLast .under) outer []
      | '/' :: s => tokensFrom? (some '/') (top.replaceLast .between) outer s
      | c :: s =>
        if !outer.isEmpty && (c == ',' || c == '}') then
          tokensFrom? (some '*') (top.replaceLast .under) outer (c :: s)
        else tokensFrom? (some '*') top.pushStars outer (c :: s)
    else tokensFrom? (some '*') top.pushStars outer s
  | '*' :: s => tokensFrom? (some '*') (top.push .star) outer s
  | '[' :: s =>
    match h : class? s with
    | some (t, rest) =>
      have := class?_length h
      tokensFrom? (some ']') (top.push t) outer rest
    | none => none
  | '{' :: s => tokensFrom? (some '{') .empty (top :: outer) s
  | '}' :: s =>
    match outer with
    | g :: outer => tokensFrom? (some '}') (g.push top.close) outer s
    | [] => none
  | ',' :: s =>
    if outer.isEmpty then tokensFrom? (some ',') (top.push (.char ',')) outer s
    else tokensFrom? (some ',') top.next outer s
  | '\\' :: c :: s => tokensFrom? (some c) (top.push (.char c)) outer s
  | '\\' :: [] => none
  | c :: s => tokensFrom? (some c) (top.push (.char c)) outer s
termination_by s => s.length
decreasing_by all_goals (simp only [List.length_cons]; omega)

/-- The parts of a written pattern, if it is well formed. -/
def tokens? (s : String) : Option (List Token) := tokensFrom? none .empty [] s.toList

/-! ### Matching -/

/-- The ends of a list, the whole list first. -/
def endings {α : Type} : List α → List (List α)
  | [] => [[]]
  | a :: s => (a :: s) :: endings s

/-- What may follow a slash somewhere in the text. -/
def afterSlashes : List UInt8 → List (List UInt8)
  | [] => []
  | b :: s => if b == 0x2f then s :: afterSlashes s else afterSlashes s

/-- Whether a byte belongs to a range.  The range reaches from the last byte of its start to the
first byte of its end; the other bytes of these two are members too. -/
def inRange (b : UInt8) (r : Char × Char) : Bool :=
  let low := String.utf8EncodeChar r.1
  let high := String.utf8EncodeChar r.2
  if r.1 == r.2 then low.contains b
  else
    low.dropLast.contains b || high.tail.contains b ||
      (low.getLastD 0 ≤ b && b ≤ high.headD 0)

mutual

/-- Whether a part stands for the empty text because it holds no alternative at all. -/
def Token.isVoid : Token → Bool
  | .choice branches => allVoid branches
  | _ => false

/-- Whether all parts are void. -/
def branchVoid : List Token → Bool
  | [] => true
  | t :: ts => t.isVoid && branchVoid ts

/-- Whether all alternatives are void. -/
def allVoid : List (List Token) → Bool
  | [] => true
  | b :: bs => branchVoid b && allVoid bs

end

/-- The longest of some endings of a text. -/
def longest? {α : Type} : List (List α) → Option (List α)
  | [] => none
  | e :: es =>
    match longest? es with
    | some e' => some (if e.length < e'.length then e' else e)
    | none => some e

/-- What the endings that begin with a slash leave behind it. -/
def behindSlash (es : List (List UInt8)) : List (List UInt8) :=
  es.filterMap fun
    | [] => none
    | b :: s => if b == 0x2f then some s else none

mutual

/-- What a part can leave of some endings of a text.  Of all endings the longest holds the others,
so it alone tells what a star can leave. -/
def Token.rests : Token → List (List UInt8) → List (List UInt8)
  | .char c, es => es.filterMap (Text.stripPrefix? (String.utf8EncodeChar c))
  | .any, es => es.filterMap List.tail?
  | .star, es => ((longest? es).map endings).getD []
  | .leading, es => es ++ ((longest? es).map afterSlashes).getD []
  | .between, es =>
    behindSlash es ++ ((longest? (behindSlash es)).map afterSlashes).getD []
  | .under, es => ((longest? (behindSlash es)).map endings).getD []
  | .oneOf negated ranges, es =>
    es.filterMap fun
      | [] => none
      | b :: s => if ranges.any (inRange b) != negated then some s else none
  | .choice branches, es => if allVoid branches then es else restsOfAny branches es

/-- What several parts in a row can leave of some endings of a text. -/
def restsOfAll : List Token → List (List UInt8) → List (List UInt8)
  | [], es => es
  | t :: ts, es => restsOfAll ts (t.rests es).eraseDups

/-- What one of several patterns can leave of some endings of a text.  An alternative without parts
counts for nothing. -/
def restsOfAny : List (List Token) → List (List UInt8) → List (List UInt8)
  | [], _ => []
  | b :: bs, es => (if branchVoid b then [] else restsOfAll b es) ++ restsOfAny bs es

end

/-- Whether a pattern describes a whole text.  Two stars alone describe every text. -/
def accepts (pattern : List Token) (s : List UInt8) : Bool :=
  match pattern with
  | [.leading] => true
  | ts => (restsOfAll ts [s]).any List.isEmpty

@[simp] theorem accepts_leading (s : List UInt8) : accepts [.leading] s = true := rfl

@[simp] theorem accepts_nil (s : List UInt8) : accepts [] s = s.isEmpty := by
  simp [accepts, restsOfAll]

end Glob

/-! ### Several patterns -/

/-- Patterns for paths, any of which may match. -/
structure Globs where
  patterns : List (List Glob.Token)
deriving Inhabited

namespace Globs

/-- The patterns that are written as the given texts, if all are well formed. -/
def ofTexts (texts : List String) : Outcome Globs :=
  match texts.mapM Glob.tokens? with
  | some ps => .ok ⟨ps⟩
  | none => .error .badPattern

/-- Whether one of the patterns describes a path text. -/
def matchesAny (g : Globs) (p : Path) : Bool :=
  let bytes := Text.Utf8.encode p.text
  g.patterns.any fun ts => Glob.accepts ts bytes

@[simp] theorem ofTexts_nil : ofTexts [] = .ok ⟨[]⟩ := rfl

@[simp] theorem matchesAny_nil (p : Path) : (⟨[]⟩ : Globs).matchesAny p = false := rfl

end Globs

end Upkeep
