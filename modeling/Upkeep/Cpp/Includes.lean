/-
**Include directives.**

A quoted include directive begins a line, with blanks allowed on both sides of the number sign and in
front of the name.  The name reaches from one quote to the next and is not empty; nothing stops it at
the end of the line.  Comments are not looked at.

Main definitions:

* `Upkeep.Cpp.directive?` — the name of the directive that a text begins with;
* `Upkeep.Cpp.quotedIncludes` — the names of all directives of a text, in order.
-/

import Upkeep.Text.Search

set_option relaxedAutoImplicit false
set_option autoImplicit false

namespace Upkeep

namespace Cpp

/-- The blanks that may stand inside a directive. -/
def isPad (c : Char) : Bool := c == ' ' || c == '\t'

/-- What follows a quote: a name that is not empty, up to the next quote, and what follows that. -/
def quotedName? (s : List Char) : Option (List Char × List Char) :=
  match s.dropWhile (· != '"') with
  | [] => none
  | _ :: rest =>
    if s.head? == some '"' then none else some (s.takeWhile (· != '"'), rest)

/-- The name of the quoted include directive that a text begins with, and what follows it. -/
def directive? (s : List Char) : Option (List Char × List Char) :=
  match s.dropWhile isPad with
  | '#' :: s =>
    match Text.stripPrefix? "include".toList (s.dropWhile isPad) with
    | some s =>
      match s.dropWhile isPad with
      | '"' :: s => quotedName? s
      | _ => none
    | none => none
  | _ => none

theorem length_dropWhile_le {α : Type} (p : α → Bool) (s : List α) :
    (s.dropWhile p).length ≤ s.length := (List.dropWhile_suffix p).sublist.length_le

theorem quotedName?_length {s name rest : List Char} (h : quotedName? s = some (name, rest)) :
    rest.length < s.length := by
  unfold quotedName? at h
  have hle := length_dropWhile_le (· != '"') s
  split at h
  · simp at h
  · rename_i heq
    split at h
    · simp at h
    · simp only [Option.some.injEq, Prod.mk.injEq] at h
      rw [heq, List.length_cons, h.2] at hle
      omega

theorem length_of_stripPrefix? {p s rest : List Char} (h : Text.stripPrefix? p s = some rest) :
    rest.length ≤ s.length := by
  induction p generalizing s with
  | nil => simp at h; simp [h]
  | cons a p ih =>
      cases s with
      | nil => simp [Text.stripPrefix?] at h
      | cons c s =>
          simp only [Text.stripPrefix?] at h
          split at h
          · have := ih h
            simp only [List.length_cons]
            omega
          · simp at h

/-- A directive takes up some of the text. -/
theorem directive?_length {s name rest : List Char} (h : directive? s = some (name, rest)) :
    rest.length < s.length := by
  unfold directive? at h
  have h₁ := length_dropWhile_le isPad s
  split at h
  · rename_i s₁ heq₁
    have h₂ := length_dropWhile_le isPad s₁
    rw [heq₁, List.length_cons] at h₁
    split at h
    · rename_i s₂ heq₂
      have h₃ := length_of_stripPrefix? heq₂
      have h₄ := length_dropWhile_le isPad s₂
      split at h
      · rename_i s₃ heq₃
        have h₅ := quotedName?_length h
        rw [heq₃, List.length_cons] at h₄
        omega
      · simp at h
    · simp at h
  · simp at h

/-- The names of the directives of a text; `atStart` tells that a line begins here. -/
def includesFrom (atStart : Bool) (s : List Char) : List (List Char) :=
  match s with
  | [] => []
  | c :: t =>
    match h : (if atStart then directive? (c :: t) else none) with
    | some (name, rest) =>
      have : rest.length < (c :: t).length := by
        split at h
        · exact directive?_length h
        · simp at h
      name :: includesFrom false rest
    | none => includesFrom (c == '\n') t
termination_by s.length
decreasing_by
  · exact this
  · exact Nat.lt_succ_self _

/-- The names of the quoted include directives of a text, in order. -/
def quotedIncludes (text : String) : List String :=
  (includesFrom true text.toList).map String.ofList

@[simp] theorem includesFrom_nil (atStart : Bool) : includesFrom atStart [] = [] := by
  simp [includesFrom]

@[simp] theorem quotedIncludes_empty : quotedIncludes "" = [] := by simp [quotedIncludes]

end Cpp

end Upkeep
