/-
**Finding and cutting parts of a text.**

Main definitions:

* `Upkeep.Text.occursIn` — one list stands somewhere inside another;
* `Upkeep.Text.stripPrefix?`, `Upkeep.Text.stripSuffix?` — what is left when a list is taken off an
  end;
* `Upkeep.Text.splitOnce?`, `Upkeep.Text.splitLast?` — the two sides of the first or the last place
  where a list stands;
* `Upkeep.Text.splitAll` — all the stretches between the places where a list stands;
* `Upkeep.Text.replaceAll` — another list put in those places.
-/

set_option relaxedAutoImplicit false
set_option autoImplicit false

namespace Upkeep

namespace Text

variable {α : Type} [BEq α]

/-! ### Lists -/

/-- Whether `p` stands somewhere inside `s`. -/
def occursIn (p : List α) : List α → Bool
  | [] => p.isEmpty
  | c :: s => p.isPrefixOf (c :: s) || occursIn p s

/-- What follows `p` when `s` begins with it. -/
def stripPrefix? : (p s : List α) → Option (List α)
  | [], s => some s
  | _ :: _, [] => none
  | a :: p, c :: s => if a == c then stripPrefix? p s else none

/-- What precedes `p` when `s` ends with it. -/
def stripSuffix? (p s : List α) : Option (List α) :=
  (stripPrefix? p.reverse s.reverse).map List.reverse

/-- The two sides of the first place where `p` stands in `s`; `before` holds what was passed,
latest first. -/
def splitOnceAfter (p : List α) (before : List α) : List α → Option (List α × List α)
  | [] => if p.isEmpty then some (before.reverse, []) else none
  | c :: s =>
    match stripPrefix? p (c :: s) with
    | some rest => some (before.reverse, rest)
    | none => splitOnceAfter p (c :: before) s

/-- The two sides of the first place where `p` stands in `s`. -/
def splitOnce? (p s : List α) : Option (List α × List α) := splitOnceAfter p [] s

/-- The two sides of the last place where `p` stands in `s`. -/
def splitLast? (p s : List α) : Option (List α × List α) :=
  (splitOnce? p.reverse s.reverse).map fun (after, before) => (before.reverse, after.reverse)

/-- The stretches of a text between the places where `p` stands, found from the left.  `skip`
counts the members of `p` still to be passed over, `current` is the stretch under construction,
latest first. -/
def splitAllFrom (p : List α) : (skip : Nat) → (current : List α) → List α → List (List α)
  | _, current, [] => [current.reverse]
  | skip + 1, current, _ :: s => splitAllFrom p skip current s
  | 0, current, c :: s =>
    if p.isPrefixOf (c :: s) then current.reverse :: splitAllFrom p (p.length - 1) [] s
    else splitAllFrom p 0 (c :: current) s

/-- The stretches of a text between the places where the non-empty list `p` stands. -/
def splitAll (p s : List α) : List (List α) := splitAllFrom p 0 [] s

/-- The text with `q` put in all places where the non-empty list `p` stands. -/
def replaceAll (p q s : List α) : List α := q.intercalate (splitAll p s)

@[simp] theorem stripPrefix?_nil (s : List α) : stripPrefix? [] s = some s := by
  cases s <;> rfl

theorem stripPrefix?_append [ReflBEq α] (p s : List α) : stripPrefix? p (p ++ s) = some s := by
  induction p with
  | nil => simp
  | cons a p ih => simp [stripPrefix?, ih]

theorem stripSuffix?_append [ReflBEq α] (p s : List α) : stripSuffix? p (s ++ p) = some s := by
  simp [stripSuffix?, stripPrefix?_append]

theorem eq_append_of_stripPrefix? [LawfulBEq α] {p s rest : List α}
    (h : stripPrefix? p s = some rest) : s = p ++ rest := by
  induction p generalizing s with
  | nil => simpa using h
  | cons a p ih =>
      cases s with
      | nil => simp [stripPrefix?] at h
      | cons c s =>
          rw [stripPrefix?] at h
          split at h
          · rename_i hac
            rw [ih h, beq_iff_eq.1 hac]
            rfl
          · cases h

/-- The two sides of a place where `p` stands make up the list with `p` between them. -/
theorem eq_append_of_splitOnceAfter [LawfulBEq α] {p passed s before rest : List α}
    (h : splitOnceAfter p passed s = some (before, rest)) :
    passed.reverse ++ s = before ++ p ++ rest := by
  induction s generalizing passed with
  | nil =>
      rw [splitOnceAfter] at h
      split at h
      · rename_i hp
        rw [List.isEmpty_iff] at hp
        cases h
        simp [hp]
      · cases h
  | cons c s ih =>
      rw [splitOnceAfter] at h
      split at h
      · rename_i hprefix
        cases h
        rw [eq_append_of_stripPrefix? hprefix, List.append_assoc]
      · have hs := ih h
        rwa [List.reverse_cons, List.append_assoc] at hs

theorem eq_append_of_splitOnce? [LawfulBEq α] {p s before rest : List α}
    (h : splitOnce? p s = some (before, rest)) : s = before ++ p ++ rest :=
  eq_append_of_splitOnceAfter h

/-- A list that begins with a member that is nowhere in front of it stands there for the first
time. -/
theorem splitOnceAfter_append [LawfulBEq α] {x : α} (p before s rest : List α) (h : x ∉ s) :
    splitOnceAfter (x :: p) before (s ++ x :: p ++ rest) = some (before.reverse ++ s, rest) := by
  induction s generalizing before with
  | nil =>
      have hp : stripPrefix? (x :: p) (x :: (p ++ rest)) = some rest := by
        simpa using stripPrefix?_append (x :: p) rest
      simp [splitOnceAfter, hp]
  | cons c s ih =>
      have hc : (x == c) = false := by simpa using List.ne_of_not_mem_cons h
      have hs := ih (c :: before) (List.not_mem_of_not_mem_cons h)
      simp only [List.cons_append, splitOnceAfter, stripPrefix?, hc, Bool.false_eq_true, if_false]
      simpa using hs

theorem splitOnce?_append [LawfulBEq α] {x : α} (p s rest : List α) (h : x ∉ s) :
    splitOnce? (x :: p) (s ++ x :: p ++ rest) = some (s, rest) := by
  rw [splitOnce?, splitOnceAfter_append p [] s rest h]
  rfl

theorem splitOnceAfter_of_not_mem [LawfulBEq α] {x : α} (p before s : List α) (h : x ∉ s) :
    splitOnceAfter (x :: p) before s = none := by
  induction s generalizing before with
  | nil => rfl
  | cons c s ih =>
      have hc : (x == c) = false := by simpa using List.ne_of_not_mem_cons h
      simp only [splitOnceAfter, stripPrefix?, hc, Bool.false_eq_true, if_false]
      exact ih (c :: before) (List.not_mem_of_not_mem_cons h)

/-- A list whose first member is missing stands nowhere. -/
theorem splitOnce?_of_not_mem [LawfulBEq α] {x : α} (p s : List α) (h : x ∉ s) :
    splitOnce? (x :: p) s = none := splitOnceAfter_of_not_mem p [] s h

/-! ### Texts -/

/-- Whether one text stands somewhere inside another. -/
def contains (s part : String) : Bool := occursIn part.toList s.toList

/-- Whether a text begins with another. -/
def startsWith (s start : String) : Bool := start.toList.isPrefixOf s.toList

/-- Whether a text ends with another. -/
def endsWith (s tail : String) : Bool := tail.toList.isSuffixOf s.toList

/-- What follows a text at the start of another. -/
def afterStart? (start s : String) : Option String :=
  (stripPrefix? start.toList s.toList).map String.ofList

@[simp] theorem afterStart?_append (start s : String) : afterStart? start (start ++ s) = some s := by
  simp [afterStart?, stripPrefix?_append]

end Text

end Upkeep
