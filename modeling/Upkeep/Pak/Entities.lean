/-
**The entities of a map.**

The text of the entities is a row of blocks.  A block is an opening brace on a line of its own, lines
with a key and a value in quotes, and a closing brace on a line of its own.  A key and a value are
apart by one space, and spaces may follow the value; nothing but a quote ends a key or a value.
Counting stops where no further block can be read.  A block that has been read is searched for its keys
and values once more, without regard to lines and braces.

Main definitions:

* `Upkeep.Pak.block?` — the block that a text begins with;
* `Upkeep.Pak.blocks` — the blocks of a text;
* `Upkeep.Pak.pairsIn` — the keys and values in a block;
* `Upkeep.Pak.classNames` — how often every class of entities occurs;
* `Upkeep.Pak.mapName?` — the name of a map, from the name of its entry in a pak.
-/

import Upkeep.Data.Ordered
import Upkeep.Text.Fold
import Upkeep.Text.Search
import Upkeep.Text.Utf8

set_option relaxedAutoImplicit false
set_option autoImplicit false

namespace Upkeep

namespace Pak

/-! ### Blocks -/

def quote : UInt8 := 0x22

def space : UInt8 := 0x20

def newline : UInt8 := 0x0a

def openBrace : UInt8 := 0x7b

def closeBrace : UInt8 := 0x7d

/-- A key with its value. -/
abbrev Pair := List UInt8 × List UInt8

/-- The bytes up to the next quote, and what follows the quote. -/
def upToQuote? : List UInt8 → Option (List UInt8 × List UInt8)
  | [] => none
  | b :: s => if b == quote then some ([], s) else (upToQuote? s).map fun (k, r) => (b :: k, r)

/-- What follows the byte `b` when a text begins with it. -/
def expect? (b : UInt8) : List UInt8 → Option (List UInt8)
  | c :: s => if c == b then some s else none
  | [] => none

/-- The key and the value that a text begins with, the first quote already passed, and what follows
the last quote. -/
def pair? (s : List UInt8) : Option (Pair × List UInt8) := do
  let (key, s) ← upToQuote? s
  let s ← expect? quote (← expect? space s)
  let (value, s) ← upToQuote? s
  some ((key, value), s)

/-- The line with a key and a value that a text begins with, the first quote already passed, and what
follows the line. -/
def pairLine? (s : List UInt8) : Option (List UInt8 × List UInt8) := do
  let ((key, value), s) ← pair? s
  let r ← expect? newline (s.dropWhile (· == space))
  some (key ++ quote :: space :: quote ::
    (value ++ quote :: (s.takeWhile (· == space) ++ [newline])), r)

theorem upToQuote?_length {s k r : List UInt8} (h : upToQuote? s = some (k, r)) :
    r.length < s.length := by
  induction s generalizing k r with
  | nil => simp [upToQuote?] at h
  | cons b s ih =>
      simp only [upToQuote?] at h
      split at h
      · simp only [Option.some.injEq, Prod.mk.injEq] at h
        simp [h.2]
      · obtain ⟨⟨k', r'⟩, h', heq⟩ := Option.map_eq_some_iff.1 h
        simp only [Prod.mk.injEq] at heq
        have := ih h'
        rw [← heq.2, List.length_cons]
        omega

theorem expect?_length {b : UInt8} {s r : List UInt8} (h : expect? b s = some r) :
    r.length < s.length := by
  cases s with
  | nil => simp [expect?] at h
  | cons c s =>
      simp only [expect?] at h
      split at h
      · simp only [Option.some.injEq] at h
        simp [h]
      · simp at h

theorem pair?_length {s r : List UInt8} {p : Pair} (h : pair? s = some (p, r)) :
    r.length < s.length := by
  unfold pair? at h
  obtain ⟨⟨key, s₁⟩, h₁, h⟩ := Option.bind_eq_some_iff.1 h
  obtain ⟨s₂, h₂, h⟩ := Option.bind_eq_some_iff.1 h
  obtain ⟨s₃, h₃, h⟩ := Option.bind_eq_some_iff.1 h
  obtain ⟨⟨value, s₄⟩, h₄, h⟩ := Option.bind_eq_some_iff.1 h
  simp only [Option.some.injEq, Prod.mk.injEq] at h
  have l₁ := upToQuote?_length h₁
  have l₂ := expect?_length h₂
  have l₃ := expect?_length h₃
  have l₄ := upToQuote?_length h₄
  rw [← h.2]
  omega

theorem pairLine?_length {s l r : List UInt8} (h : pairLine? s = some (l, r)) :
    r.length < s.length := by
  unfold pairLine? at h
  obtain ⟨⟨p, s₁⟩, h₁, h⟩ := Option.bind_eq_some_iff.1 h
  obtain ⟨s₂, h₂, h⟩ := Option.bind_eq_some_iff.1 h
  simp only [Option.some.injEq, Prod.mk.injEq] at h
  have l₁ := pair?_length h₁
  have l₂ := expect?_length h₂
  have l₃ := (List.dropWhile_suffix (· == space) (l := s₁)).sublist.length_le
  rw [← h.2]
  omega

/-- The lines of a block that has been opened, up to its closing line, and what follows. -/
def linesFrom? (s : List UInt8) : Option (List UInt8 × List UInt8) :=
  match s with
  | [] => none
  | c :: s =>
    if c == quote then
      match h : pairLine? s with
      | some (l, r) =>
        have := pairLine?_length h
        (linesFrom? r).map fun (ls, r) => (quote :: (l ++ ls), r)
      | none => none
    else if c == closeBrace then (expect? newline s).map fun r => ([closeBrace, newline], r)
    else none
termination_by s.length
decreasing_by simp only [List.length_cons]; omega

/-- The block that a text begins with, and what follows it. -/
def block? (s : List UInt8) : Option (List UInt8 × List UInt8) := do
  let (ls, r) ← linesFrom? (← expect? newline (← expect? openBrace s))
  some (openBrace :: newline :: ls, r)

theorem linesFrom?_length {s ls r : List UInt8} (h : linesFrom? s = some (ls, r)) :
    r.length < s.length := by
  fun_induction linesFrom? s generalizing ls r with
  | case1 => simp at h
  | case2 c s _ l r' hp hlt ih =>
      obtain ⟨⟨ls', r''⟩, h', heq⟩ := Option.map_eq_some_iff.1 h
      simp only [Prod.mk.injEq] at heq
      have := ih h'
      rw [← heq.2, List.length_cons]
      omega
  | case3 => simp at h
  | case4 c s _ _ =>
      obtain ⟨r', h', heq⟩ := Option.map_eq_some_iff.1 h
      simp only [Prod.mk.injEq] at heq
      have := expect?_length h'
      rw [← heq.2, List.length_cons]
      omega
  | case5 => simp at h

theorem block?_length {s b r : List UInt8} (h : block? s = some (b, r)) : r.length < s.length := by
  unfold block? at h
  obtain ⟨s₁, h₁, h⟩ := Option.bind_eq_some_iff.1 h
  obtain ⟨s₂, h₂, h⟩ := Option.bind_eq_some_iff.1 h
  obtain ⟨⟨ls, s₃⟩, h₃, h⟩ := Option.bind_eq_some_iff.1 h
  simp only [Option.some.injEq, Prod.mk.injEq] at h
  have l₁ := expect?_length h₁
  have l₂ := expect?_length h₂
  have l₃ := linesFrom?_length h₃
  rw [← h.2]
  omega

/-- The blocks of a text, up to where none can be read.  A single byte at the end is no failure. -/
def blocks (s : List UInt8) : List (List UInt8) :=
  match s with
  | [] => []
  | [_] => []
  | a :: b :: t =>
    match h : block? (a :: b :: t) with
    | some (block, r) =>
      have := block?_length h
      block :: blocks r
    | none => []
termination_by s.length
decreasing_by exact this

/-! ### Pairs -/

/-- The keys with their values in a block, from left to right.  They are looked for from every quote
on, wherever it stands, so what makes the block up is not looked at again. -/
def pairsIn (s : List UInt8) : List Pair :=
  match s with
  | [] => []
  | c :: s =>
    if c == quote then
      match h : pair? s with
      | some (p, r) =>
        have := pair?_length h
        p :: pairsIn r
      | none => pairsIn s
    else pairsIn s
termination_by s.length
decreasing_by all_goals (simp only [List.length_cons]; omega)

/-! ### Classes -/

/-- The key of the class. -/
def classKey : List UInt8 := Text.Utf8.encode "classname"

/-- The class that a block names: the value of the last key of that name. -/
def className? (block : List UInt8) : Option String :=
  (((pairsIn block).filter (·.1 == classKey)).getLast?).map fun p => Text.Utf8.decode p.2

/-- Texts with numbers, in order. -/
abbrev Counts := List (String × Nat)

namespace Counts

/-- The counts with one more of a text. -/
def add (c : Counts) (name : String) : Counts :=
  Data.upsertBy compare name (fun n => n.getD 0 + 1) c

/-- The number for a text. -/
def of (c : Counts) (name : String) : Nat := (Data.lookupBy compare name c).getD 0

end Counts

/-- How often every class of entities occurs. -/
def classNames (s : List UInt8) : Counts :=
  ((blocks s).filterMap className?).foldl Counts.add []

/-! ### Names of maps -/

/-- The name of a map: what stands between the directory of the maps and the extension, up to the
first underscore. -/
def mapName? (entry : String) : Option String := do
  let rest ← Text.stripFoldPrefix? "maps/".toList entry.toList
  let stem ← Text.stripFoldSuffix? ".bsp".toList rest
  if stem.isEmpty || stem.any (fun c => c == '/' || c == '\\') then none
  else some (String.ofList (stem.takeWhile (· != '_')))

@[simp] theorem classNames_nil : classNames [] = [] := by simp [classNames, blocks]

end Pak

end Upkeep
