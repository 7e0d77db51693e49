/-
**Quoted arguments are read back.**

An argument is written in double quotes, with a backslash in front of every double quote and every
backslash in it, or in single quotes as it is, if there is no single quote in it.  The quotes shield
what stands between them: a blank does not end the argument, and an argument without any characters is
still one.  So a command made of quoted arguments, with blanks between them and at both ends, is split
into these arguments, however each of them is quoted.

Main definitions:

* `Upkeep.Compile.QuotedArg` — arguments in quotes, and how they are written;
* `Upkeep.Compile.Blanks`, `Upkeep.Compile.Gap` — what may stand at the ends of a command, and between
  two arguments;
* `Upkeep.Compile.quotedCommand` — a command made of them.

Main results:

* `Upkeep.Compile.splitFrom_written` — a quoted argument goes behind what is under construction;
* `Upkeep.Compile.splitCommand_quoted` — **a command made of quoted arguments is split into them**.
-/

import Upkeep.Compile.Command

set_option relaxedAutoImplicit false
set_option autoImplicit false

namespace Upkeep

namespace Compile

/-! ### Quoted arguments -/

/-- An argument in quotes.  A single quote cannot be written in single quotes. -/
inductive QuotedArg where
  | double (text : String)
  | single (text : String) (plain : '\'' ∉ text.toList)

namespace QuotedArg

/-- The argument itself. -/
def text : QuotedArg → String
  | double t => t
  | single t _ => t

/-- How a character is written in double quotes. -/
def escaped (c : Char) : List Char := if c = '"' ∨ c = '\\' then ['\\', c] else [c]

/-- How the argument is written, with its quotes. -/
def written : QuotedArg → List Char
  | double t => '"' :: (t.toList.flatMap escaped ++ ['"'])
  | single t _ => '\'' :: (t.toList ++ ['\''])

end QuotedArg

/-- Blanks, or nothing. -/
structure Blanks where
  chars : List Char
  blank : ∀ c ∈ chars, Unicode.isBlank c = true

/-- Blanks that part two arguments. -/
structure Gap extends Blanks where
  ne_nil : chars ≠ []

/-- Quoted arguments with gaps between them; `gap i` stands behind the argument at `i`. -/
def joinQuoted : (gap : Nat → Gap) → List QuotedArg → List Char
  | _, [] => []
  | _, [a] => a.written
  | gap, a :: b :: rest =>
    a.written ++ (gap 0).chars ++ joinQuoted (fun i => gap (i + 1)) (b :: rest)

/-- A command made of quoted arguments, with blanks at both ends. -/
def quotedCommand (lead : Blanks) (gap : Nat → Gap) (args : List QuotedArg) (trail : Blanks) :
    String :=
  String.ofList (lead.chars ++ joinQuoted gap args ++ trail.chars)

/-! ### One step -/

/-- A character that is written in double quotes is read back. -/
theorem splitFrom_escaped (w : Draft) (c : Char) (s : List Char) :
    splitFrom .double w (QuotedArg.escaped c ++ s) = splitFrom .double (w.push c) s := by
  rw [QuotedArg.escaped]
  split
  · rename_i hc
    have hescapable : escapable c = true := by simpa [escapable] using hc
    rw [List.cons_append, List.singleton_append, splitFrom, if_pos hescapable]
  · rename_i hc
    rw [not_or] at hc
    rw [List.singleton_append, splitFrom, if_neg (by simpa using hc.1)]
    intro _ _ hslash
    exact absurd hslash hc.2

/-- A character that does not end single quotes. -/
theorem splitFrom_single {c : Char} (hc : c ≠ '\'') (w : Draft) (s : List Char) :
    splitFrom .single w (c :: s) = splitFrom .single (w.push c) s := by
  rw [splitFrom, if_neg (by simpa using hc)]

/-- A blank ends the argument under construction, if there is one. -/
theorem splitFrom_blank {c : Char} (hc : Unicode.isBlank c = true) (w : Draft) (s : List Char) :
    splitFrom .none w (c :: s) = w.close ++ splitFrom .none none s := by
  have hne : ∀ d : Char, Unicode.isBlank d = false → c ≠ d := by
    rintro d hd rfl
    rw [hc] at hd
    cases hd
  rw [splitFrom, if_neg (by simpa using hne '"' rfl), if_neg (by simpa using hne '\'' rfl), if_pos hc]
  intro _ _ hslash
  exact absurd hslash (hne '\\' rfl)

/-! ### Quotes and blanks -/

/-- What stands in double quotes goes behind what is under construction. -/
theorem splitFrom_double_body (v t s : List Char) :
    splitFrom .double (some v) (t.flatMap QuotedArg.escaped ++ '"' :: s) =
      splitFrom .none (some (t.reverse ++ v)) s := by
  induction t generalizing v with
  | nil =>
      rw [List.flatMap_nil, List.nil_append, splitFrom, if_pos (beq_self_eq_true _)]
      · rfl
      · intro _ _ h
        cases h
  | cons c t ih =>
      rw [List.flatMap_cons, List.append_assoc, splitFrom_escaped]
      refine (ih (c :: v)).trans ?_
      rw [List.reverse_cons, List.append_assoc, List.singleton_append]

/-- What stands in single quotes goes behind what is under construction. -/
theorem splitFrom_single_body (v s : List Char) {t : List Char} (ht : '\'' ∉ t) :
    splitFrom .single (some v) (t ++ '\'' :: s) = splitFrom .none (some (t.reverse ++ v)) s := by
  induction t generalizing v with
  | nil => rw [List.nil_append, splitFrom, if_pos (beq_self_eq_true _), List.reverse_nil, List.nil_append]
  | cons c t ih =>
      rw [List.mem_cons, not_or] at ht
      rw [List.cons_append, splitFrom_single (Ne.symm ht.1)]
      refine (ih (c :: v) ht.2).trans ?_
      rw [List.reverse_cons, List.append_assoc, List.singleton_append]

/-- **A quoted argument goes behind what is under construction**, whatever follows. -/
theorem splitFrom_written (a : QuotedArg) (w : Draft) (s : List Char) :
    splitFrom .none w (a.written ++ s) =
      splitFrom .none (some (a.text.toList.reverse ++ w.getD [])) s := by
  cases a with
  | double t =>
      rw [QuotedArg.written, List.cons_append, List.append_assoc, List.singleton_append, splitFrom,
        if_pos (beq_self_eq_true _)]
      · exact splitFrom_double_body _ _ _
      · intro _ _ h
        cases h
  | single t ht =>
      rw [QuotedArg.written, List.cons_append, List.append_assoc, List.singleton_append, splitFrom,
        if_neg (by decide), if_pos (beq_self_eq_true _)]
      · exact splitFrom_single_body _ _ ht
      · intro _ _ h
        cases h

/-- Blanks between arguments are passed over. -/
theorem splitFrom_blanks (b : Blanks) (s : List Char) :
    splitFrom .none none (b.chars ++ s) = splitFrom .none none s := by
  obtain ⟨chars, hblank⟩ := b
  dsimp only
  induction chars with
  | nil => rfl
  | cons c chars ih =>
      obtain ⟨hc, hchars⟩ := List.forall_mem_cons.1 hblank
      rw [List.cons_append, splitFrom_blank hc, ih hchars]
      rfl

/-- A gap ends the argument under construction. -/
theorem splitFrom_gap (g : Gap) (w : Draft) (s : List Char) :
    splitFrom .none w (g.chars ++ s) = w.close ++ splitFrom .none none s := by
  obtain ⟨⟨chars, hblank⟩, hne⟩ := g
  cases chars with
  | nil => exact absurd rfl hne
  | cons c chars =>
      obtain ⟨hc, hchars⟩ := List.forall_mem_cons.1 hblank
      rw [List.cons_append, splitFrom_blank hc, splitFrom_blanks ⟨chars, hchars⟩]

/-- Blanks at the end of a command end the last argument. -/
theorem splitFrom_trail (b : Blanks) (w : Draft) : splitFrom .none w b.chars = w.close := by
  obtain ⟨chars, hblank⟩ := b
  cases chars with
  | nil => exact splitFrom_nil .none w
  | cons c chars =>
      have hgap := splitFrom_gap ⟨⟨c :: chars, hblank⟩, List.cons_ne_nil _ _⟩ w []
      simpa [splitFrom_nil, Draft.close] using hgap

/-! ### Commands -/

/-- Arguments with gaps between them, and blanks behind the last one. -/
theorem splitFrom_joinQuoted (gap : Nat → Gap) (args : List QuotedArg) (trail : Blanks) :
    splitFrom .none none (joinQuoted gap args ++ trail.chars) = args.map QuotedArg.text := by
  have hclose : ∀ a : QuotedArg, Draft.close (some (a.text.toList.reverse ++ [])) = [a.text] := by
    intro a
    simp [Draft.close]
  induction gap, args using joinQuoted.induct with
  | case1 gap => exact splitFrom_trail trail none
  | case2 gap a =>
      rw [joinQuoted, splitFrom_written, splitFrom_trail]
      exact hclose a
  | case3 gap a b rest ih =>
      rw [joinQuoted, List.append_assoc, List.append_assoc, splitFrom_written, splitFrom_gap, ih]
      exact congrArg (· ++ _) (hclose a)

/-- **A command made of quoted arguments is split into them**: whatever characters they have, and if
they have none; whichever quotes each of them stands in; and whatever blanks stand between them and at
the ends. -/
theorem splitCommand_quoted (lead : Blanks) (gap : Nat → Gap) (args : List QuotedArg)
    (trail : Blanks) :
    splitCommand (quotedCommand lead gap args trail) = args.map QuotedArg.text := by
  rw [splitCommand, quotedCommand, String.toList_ofList, List.append_assoc, splitFrom_blanks,
    splitFrom_joinQuoted]

/-- A blank and a double quote in an argument, and an argument without any characters. -/
example : splitCommand " \"-DX=\\\"x y\\\"\"\t'' " = ["-DX=\"x y\"", ""] := by decide

end Compile

end Upkeep
