/-
**Where calls are migrated.**

The calls on a line are migrated one after the other, each where its text first stands in the line that
the ones before it left; the columns at which they were recorded are not looked at.  So a call is migrated
at its own column exactly if its text does not stand further left, in a comment, in a string or at the end
of a longer call.  If it does, the text there is changed, the call stays, and the line is not marked.

Main definitions:

* `Upkeep.Cvar.CallSite`, `Upkeep.Cvar.siteText`, `Upkeep.Cvar.siteColumns` — the calls on a line with the
  text in front of them, and their columns;
* `Upkeep.Cvar.TakenAt` — calls that were migrated at some columns of a line;
* `Upkeep.Cvar.InPlace` — calls whose texts first stand at their own places.

Main results:

* `Upkeep.Cvar.takenAt_iff` — calls are migrated at their own columns exactly if they are in place;
* `Upkeep.Cvar.Migration.writes_become_calls` — **where the writes on a line are migrated**.
-/

import Upkeep.Proofs.Cvar.LineChanges
import Upkeep.Proofs.Text.Words

set_option relaxedAutoImplicit false
set_option autoImplicit false

namespace Upkeep

namespace Cvar

open Files
open Text (FirstAt)
open Text.Utf8 (width width_append width_cons)

/-! ### Calls on a line -/

/-- A call on a line: the text between it and the call in front of it, the call, and what it becomes. -/
structure CallSite where
  gap : List Char
  old : String
  new : String
deriving DecidableEq, Repr

namespace CallSite

/-- The call and what it becomes. -/
def call (s : CallSite) : String × String := (s.old, s.new)

end CallSite

variable {sites : List CallSite} {calls : List (String × String)} {columns : List Nat}
  {front tail old new : List Char} {missing missing' : Bool} {n : Nat} {grown : Int}

/-- The text of a line up to its last call. -/
def siteText (sites : List CallSite) : List Char := sites.flatMap fun s => s.gap ++ s.old.toList

/-- The text of a line up to its last call, when the calls are migrated. -/
def migratedText (sites : List CallSite) : List Char := sites.flatMap fun s => s.gap ++ s.new.toList

/-- The columns of calls behind `n` bytes. -/
def siteColumns (n : Nat) : List CallSite → List Nat
  | [] => []
  | s :: sites => (n + width s.gap + 1) ::
      siteColumns (n + width s.gap + width s.old.toList) sites

/-- Behind a text, every call first stands at its own place, when the calls in front of it were
migrated. -/
def InPlace (front : List Char) (tail : List Char) : List CallSite → Prop
  | [] => True
  | s :: sites =>
    FirstAt s.old.toList (front ++ s.gap ++ s.old.toList ++ (siteText sites ++ tail)) (front ++ s.gap)
      (siteText sites ++ tail) ∧
    InPlace (front ++ s.gap ++ s.new.toList) tail sites

/-- One after the other, calls were migrated at some columns of a line; `grown` tells by how much the
text in front of them has grown. -/
inductive TakenAt : (grown : Int) → List (String × String) → List Nat → List Char → List Char → Prop where
  | nil (grown : Int) (text : List Char) : TakenAt grown [] [] text text
  | cons {grown : Int} {call : String × String} {calls : List (String × String)} {column : Nat}
      {columns : List Nat} {old before after new : List Char}
      (hfirst : FirstAt call.1.toList old before after) (hcolumn : column + grown = width before + 1)
      (h : TakenAt (grown + width call.2.toList - width call.1.toList) calls columns
        (before ++ call.2.toList ++ after) new) : TakenAt grown (call :: calls) (column :: columns) old new

/-- What becomes of calls is settled. -/
theorem CallsTried.unique {new' : List Char} (h : CallsTried calls old new missing)
    (h' : CallsTried calls old new' missing') : new = new' ∧ missing = missing' := by
  induction h generalizing missing' with
  | nil text =>
      cases h'
      exact ⟨rfl, rfl⟩
  | made hfirst h ih =>
      cases h' with
      | made hfirst' h' =>
          obtain ⟨rfl, rfl⟩ := hfirst.unique hfirst'
          exact ih h'
      | missing hnot h' => exact absurd ⟨_, _, hfirst.eq.symm⟩ hnot
  | missing hnot h ih =>
      cases h' with
      | made hfirst' h' => exact absurd ⟨_, _, hfirst'.eq.symm⟩ hnot
      | missing hnot' h' => exact ⟨(ih h').1, rfl⟩

/-- Calls that were migrated at some columns were there. -/
theorem TakenAt.callsTried (h : TakenAt grown calls columns old new) :
    CallsTried calls old new false := by
  induction h with
  | nil grown text => exact .nil text
  | cons hfirst hcolumn h ih => exact .made hfirst ih

/-- A place in a text is told by the number of bytes in front of it. -/
theorem eq_of_width_eq {a b c d : List Char} (h : a ++ b = c ++ d) (hwidth : width a = width c) :
    a = c := by
  induction a generalizing c with
  | nil =>
      cases c with
      | nil => rfl
      | cons y c =>
          have hpos := y.utf8Size_pos
          rw [width_cons, Text.Utf8.width_nil] at hwidth
          omega
  | cons x a ih =>
      cases c with
      | nil =>
          have hpos := x.utf8Size_pos
          rw [width_cons, Text.Utf8.width_nil] at hwidth
          omega
      | cons y c =>
          simp only [List.cons_append, List.cons.injEq] at h
          obtain ⟨rfl, h⟩ := h
          rw [width_cons, width_cons] at hwidth
          rw [ih h (by omega)]

/-- Calls are migrated at their own columns exactly if they are in place. -/
theorem takenAt_iff (hgrown : n + grown = width front) :
    TakenAt grown (sites.map CallSite.call) (siteColumns n sites) (front ++ siteText sites ++ tail) new ↔
      InPlace front tail sites ∧ new = front ++ migratedText sites ++ tail := by
  induction sites generalizing front n grown with
  | nil =>
      simp only [siteText, migratedText, List.flatMap_nil, List.append_nil]
      constructor
      · intro h
        cases h
        exact ⟨⟨⟩, rfl⟩
      · rintro ⟨-, rfl⟩
        exact .nil grown _
  | cons s sites ih =>
      have htext : front ++ siteText (s :: sites) ++ tail =
          front ++ s.gap ++ s.old.toList ++ (siteText sites ++ tail) := by
        simp [siteText]
      have hmigrated : front ++ migratedText (s :: sites) ++ tail =
          front ++ s.gap ++ s.new.toList ++ migratedText sites ++ tail := by
        simp [migratedText]
      have hfront : (n + width s.gap + width s.old.toList : ℕ) +
          (grown + width s.new.toList - width s.old.toList) =
            (width (front ++ s.gap ++ s.new.toList) : Int) := by
        simp only [width_append]
        push_cast
        omega
      have hrest := ih hfront
      rw [List.append_assoc _ (siteText sites)] at hrest
      rw [htext, hmigrated, InPlace]
      constructor
      · intro h
        cases h with
        | @cons _ _ _ _ _ _ before after _ hfirst hcolumn h =>
            have hwidth : width (front ++ s.gap) = width before := by
              rw [width_append]
              push_cast at hcolumn
              omega
            have heq := hfirst.eq
            rw [List.append_assoc, List.append_assoc before] at heq
            obtain rfl := eq_of_width_eq heq hwidth
            obtain rfl := List.append_cancel_left (List.append_cancel_left heq)
            obtain ⟨hplace, hnew⟩ := hrest.1 h
            exact ⟨⟨hfirst, hplace⟩, hnew⟩
      · rintro ⟨⟨hfirst, hplace⟩, rfl⟩
        refine .cons hfirst ?_ (hrest.2 ⟨hplace, rfl⟩)
        rw [width_append]
        push_cast
        omega

/-! ### Lines with writes -/

namespace Migration

variable {m : Migration} {cfg : Settings} {ms : List Mention} {line : String}

/-- The columns of the writes among some mentions. -/
def writeColumns (ms : List Mention) : List Nat := (ms.filter (·.1 == .set)).map (·.2.column)

/-- Where neither a declaration, a definition nor a registration is on a line, what comes for the line
is nothing. -/
theorem outcome_of_hides_nil (m : Migration) (cfg : Settings) (line : String)
    (hroles : ∀ a ∈ ms, a.1 ≠ .decl ∧ a.1 ≠ .define ∧ a.1 ≠ .get) (h : ms.any m.hides = true) :
    m.outcome cfg ms line = [] := by
  have hnone : ∀ role, (∀ a ∈ ms, a.1 ≠ role) → ms.any (·.1 == role) = false := by
    intro role hrole
    rw [List.any_eq_false]
    intro a ha
    simpa using hrole a ha
  have hdecl := hnone .decl fun a ha => (hroles a ha).1
  have hdefine := hnone .define fun a ha => (hroles a ha).2.1
  have hget := hnone .get fun a ha => (hroles a ha).2.2
  have hpairwise : ms.Pairwise fun a b => a.1 = .define → b.1 ≠ .decl :=
    List.pairwise_of_forall_mem_list fun a ha b hb _ => (hroles b hb).1
  rw [m.outcome_of_hides cfg line h, LinePlan.generated, m.planOf_whole line hpairwise, m.planOf_latch]
  simp [wholeOf?, latchOf?, hdecl, hdefine, hget]

/-- **Where the writes on a line are migrated**: over readable files the patch can be made, and holds what
becomes of the lines.  A table entry or a range check of a ranged cvar deletes its line, unless it holds a
declaration, a definition or a registration.  On a line for which nothing else comes every call, one after
the other, becomes what it becomes where its text first stands in the line that the calls before it left,
and then the reads that fit do.  The line is marked if a text stood nowhere or a mention is left for manual
work.  If the line is made of the calls and what is between them, all calls are migrated at the columns at
which they were recorded if and only if every text first stands at its own place, and then nothing else
is changed for them. -/
theorem writes_become_calls (m : Migration) (cfg : Settings) :
    (∀ w context, m.record.Readable w →
      ∃ p w', (m.patch cfg context).on w = (.ok p, w') ∧ m.Carried cfg w' p) ∧
    (∀ ms line, (∀ a ∈ ms, a.1 ≠ .decl ∧ a.1 ≠ .define ∧ a.1 ≠ .get) → ms.any m.hides = true →
      m.outcome cfg ms line = []) ∧
    ∀ ms line, ms.any m.hides = false → ∃ called missing new marked,
      m.outcome cfg ms line = [if marked then Diff.mark ++ new else new] ∧
      CallsTried (ms.filterMap m.call?) line.toList called missing ∧
      (if ms.any (·.1.isTypedRead) then Swaps (m.ReadBecomes cfg) none called new.toList
        else new.toList = called) ∧
      (missing = true ∨ ms.any m.marks = true → marked = true) ∧
      ∀ sites tail, line.toList = siteText sites ++ tail →
        ms.filterMap m.call? = sites.map CallSite.call → writeColumns ms = siteColumns 0 sites →
          (TakenAt 0 (ms.filterMap m.call?) (writeColumns ms) line.toList called ↔ InPlace [] tail sites) ∧
          (InPlace [] tail sites → missing = false ∧ called = migratedText sites ++ tail) := by
  refine ⟨fun w context => m.exists_carried cfg context,
    fun ms line => m.outcome_of_hides_nil cfg line, ?_⟩
  intro ms line hhides
  obtain ⟨called, missing, new, marked, houtcome, hcalled, hswaps, -, hmarked, -⟩ :=
    m.outcome_changes cfg line hhides
  refine ⟨called, missing, new, marked, houtcome, hcalled, hswaps, hmarked, ?_⟩
  intro sites tail hline hcalls hcolumns
  have htaken : ∀ {new}, TakenAt 0 (ms.filterMap m.call?) (writeColumns ms) line.toList new ↔
      InPlace [] tail sites ∧ new = migratedText sites ++ tail := by
    intro new
    rw [hcalls, hcolumns, hline]
    have hstart : (0 : ℕ) + (0 : Int) = width [] := rfl
    exact takenAt_iff hstart
  -- What becomes of the calls is settled, so if they are in place it is this.
  have hplaced : InPlace [] tail sites → called = migratedText sites ++ tail ∧ missing = false :=
    fun hplace => hcalled.unique (htaken.2 ⟨hplace, rfl⟩).callsTried
  refine ⟨⟨fun h => (htaken.1 h).1, fun hplace => htaken.2 ⟨hplace, (hplaced hplace).1⟩⟩, ?_⟩
  intro hplace
  exact ⟨(hplaced hplace).2, (hplaced hplace).1⟩

/-- A line with two writes, and a third one in a comment. -/
def writtenTwice : String := "Cvar_Set(\"x\", \"1\"); Cvar_Set(\"x\", \"1\"); // Cvar_Set(\"x\", \"1\");"

/-- A migration with writes at some columns of a line. -/
def writtenAt (columns : List Nat) : Migration :=
  ⟨"x", ⟨[(.set, columns.map fun c => ⟨⟨"a.cpp"⟩, 1, c⟩)], [], [], [], [],
    columns.map fun c => (⟨⟨"a.cpp"⟩, 1, c⟩, ⟨"\"1\"", "Cvar_Set(\"x\", \"1\")"⟩)⟩, .int, ""⟩

theorem writes_become_calls_twice :
    (∃ p w', ((writtenAt [1, 21]).patch {} 3).on
        ((Workspace.ofDisk ⟨[], []⟩ false).holdLines ⟨"a.cpp"⟩ [writtenTwice]) = (.ok p, w') ∧
      (writtenAt [1, 21]).Carried {} w' p) ∧
    (writtenAt [1, 21]).outcome {} (writtenAt [1, 21]).record.mentions writtenTwice =
      ["x.Set(1); x.Set(1); // Cvar_Set(\"x\", \"1\");"] ∧
    TakenAt 0 ((writtenAt [1, 21]).record.mentions.filterMap (writtenAt [1, 21]).call?) [1, 21]
      writtenTwice.toList "x.Set(1); x.Set(1); // Cvar_Set(\"x\", \"1\");".toList := by
  obtain ⟨hpatch, -, hlines⟩ := (writtenAt [1, 21]).writes_become_calls {}
  obtain ⟨called, missing, new, marked, -, -, -, -, hsites⟩ :=
    hlines (writtenAt [1, 21]).record.mentions writtenTwice (by decide +kernel)
  obtain ⟨htaken, hcalled⟩ := hsites
    [⟨[], "Cvar_Set(\"x\", \"1\")", "x.Set(1)"⟩, ⟨"; ".toList, "Cvar_Set(\"x\", \"1\")", "x.Set(1)"⟩]
    "; // Cvar_Set(\"x\", \"1\");".toList (by decide +kernel) (by decide +kernel) (by decide +kernel)
  have hplace : InPlace [] "; // Cvar_Set(\"x\", \"1\");".toList
      [⟨[], "Cvar_Set(\"x\", \"1\")", "x.Set(1)"⟩,
        ⟨"; ".toList, "Cvar_Set(\"x\", \"1\")", "x.Set(1)"⟩] :=
    ⟨Text.splitOnce?_eq_some_iff.1 (by decide +kernel), Text.splitOnce?_eq_some_iff.1 (by decide +kernel),
      ⟨⟩⟩
  have htaken := htaken.2 hplace
  rw [(hcalled hplace).2] at htaken
  have hfile : ((Workspace.ofDisk ⟨[], []⟩ false).holdLines ⟨"a.cpp"⟩ [writtenTwice]).Readable ⟨"a.cpp"⟩ :=
    ⟨[writtenTwice], rfl⟩
  refine ⟨hpatch _ 3 ?_, by decide +kernel, htaken⟩
  simpa [Record.Readable, Record.mentions, writtenAt] using hfile

/-- A write stays where its text stands further left: in a comment, or at the end of another call.  The
text there is changed, and the line is not marked. -/
theorem write_left_behind_text :
    (writtenAt [26]).outcome {} (writtenAt [26]).record.mentions
      "/* Cvar_Set(\"x\", \"1\") */ Cvar_Set(\"x\", \"1\");" =
        ["/* x.Set(1) */ Cvar_Set(\"x\", \"1\");"] ∧
    (writtenAt [24]).outcome {} (writtenAt [24]).record.mentions
      "my_Cvar_Set(\"x\", \"1\"); Cvar_Set(\"x\", \"1\");" =
        ["my_x.Set(1); Cvar_Set(\"x\", \"1\");"] := by
  decide +kernel

end Migration

end Cvar

end Upkeep
