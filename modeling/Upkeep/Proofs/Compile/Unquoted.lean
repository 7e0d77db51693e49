/-
**Commands without quotes.**

Where a command has no quotes, only blanks part its arguments: each of its longest runs without blanks
becomes one.  Such a run is not left as it is, though.  A backslash shields a backslash behind it outside of
quotes too, so of each row of backslashes only half is kept, and the last one if their number is odd.  Paths
with single backslashes survive, and those that begin with two of them lose one.

Main definitions:

* `Upkeep.Compile.runs` — the longest runs without blanks of a command, with their places;
* `Upkeep.Compile.unescaped` — what is left of a run.

Main results:

* `Upkeep.Compile.unescaped_backslashes` — how many backslashes are left of a row of them;
* `Upkeep.Compile.unescaped_eq_self_iff` — which runs are left as they are;
* `Upkeep.Compile.splitCommand_unquoted` — **a command without quotes is split into what is left of its
  runs**.
-/

import Upkeep.Proofs.Compile.Quoting
import Upkeep.Proofs.Text.Stretches

set_option relaxedAutoImplicit false
set_option autoImplicit false

namespace Upkeep

namespace Compile

variable {command : String} {a b r s t : List Char} {c : Char} {w : Draft} {k : Nat}

/-! ### Runs -/

/-- The longest runs without blanks of a command, each with the number of characters in front of it. -/
def runs (command : String) : List (Nat × List Char) :=
  (Text.placed 0 (Text.segments Unicode.isBlank command.toList)).filter fun run => !run.2.isEmpty

/-- **The runs are the stretches between blanks that are not empty.** -/
theorem mem_runs :
    (k, r) ∈ runs command ↔ r ≠ [] ∧ Text.StretchAt Unicode.isBlank command.toList k r := by
  rw [runs, List.mem_filter, Text.mem_placed_segments, and_comm]
  simp

/-- They are in order. -/
theorem pairwise_runs (command : String) : (runs command).Pairwise fun e e' => e.1 < e'.1 :=
  (Text.pairwise_placed 0 _).sublist List.filter_sublist

theorem map_snd_runs (command : String) : (runs command).map Prod.snd =
    (Text.segments Unicode.isBlank command.toList).filter fun r => !r.isEmpty := by
  rw [← Text.map_snd_placed 0 (Text.segments Unicode.isBlank command.toList), List.filter_map]
  rfl

/-! ### What is left of a run -/

/-- The text with one backslash for each two of them that stand together, counted from the left. -/
def unescaped : List Char → List Char
  | [] => []
  | '\\' :: '\\' :: s => '\\' :: unescaped s
  | c :: s => c :: unescaped s

@[simp] theorem unescaped_nil : unescaped [] = [] := rfl

@[simp] theorem unescaped_pair (s : List Char) : unescaped ('\\' :: '\\' :: s) = '\\' :: unescaped s := by
  rw [unescaped]

theorem unescaped_cons (h : ∀ s', c = '\\' → s = '\\' :: s' → False) :
    unescaped (c :: s) = c :: unescaped s := by
  rw [unescaped]
  exact h

/-- Induction over a text by two backslashes that stand together, or else by one character. -/
theorem pairs_induction {P : List Char → Prop} (done : P [])
    (pair : ∀ s, P s → P ('\\' :: '\\' :: s))
    (single : ∀ c s, (∀ s', c = '\\' → s = '\\' :: s' → False) → P s → P (c :: s)) (s : List Char) : P s :=
  unescaped.induct P done pair single s

theorem length_unescaped_le (s : List Char) : (unescaped s).length ≤ s.length := by
  induction s using pairs_induction with
  | done => exact Nat.le_refl _
  | pair s ih =>
      rw [unescaped_pair, List.length_cons, List.length_cons, List.length_cons]
      omega
  | single c s hpair ih =>
      rw [unescaped_cons hpair, List.length_cons, List.length_cons]
      omega

/-- **A text is left as it is exactly if no two backslashes stand together in it.** -/
theorem unescaped_eq_self_iff : unescaped s = s ↔ ¬['\\', '\\'] <:+: s := by
  induction s using pairs_induction with
  | done => simp
  | pair s ih =>
      refine iff_of_false (fun h => ?_) fun h => h ⟨[], s, rfl⟩
      rw [unescaped_pair, List.cons.injEq] at h
      have hle := length_unescaped_le s
      rw [h.2, List.length_cons] at hle
      omega
  | single c s hpair ih =>
      have hnot : ¬['\\', '\\'] <+: c :: s := by
        rintro ⟨s', hs'⟩
        obtain ⟨rfl, rfl⟩ := List.cons.inj hs'
        exact hpair s' rfl rfl
      rw [unescaped_cons hpair, List.cons.injEq, and_iff_right rfl, ih, List.infix_cons_iff, not_or,
        and_iff_right hnot]

/-- What stands behind another character than a backslash is looked at on its own. -/
theorem unescaped_append (ha : a.getLast? ≠ some '\\') (s : List Char) :
    unescaped (a ++ s) = unescaped a ++ unescaped s := by
  induction a using pairs_induction with
  | done => rfl
  | pair a ih =>
      rw [List.cons_append, List.cons_append, unescaped_pair, unescaped_pair, List.cons_append, ih]
      cases a with
      | nil => simp
      | cons d a => simpa using ha
  | single c a hpair ih =>
      cases a with
      | nil =>
          have hc : c ≠ '\\' := by simpa using ha
          rw [List.singleton_append, unescaped_cons fun _ h => absurd h hc, unescaped_cons hpair]
          rfl
      | cons d a =>
          have hpair' : ∀ s', c = '\\' → d :: a ++ s = '\\' :: s' → False := by
            rintro s' rfl hs'
            obtain ⟨rfl, -⟩ := List.cons.inj hs'
            exact hpair a rfl rfl
          rw [List.cons_append, unescaped_cons hpair', ih (by simpa using ha), unescaped_cons hpair,
            List.cons_append]

/-- Backslashes are taken two at a time. -/
theorem unescaped_replicate (hb : b.head? ≠ some '\\') : (n : Nat) →
    unescaped (List.replicate n '\\' ++ b) = List.replicate ((n + 1) / 2) '\\' ++ unescaped b
  | 0 => rfl
  | 1 => by
      refine unescaped_cons ?_
      rintro s' - rfl
      exact hb rfl
  | n + 2 => by
      rw [List.replicate_succ, List.replicate_succ, List.cons_append, List.cons_append, unescaped_pair,
        unescaped_replicate hb n, show (n + 2 + 1) / 2 = (n + 1) / 2 + 1 by omega, List.replicate_succ,
        List.cons_append]

/-- **Of a row of backslashes half is left**, and one more if their number is odd, wherever it stands. -/
theorem unescaped_backslashes (ha : a.getLast? ≠ some '\\') (n : Nat) (hb : b.head? ≠ some '\\') :
    unescaped (a ++ List.replicate n '\\' ++ b) =
      unescaped a ++ List.replicate ((n + 1) / 2) '\\' ++ unescaped b := by
  rw [List.append_assoc, unescaped_append ha, unescaped_replicate hb, List.append_assoc]

/-! ### Splitting -/

/-- Outside of quotes, a character that is neither blank nor quote goes behind what is under construction,
unless it is a backslash that shields the next one. -/
theorem splitFrom_plain (hblank : Unicode.isBlank c = false) (hdouble : c ≠ '"') (hsingle : c ≠ '\'')
    (hnext : c = '\\' → ∀ d ∈ s.head?, escapable d = false) :
    splitFrom .none w (c :: s) = splitFrom .none (w.push c) s := by
  by_cases hc : c = '\\'
  · subst hc
    cases s with
    | nil => rfl
    | cons d s => rw [splitFrom, if_neg (by simpa using hnext rfl d rfl)]
  · rw [splitFrom, if_neg (by simpa using hdouble), if_neg (by simpa using hsingle),
      if_neg (by simp [hblank])]
    intro _ _ hslash
    exact absurd hslash hc

/-- A run goes behind what is under construction, as far as it is left, if a blank or nothing follows. -/
theorem splitFrom_run (hblank : ∀ c ∈ r, Unicode.isBlank c = false) (hdouble : '"' ∉ r) (hsingle : '\'' ∉ r)
    (hs : ∀ d ∈ s.head?, Unicode.isBlank d = true) :
    splitFrom .none w (r ++ s) = splitFrom .none ((unescaped r).foldl Draft.push w) s := by
  induction r using pairs_induction generalizing w with
  | done => rfl
  | pair r ih =>
      simp only [List.mem_cons, not_or] at hdouble hsingle
      simp only [List.forall_mem_cons] at hblank
      rw [List.cons_append, List.cons_append, splitFrom, if_pos (by decide), unescaped_pair, List.foldl_cons]
      exact ih hblank.2.2 hdouble.2.2 hsingle.2.2
  | single c r hpair ih =>
      rw [List.mem_cons, not_or] at hdouble hsingle
      rw [List.forall_mem_cons] at hblank
      have hnext : c = '\\' → ∀ d ∈ (r ++ s).head?, escapable d = false := by
        rintro rfl d hd
        rw [escapable, Bool.or_eq_false_iff, beq_eq_false_iff_ne, beq_eq_false_iff_ne]
        cases r with
        | nil =>
            have hd := hs d hd
            constructor <;> rintro rfl <;> cases hd
        | cons d' r =>
            obtain rfl : d' = d := Option.some.inj hd
            constructor
            · rintro rfl
              exact hdouble.2 List.mem_cons_self
            · rintro rfl
              exact hpair r rfl rfl
      rw [List.cons_append, splitFrom_plain hblank.1 (Ne.symm hdouble.1) (Ne.symm hsingle.1) hnext,
        unescaped_cons hpair, List.foldl_cons, ih hblank.2 hdouble.2 hsingle.2]

theorem foldl_push (v t : List Char) : t.foldl Draft.push (some v) = some (t.reverse ++ v) := by
  induction t generalizing v with
  | nil => rfl
  | cons c t ih =>
      rw [List.foldl_cons, Draft.push, Option.getD_some, ih, List.reverse_cons, List.append_assoc,
        List.singleton_append]

/-- What is under construction is an argument as soon as it has a character. -/
theorem close_foldl_push (t : List Char) :
    Draft.close (t.foldl Draft.push none) = if t.isEmpty then [] else [String.ofList t] := by
  cases t with
  | nil => rfl
  | cons c t =>
      rw [List.foldl_cons, Draft.push, Option.getD_none, foldl_push]
      simp [Draft.close]

theorem unescaped_isEmpty (s : List Char) : (unescaped s).isEmpty = s.isEmpty := by
  induction s using pairs_induction with
  | done => rfl
  | pair s ih => rw [unescaped_pair, List.isEmpty_cons, List.isEmpty_cons]
  | single c s hpair ih => rw [unescaped_cons hpair, List.isEmpty_cons, List.isEmpty_cons]

/-- The runs of a text without quotes are its arguments, as far as they are left. -/
theorem splitFrom_unquoted (hdouble : '"' ∉ s) (hsingle : '\'' ∉ s) : splitFrom .none none s =
    ((Text.segments Unicode.isBlank s).filter fun r => !r.isEmpty).map
      fun r => String.ofList (unescaped r) := by
  have hclose : ∀ r : List Char, Draft.close ((unescaped r).foldl Draft.push none) =
      ([r].filter fun r => !r.isEmpty).map fun r => String.ofList (unescaped r) := by
    intro r
    rw [close_foldl_push, unescaped_isEmpty]
    cases r <;> rfl
  induction s using Text.cuts_induction Unicode.isBlank with
  | last s hs =>
      have hrun := splitFrom_run (w := none) (s := []) hs hdouble hsingle (by simp)
      rw [List.append_nil] at hrun
      rw [hrun, splitFrom_nil, Text.segments_of_not_mem hs]
      exact hclose s
  | cut a c t ha hc ih =>
      rw [List.mem_append, List.mem_cons, not_or, not_or] at hdouble hsingle
      rw [splitFrom_run ha hdouble.1 hsingle.1 (by simpa using hc), splitFrom_blank hc, hclose,
        ih hdouble.2.2 hsingle.2.2, Text.segments_append_sep ha hc, ← List.map_append, ← List.filter_append,
        List.singleton_append]

/-- The runs are left as they are exactly if no two backslashes stand together in the command. -/
theorem unescaped_runs_iff :
    (∀ e ∈ runs command, unescaped e.2 = e.2) ↔ ¬['\\', '\\'] <:+: command.toList := by
  have hpair : ∀ c ∈ ['\\', '\\'], Unicode.isBlank c = false := by
    intro c hc
    obtain rfl : c = '\\' := by simpa using hc
    decide
  have hmem : ∀ r, r ∈ (runs command).map Prod.snd ↔
      r ∈ Text.segments Unicode.isBlank command.toList ∧ r ≠ [] := by
    intro r
    rw [map_snd_runs, List.mem_filter]
    simp
  rw [Text.infix_iff_exists_segment hpair]
  constructor
  · rintro h ⟨r, hr, hin⟩
    have hne : r ≠ [] := by
      rintro rfl
      simp at hin
    obtain ⟨e, he, rfl⟩ := List.mem_map.1 ((hmem r).2 ⟨hr, hne⟩)
    exact unescaped_eq_self_iff.1 (h e he) hin
  · intro h e he
    exact unescaped_eq_self_iff.2 fun hin => h ⟨e.2, ((hmem e.2).1 (List.mem_map_of_mem he)).1, hin⟩

/-- **A command without quotes is split into what is left of its runs.**  The runs are all stretches
between blanks that are not empty, in order.  Of each row of backslashes in them half is left, and one more
if their number is odd; so they are left as they are exactly if no two backslashes stand together in the
command. -/
theorem splitCommand_unquoted (hdouble : '"' ∉ command.toList) (hsingle : '\'' ∉ command.toList) :
    (∀ k r, (k, r) ∈ runs command ↔ r ≠ [] ∧ Text.StretchAt Unicode.isBlank command.toList k r) ∧
    (runs command).Pairwise (fun e e' => e.1 < e'.1) ∧
    splitCommand command = (runs command).map (fun e => String.ofList (unescaped e.2)) ∧
    (∀ a n b, a.getLast? ≠ some '\\' → b.head? ≠ some '\\' →
      unescaped (a ++ List.replicate n '\\' ++ b) =
        unescaped a ++ List.replicate ((n + 1) / 2) '\\' ++ unescaped b) ∧
    (splitCommand command = (runs command).map (fun e => String.ofList e.2) ↔
      ¬['\\', '\\'] <:+: command.toList) := by
  have hsplit : splitCommand command = (runs command).map fun e => String.ofList (unescaped e.2) := by
    rw [splitCommand, splitFrom_unquoted hdouble hsingle, ← map_snd_runs, List.map_map]
    rfl
  refine ⟨fun k r => mem_runs, pairwise_runs command, hsplit,
    fun a n b ha hb => unescaped_backslashes ha n hb, ?_⟩
  rw [hsplit, List.map_eq_map_iff, ← unescaped_runs_iff]
  simp only [String.ofList_inj]

/-- A command with a path on a drive, a path below the directory, and a path of another machine: one of the
two backslashes that stand together is lost, and no other. -/
def otherMachine : String := "cl  /IC:\\sdk\\inc /I..\\src\\ \\\\host\\src\\a.cpp\t"

theorem splitCommand_unquoted_otherMachine :
    ('"' ∉ otherMachine.toList ∧ '\'' ∉ otherMachine.toList) ∧
      splitCommand otherMachine = (runs otherMachine).map (fun e => String.ofList (unescaped e.2)) ∧
      (runs otherMachine).map (fun e => (e.1, String.ofList (unescaped e.2))) =
        [(0, "cl"), (4, "/IC:\\sdk\\inc"), (17, "/I..\\src\\"), (27, "\\host\\src\\a.cpp")] := by
  have hdouble : '"' ∉ otherMachine.toList := by decide +kernel
  have hsingle : '\'' ∉ otherMachine.toList := by decide +kernel
  obtain ⟨-, -, hsplit, -, -⟩ := splitCommand_unquoted hdouble hsingle
  exact ⟨⟨hdouble, hsingle⟩, hsplit, by decide +kernel⟩

/-- **A path of another machine does not survive**: it begins with two backslashes and loses one. -/
theorem backslash_lost : ¬∀ command : String, '"' ∉ command.toList → '\'' ∉ command.toList →
    splitCommand command = (runs command).map fun e => String.ofList e.2 := by
  intro h
  have hlost := h "cl \\\\host\\src\\a.cpp" (by decide +kernel) (by decide +kernel)
  revert hlost
  decide +kernel

end Compile

end Upkeep
