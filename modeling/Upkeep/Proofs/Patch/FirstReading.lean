/-
**What came first stays.**

The lines of a file come to a workspace in one of two ways: a text is given for the file, or the file is
read from the disk, by somebody who asks for its lines or by a patch.  Whoever comes first settles what
the lines of the file are.  Texts that are given later, other readings, and whatever is written to the
disk or deleted from it, change nothing about them.  A reading that fails settles nothing.

A file goes by its path here.  What patches compare with is the disk as it is at the moment, if the
workspace rereads, and looking at it leaves no trace; otherwise it is what came first, so that the text of
a patch is settled as soon as the patch is made.

Main definitions:

* `Upkeep.Files.Call`, `Upkeep.Patch.Move` — what happens to a workspace, to a patch and to the disk;
* `Upkeep.Patch.Stage.ofMoves` — what a history of moves leaves behind;
* `Upkeep.Patch.Move.brings?`, `Upkeep.Patch.first?` — the lines that a move brings in for a file, and
  those that came first in a history: both without a look at any workspace.

Main results:

* `Upkeep.Patch.Stage.held?_move` — one more move brings in lines, or leaves what is held as it is;
* `Upkeep.Patch.Stage.played_ofMoves` — a workspace holds what came first;
* `Upkeep.Patch.Stage.first_content_lasts` — **what came first stays**.
-/

import Upkeep.Proofs.Data.Outcome
import Upkeep.Proofs.Patch.Failing

set_option relaxedAutoImplicit false
set_option autoImplicit false

namespace Upkeep

open Files

/-! ### Calls -/

namespace Files

/-- A call of a workspace. -/
inductive Call where
  /-- A text is given for a file. -/
  | insert (file : Path) (text : String)
  /-- Somebody asks for the lines of a file. -/
  | lines (file : Path)
  /-- Somebody asks for one line of a file. -/
  | line (file : Path) (n : Nat)
  /-- Somebody asks for the lines that patches compare with. -/
  | current (file : Path)

namespace Workspace

variable {w : Workspace} {f g : Path}

/-- The workspace that a call leaves behind. -/
def afterCall (w : Workspace) : Call → Workspace
  | .insert f text => w.hold f text
  | .lines f => ((heldLines f).on w).2
  | .line f n => ((heldLine f n).on w).2
  | .current f => ((currentLines f).on w).2

/-- A text that is given for a file is held unless there are lines of the file already. -/
theorem held?_hold (w : Workspace) (f g : Path) (text : String) :
    (w.hold f text).held? g =
      (w.held? g).or (if f.same g then some (Text.lines text) else none) := by
  rw [hold]
  cases hsame : f.same g with
  | false => rw [held?_holdLines_of_not_same hsame, if_neg Bool.false_ne_true, Option.or_none]
  | true =>
      rw [if_pos rfl, ← held?_congr _ hsame, ← held?_congr _ hsame]
      cases hheld : w.held? f with
      | some ls => rw [(extends_holdLines w f _).held f ls hheld, Option.some_or]
      | none => rw [held?_holdLines hheld, Option.none_or]

/-- Lines that are read are held unless there are lines of the file already. -/
theorem held?_reading_or (w : Workspace) (f g : Path) :
    (w.reading f).held? g =
      (w.held? g).or (if f.same g then (readLines w.disk f).toOption else none) := by
  rw [held?_reading]
  cases hsame : f.same g with
  | false => rw [if_neg Bool.false_ne_true, if_neg Bool.false_ne_true, Option.or_none]
  | true =>
      rw [if_pos rfl, if_pos rfl, ← held?_congr _ hsame]
      cases hheld : w.held? f with
      | some ls => rw [seen_of_held? hheld]; rfl
      | none => rw [seen_of_none hheld, Option.none_or]

/-- Whoever asks for lines of the file is shown some of these. -/
def Answers (w : Workspace) (file : Path) (ls : List String) : Prop :=
  ((heldLines file).on w).1 = .ok ls ∧
    ∀ n, ((heldLine file n).on w).1 = .ok (lineOf ls n)

theorem answers_of_held? {ls : List String} (h : w.held? f = some ls) : w.Answers f ls := by
  have hseen := seen_of_held? h
  refine ⟨(on_heldLines w f).trans hseen, fun n => ?_⟩
  rw [on_heldLine, hseen]
  rfl

/-- A workspace that rereads shows the disk, and nothing comes of it. -/
theorem on_currentLines_of_rereads (h : w.rereads = true) (f : Path) :
    (currentLines f).on w = (readLines w.disk f, w) := by
  rw [Settled.on (.inl h), on_currentLines, if_pos h]

theorem on_currentLines_of_not_rereads (h : w.rereads = false) (f : Path) :
    (currentLines f).on w = (w.seen f, w.reading f) := by
  rw [run_currentLines, if_neg (by rw [h]; exact Bool.false_ne_true), heldLines_on]

end Workspace

end Files

namespace Patch

/-! ### Moves -/

/-- What happens to a workspace, to a patch that is made in it, and to the disk.  Other patches of the
workspace are calls. -/
inductive Move where
  | call (c : Call)
  | act (a : Act)

namespace Move

/-- The file whose lines a move reads from the disk if nothing is held of it. -/
def reads? (rereads : Bool) : Move → Option Path
  | call (.lines f) => some f
  | call (.line f _) => some f
  | call (.current f) => if rereads then none else some f
  | act (.edit f _ _) => some f
  | _ => none

/-- The lines that a move brings in for a file: those of a text that is given for it, or those on the
disk, if the move reads them and they can be read. -/
def brings? (rereads : Bool) (d : Disk) (file : Path) : Move → Option (List String)
  | call (.insert f text) => if f.same file then some (Text.lines text) else none
  | m => (m.reads? rereads).bind fun f => if f.same file then (readLines d f).toOption else none

/-- The disk after a move: it changes only when somebody writes it. -/
def disk (d : Disk) : Move → Disk
  | act (.write d') => d'
  | _ => d

end Move

/-- The disk after a history of moves. -/
def diskAfter (d : Disk) (moves : List Move) : Disk := moves.foldl Move.disk d

/-- The lines that came first for a file in a history of moves. -/
def first? (rereads : Bool) (file : Path) : Disk → List Move → Option (List String)
  | _, [] => none
  | d, m :: moves => (m.brings? rereads d file).or (first? rereads file (m.disk d) moves)

variable {rereads : Bool} {file : Path} {d : Disk} {m : Move} {moves later : List Move}
  {ls : List String}

theorem first?_append (rereads : Bool) (file : Path) (d : Disk) (moves later : List Move) :
    first? rereads file d (moves ++ later) =
      (first? rereads file d moves).or (first? rereads file (diskAfter d moves) later) := by
  induction moves generalizing d with
  | nil => rfl
  | cons m moves ih =>
      rw [List.cons_append, first?, ih, first?, Option.or_assoc]
      rfl

theorem first?_concat (rereads : Bool) (file : Path) (d : Disk) (moves : List Move) (m : Move) :
    first? rereads file d (moves ++ [m]) =
      (first? rereads file d moves).or (m.brings? rereads (diskAfter d moves) file) := by
  rw [first?_append, first?, first?, Option.or_none]

/-- What came first stays first. -/
theorem first?_append_of_some (h : first? rereads file d moves = some ls) (later : List Move) :
    first? rereads file d (moves ++ later) = some ls := by
  rw [first?_append, h, Option.some_or]

namespace Stage

/-- What a move leaves behind. -/
def move (s : Stage) : Move → Stage
  | .call c => { s with workspace := s.workspace.afterCall c }
  | .act a => s.after a

/-- What a history of moves leaves behind, if at its start nothing was read and the patch was empty. -/
def ofMoves (context : Nat) (d : Disk) (rereads : Bool) (moves : List Move) : Stage :=
  moves.foldl move (start context (.ofDisk d rereads))

theorem ofMoves_concat (context : Nat) (d : Disk) (rereads : Bool) (moves : List Move) (m : Move) :
    ofMoves context d rereads (moves ++ [m]) = (ofMoves context d rereads moves).move m := by
  rw [ofMoves, List.foldl_append]
  rfl

/-! ### One move -/

variable {s : Stage}

/-- A move reads a file, or gives a text, or leaves what is held as it is. -/
theorem workspace_move (hs : s.Settled) (m : Move) :
    (s.move m).workspace =
      match m with
      | .call (.insert f text) => s.workspace.hold f text
      | .act (.write d) => { s.workspace with disk := d }
      | m => ((m.reads? s.workspace.rereads).map s.workspace.reading).getD s.workspace := by
  match m with
  | .call (.insert f text) => rfl
  | .call (.lines f) => exact congrArg Prod.snd (heldLines_on s.workspace f)
  | .call (.line f n) => exact congrArg Prod.snd (on_heldLine s.workspace f n)
  | .call (.current f) =>
      change ((currentLines f).on s.workspace).2 =
        ((if s.workspace.rereads then none else some f).map s.workspace.reading).getD s.workspace
      cases hrereads : s.workspace.rereads with
      | true => rw [Workspace.on_currentLines_of_rereads hrereads]; rfl
      | false => rw [Workspace.on_currentLines_of_not_rereads hrereads]; rfl
  | .act (.edit f n e) => exact s.workspace_after f n e
  | .act (.write d) => rfl
  | .act .render => exact hs.on_changes

/-- **One more move** brings in lines for a file of which nothing is held, or leaves what is held as it
is. -/
theorem held?_move (hs : s.Settled) (m : Move) (file : Path) :
    (s.move m).workspace.held? file = (s.workspace.held? file).or
      (m.brings? s.workspace.rereads s.workspace.disk file) := by
  have hreads : ∀ r : Option Path,
      ((r.map s.workspace.reading).getD s.workspace).held? file = (s.workspace.held? file).or
        (r.bind fun f => if f.same file then (readLines s.workspace.disk f).toOption else none) := by
    intro r
    cases r with
    | none => exact (Option.or_none ..).symm
    | some f => exact s.workspace.held?_reading_or f file
  rw [workspace_move hs]
  split
  · exact s.workspace.held?_hold ..
  · exact (Option.or_none ..).symm
  · rename_i hinsert hwrite
    rw [hreads, Move.brings?]
    exact hinsert

/-- What no reading changes is not changed by a move that may read a file. -/
theorem reads_congr {α : Type} {w : Workspace} {g : Workspace → α} (hg : ∀ f, g (w.reading f) = g w)
    (r : Option Path) : g ((r.map w.reading).getD w) = g w := by
  cases r with
  | none => rfl
  | some f => exact hg f

/-- Only somebody who writes it changes the disk. -/
theorem disk_move (hs : s.Settled) (m : Move) :
    (s.move m).workspace.disk = m.disk s.workspace.disk := by
  rw [workspace_move hs]
  split
  · exact (Workspace.extends_holdLines _ _ _).disk
  · rfl
  · rename_i hinsert hwrite
    rw [reads_congr fun f => (s.workspace.extends_reading f).disk, Move.disk]
    exact hwrite

/-- No move changes whether the workspace rereads. -/
theorem rereads_move (hs : s.Settled) (m : Move) :
    (s.move m).workspace.rereads = s.workspace.rereads := by
  rw [workspace_move hs]
  split
  · exact (Workspace.extends_holdLines _ _ _).rereads
  · rfl
  · exact reads_congr (fun f => (s.workspace.extends_reading f).rereads) _

/-- A move keeps what is held. -/
theorem keeps_move (hs : s.Settled) (m : Move) : s.workspace.Keeps (s.move m).workspace := by
  refine ⟨rereads_move hs m, fun f ls hheld => ?_⟩
  rw [held?_move hs, hheld, Option.some_or]

/-- The files of a patch can be compared without a trace after every move. -/
theorem Settled.move (hs : s.Settled) (m : Move) : (s.move m).Settled := by
  cases m with
  | call c => exact hs.of_keeps (keeps_move hs (.call c))
  | act a => exact hs.after a

/-! ### Histories of moves -/

/-- What a history of moves leaves: the workspace holds what came first, over the disk as it was last
written. -/
structure Played (rereads : Bool) (d : Disk) (moves : List Move) (s : Stage) : Prop where
  settled : s.Settled
  rereads_eq : s.workspace.rereads = rereads
  disk_eq : s.workspace.disk = diskAfter d moves
  held?_eq : ∀ file, s.workspace.held? file = first? rereads file d moves

theorem played_start (context : Nat) (d : Disk) (rereads : Bool) :
    Played rereads d [] (start context (.ofDisk d rereads)) :=
  ⟨settled_run context _ [], rfl, rfl, fun _ => rfl⟩

theorem Played.move (h : Played rereads d moves s) (m : Move) :
    Played rereads d (moves ++ [m]) (s.move m) := by
  refine ⟨h.settled.move m, (rereads_move h.settled m).trans h.rereads_eq, ?_, fun file => ?_⟩
  · rw [disk_move h.settled, h.disk_eq, diskAfter, diskAfter, List.foldl_append]
    rfl
  · rw [held?_move h.settled, h.held?_eq, h.rereads_eq, h.disk_eq, first?_concat]

/-- **A workspace holds what came first**, after every history of moves. -/
theorem played_ofMoves (context : Nat) (d : Disk) (rereads : Bool) (moves : List Move) :
    Played rereads d moves (ofMoves context d rereads moves) := by
  induction moves using List.reverseRecOn with
  | nil => exact played_start context d rereads
  | append_singleton moves m ih =>
      rw [ofMoves_concat]
      exact ih.move m

/-! ### What is seen of it -/

theorem Played.answers (h : Played rereads d moves s)
    (hfirst : first? rereads file d moves = some ls) : s.workspace.Answers file ls :=
  Workspace.answers_of_held? ((h.held?_eq file).trans hfirst)

/-- If the workspace does not reread, patches compare with what came first. -/
theorem Played.on_currentLines (h : Played false d moves s)
    (hfirst : first? false file d moves = some ls) :
    (currentLines file).on s.workspace = (.ok ls, s.workspace) := by
  have hheld := (h.held?_eq file).trans hfirst
  rw [Workspace.on_currentLines_of_not_rereads h.rereads_eq, Workspace.seen_of_held? hheld,
    Workspace.reading_of_held? hheld]

/-- If the workspace does not reread, working copies are compared with what came first of their files, and
nothing else is looked at. -/
theorem Played.on_render (h : Played false d moves s) {p : Patch} {base : Path → List String}
    (hp : ∀ f ∈ p.files, first? false f d moves = some (base f)) (style : Diff.Style) :
    ((p.render style).on s.workspace).1 =
      .ok (Diff.render style (changesOf p.context (p.copies.map fun c => (c.1, base c.1, c.2)))) := by
  have hcompared : p.compared.on s.workspace =
      (p.copies.mapM fun c => pure (c.1, base c.1, c.2), s.workspace) := by
    refine on_mapM_of_forall fun c hc => ?_
    rw [on_bind, h.on_currentLines (hp c.1 (List.mem_map_of_mem hc))]
    rfl
  rw [List.mapM_pure] at hcompared
  rw [render, on_bind, Patch.on_changes, hcompared]
  rfl

/-- If the workspace does not reread, something came for every file of the patch. -/
theorem Played.first?_isSome (h : Played false d moves s) (hfile : file ∈ s.patch.files) :
    ∃ ls, first? false file d moves = some ls := by
  rcases h.settled file hfile with hrereads | ⟨ls, hls⟩
  · rw [h.rereads_eq] at hrereads
    cases hrereads
  · exact ⟨ls, (h.held?_eq file).symm.trans hls⟩

/-- **What came first stays**, in every history of calls, of edits and renderings of a patch, and of
writes and deletions on the disk.

Once a text was given for a file, or the file was read, its lines are what came first of it: this is what
everybody who asks for them is shown, whatever else happens, and also what patches compare with if the
workspace does not reread.  In this case the text of a patch is the difference between its working copies
and what came first of their files, now and ever after.  If the workspace rereads, patches compare with
the disk at the moment, and nobody can tell afterwards that they did. -/
theorem first_content_lasts (context : Nat) (d : Disk) (rereads : Bool) (moves : List Move) :
    (∀ before m file, moves = before ++ [m] →
      (m.brings? rereads (diskAfter d before) file).isSome = true →
      ∃ ls, first? rereads file d moves = some ls ∧ ∀ later,
        (ofMoves context d rereads (moves ++ later)).workspace.Answers file ls ∧
        (rereads = false →
          ((currentLines file).on (ofMoves context d rereads (moves ++ later)).workspace).1 =
            .ok ls)) ∧
    (rereads = false → ∃ base : Path → List String,
      (∀ f ∈ (ofMoves context d rereads moves).patch.files,
        first? rereads f d moves = some (base f)) ∧
      ∀ style later,
        (((ofMoves context d rereads moves).patch.render style).on
            (ofMoves context d rereads (moves ++ later)).workspace).1 =
          .ok (Diff.render style (changesOf (ofMoves context d rereads moves).patch.context
            ((ofMoves context d rereads moves).patch.copies.map fun c => (c.1, base c.1, c.2))))) ∧
    (rereads = true → ∀ file,
      (currentLines file).on (ofMoves context d rereads moves).workspace =
        (readLines (diskAfter d moves) file, (ofMoves context d rereads moves).workspace)) := by
  have hplayed := played_ofMoves context d rereads moves
  refine ⟨?_, ?_, ?_⟩
  · rintro before m file rfl hbrings
    obtain ⟨brought, hbrings⟩ := Option.isSome_iff_exists.1 hbrings
    have hfirst : ∃ ls, first? rereads file d (before ++ [m]) = some ls := by
      rw [first?_concat, hbrings]
      cases first? rereads file d before with
      | none => exact ⟨brought, Option.none_or⟩
      | some ls => exact ⟨ls, Option.some_or⟩
    obtain ⟨ls, hls⟩ := hfirst
    refine ⟨ls, hls, fun later => ?_⟩
    have hplayed' := played_ofMoves context d rereads (before ++ [m] ++ later)
    have hls' := first?_append_of_some hls later
    refine ⟨hplayed'.answers hls', ?_⟩
    rintro rfl
    exact congrArg Prod.fst (hplayed'.on_currentLines hls')
  · rintro rfl
    have hbase : ∀ f ∈ (ofMoves context d false moves).patch.files,
        first? false f d moves = some ((first? false f d moves).getD []) := by
      intro f hf
      obtain ⟨ls, hls⟩ := hplayed.first?_isSome hf
      rw [hls]
      rfl
    refine ⟨fun f => (first? false f d moves).getD [], hbase, fun style later => ?_⟩
    exact (played_ofMoves context d false (moves ++ later)).on_render
      (fun f hf => first?_append_of_some (hbase f hf) later) style
  · rintro rfl file
    rw [Workspace.on_currentLines_of_rereads hplayed.rereads_eq, hplayed.disk_eq]

/-- A line of a file is deleted. -/
def deletion : List Move := [.act (.edit ⟨"/x.cpp"⟩ 1 .delete)]

/-- Somebody writes the file anew, and then a text is given for it. -/
def written : List Move :=
  [.act (.write (oneFile "int c;\n")), .call (.insert ⟨"/x.cpp"⟩ "int d;\n"),
    .call (.current ⟨"/x.cpp"⟩)]

theorem first_content_lasts_written :
    deletion = [] ++ [.act (.edit ⟨"/x.cpp"⟩ 1 .delete)] ∧
    (Move.brings? false (diskAfter (oneFile "int a;\nint b;\n") []) ⟨"/x.cpp"⟩
      (.act (.edit ⟨"/x.cpp"⟩ 1 .delete))).isSome = true ∧
    (ofMoves 3 (oneFile "int a;\nint b;\n") false (deletion ++ written)).workspace.Answers ⟨"/x.cpp"⟩
      ["int a;", "int b;"] ∧
    ((currentLines ⟨"/x.cpp"⟩).on
      (ofMoves 3 (oneFile "int a;\nint b;\n") false (deletion ++ written)).workspace).1 =
        .ok ["int a;", "int b;"] ∧
    (((ofMoves 3 (oneFile "int a;\nint b;\n") false deletion).patch.render .plain).on
      (ofMoves 3 (oneFile "int a;\nint b;\n") false (deletion ++ written)).workspace).1 =
        .ok "--- /x.cpp\n+++ /x.cpp\n@@ -1,2 +1 @@\n-int a;\n int b;\n" ∧
    ((currentLines ⟨"/x.cpp"⟩).on
      (ofMoves 3 (oneFile "int a;\nint b;\n") true (deletion ++ written)).workspace).1 =
        .ok ["int c;"] := by
  have hbrings : (Move.brings? false (diskAfter (oneFile "int a;\nint b;\n") []) ⟨"/x.cpp"⟩
      (.act (.edit ⟨"/x.cpp"⟩ 1 .delete))).isSome = true := by decide +kernel
  have hfirst : first? false ⟨"/x.cpp"⟩ (oneFile "int a;\nint b;\n") deletion =
      some ["int a;", "int b;"] := by decide +kernel
  obtain ⟨hlasts, hpatch, -⟩ :=
    first_content_lasts 3 (oneFile "int a;\nint b;\n") false deletion
  obtain ⟨-, -, hdisk⟩ :=
    first_content_lasts 3 (oneFile "int a;\nint b;\n") true (deletion ++ written)
  obtain ⟨ls, hls, hlater⟩ := hlasts [] _ ⟨"/x.cpp"⟩ rfl hbrings
  obtain rfl := Option.some.inj (hls.symm.trans hfirst)
  obtain ⟨hanswers, hcurrent⟩ := hlater written
  obtain ⟨base, hbase, htext⟩ := hpatch rfl
  refine ⟨rfl, hbrings, hanswers, hcurrent rfl, ?_, ?_⟩
  · have hcopies : (ofMoves 3 (oneFile "int a;\nint b;\n") false deletion).patch =
        ⟨[(⟨"/x.cpp"⟩, ["int b;"])], 3⟩ := by decide +kernel
    rw [hcopies] at hbase
    have hfile := Option.some.inj ((hbase ⟨"/x.cpp"⟩ List.mem_cons_self).symm.trans hfirst)
    rw [htext, hcopies, List.map_singleton, hfile]
    exact congrArg Except.ok (by decide +kernel)
  · rw [hdisk rfl]
    exact ok_of_toOption (by decide +kernel)

end Stage

end Patch

end Upkeep
