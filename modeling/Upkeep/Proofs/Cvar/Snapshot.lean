/-
**What an analysis holds is what is on the disk.**

An analysis reads files and writes none.  So the lines that it holds in the end are those of the files on
its disk, and every file with a mention is among them and can be read.  A workspace over the same files
shows them just as a disk does on which nothing was read yet, whether patches compare with what is held
or with the disk; and as an analysis does not look at what patches compare with, it finds the same for
both.

Main definitions:

* `Upkeep.Files.Workspace.Snapshot` — workspaces that hold what is on the disk;
* `Upkeep.Files.Work.Blind` — operations that do not look at what patches compare with;
* `Upkeep.Cvar.Analysis.files` — the files of an analysis.

Main results:

* `Upkeep.Cvar.analyze_rereads` — **what patches compare with is no matter to an analysis**;
* `Upkeep.Cvar.snapshot_of_analyze` — what an analysis holds is what is on its disk;
* `Upkeep.Cvar.read_of_mention` — **files with mentions are files of the analysis, and can be read**;
* `Upkeep.Cvar.agrees_of_unchanged`, `Upkeep.Cvar.readable_of_unchanged` — what is left where the files
  stay as they are.
-/

import Upkeep.Proofs.Cvar.Analysis
import Upkeep.Proofs.Cvar.MigrationReads
import Upkeep.Proofs.Cvar.Within
import Upkeep.Proofs.Path.Normal

set_option relaxedAutoImplicit false
set_option autoImplicit false

namespace Upkeep

/-! ### What patches compare with -/

namespace Files

variable {α β : Type} {d : Disk} {w w' : Workspace} {f : Path} {ls : List String}

/-- The workspace whose patches compare with the disk, or with what is held. -/
def Workspace.rereading (w : Workspace) (b : Bool) : Workspace := { w with rereads := b }

theorem Workspace.rereading_holdLines (w : Workspace) (b : Bool) (f : Path) (ls : List String) :
    (w.holdLines f ls).rereading b = (w.rereading b).holdLines f ls := by
  rw [holdLines, holdLines, show (w.rereading b).held? f = w.held? f from rfl]
  split <;> rfl

/-- The operation does not look at what patches compare with. -/
def Work.Blind (m : Work α) : Prop :=
  ∀ w b, m.on (w.rereading b) = ((m.on w).1, (m.on w).2.rereading b)

namespace Work.Blind

theorem pure (a : α) : Work.Blind (Pure.pure a) := fun _ _ => rfl

theorem bind {m : Work α} {k : α → Work β} (hm : m.Blind) (hk : ∀ a, (k a).Blind) :
    (m >>= k).Blind := by
  intro w b
  rw [on_bind, on_bind, hm w b]
  rcases m.on w with ⟨e | a, w'⟩
  · rfl
  · exact hk a w' b

theorem mapM {k : α → Work β} (hk : ∀ a, (k a).Blind) (xs : List α) : (xs.mapM k).Blind := by
  induction xs with
  | nil => exact pure []
  | cons x xs ih =>
      rw [List.mapM_cons]
      exact (hk x).bind fun b => ih.bind fun bs => pure (b :: bs)

end Work.Blind

theorem blind_heldLines (f : Path) : (heldLines f).Blind := by
  intro w b
  cases hheld : w.held? f with
  | some ls => rw [heldLines_of_held? hheld, heldLines_of_held? (w := w.rereading b) hheld]
  | none =>
      rw [heldLines_of_none hheld, heldLines_of_none (w := w.rereading b) hheld,
        show (w.rereading b).disk = w.disk from rfl]
      cases readLines w.disk f with
      | error e => rfl
      | ok ls => exact Prod.ext rfl (w.rereading_holdLines b f ls).symm

/-! ### What is held -/

/-- A workspace over the disk that holds what is on it. -/
structure Workspace.Snapshot (d : Disk) (w : Workspace) : Prop where
  disk : w.disk = d
  held : ∀ c ∈ w.held, readLines d c.1 = .ok c.2

theorem Workspace.Snapshot.holdLines (h : w.Snapshot d) (hf : readLines d f = .ok ls) :
    (w.holdLines f ls).Snapshot d := by
  rw [Workspace.holdLines]
  split
  · exact h
  · refine ⟨h.disk, fun c hc => ?_⟩
    rcases List.mem_append.1 hc with hc | hc
    · exact h.held c hc
    · obtain rfl := List.mem_singleton.1 hc
      exact hf

/-- What is held of a path is on the disk under the same path. -/
theorem Workspace.Snapshot.of_held? (h : w.Snapshot d) (hheld : w.held? f = some ls) :
    ∃ g ∈ w.held.map Prod.fst, g.same f = true ∧ readLines d g = .ok ls := by
  obtain ⟨c, hc, rfl⟩ := Option.map_eq_some_iff.1 hheld
  have hmem := List.mem_of_find?_eq_some hc
  have hsame := List.find?_some (p := fun e : Path × List String => e.1.same f) hc
  exact ⟨c.1, List.mem_map_of_mem hmem, hsame, h.held c hmem⟩

/-- The operation leaves a workspace behind that holds what is on the disk. -/
def Work.Copies (m : Work α) : Prop := ∀ d w, w.Snapshot d → (m.on w).2.Snapshot d

namespace Work.Copies

theorem pure (a : α) : Work.Copies (Pure.pure a) := fun _ _ h => h

theorem bind {m : Work α} {k : α → Work β} (hm : m.Copies) (hk : ∀ a, (k a).Copies) :
    (m >>= k).Copies := by
  intro d w hw
  have hleft := hm d w hw
  rw [on_bind]
  rcases hon : m.on w with ⟨e | a, w'⟩
  · rwa [hon] at hleft
  · rw [hon] at hleft
    exact hk a d w' hleft

theorem mapM {k : α → Work β} (hk : ∀ a, (k a).Copies) (xs : List α) : (xs.mapM k).Copies := by
  induction xs with
  | nil => exact pure []
  | cons x xs ih =>
      rw [List.mapM_cons]
      exact (hk x).bind fun b => ih.bind fun bs => pure (b :: bs)

end Work.Copies

theorem copies_heldLines (f : Path) : (heldLines f).Copies := by
  intro d w hw
  cases hheld : w.held? f with
  | some ls =>
      rw [heldLines_of_held? hheld]
      exact hw
  | none =>
      rw [heldLines_of_none hheld]
      cases hread : readLines w.disk f with
      | error e => exact hw
      | ok ls => exact hw.holdLines (hw.disk ▸ hread)

end Files

namespace Cvar

open Files Cpp

variable {grammar : Compile.Grammar} {d disk : Disk} {cfg : Settings} {ignore : List String}
  {asked : Request} {a : Analysis}

/-! ### Analyses -/

theorem blind_finish (cfg : Settings) (textScan : Bool) (sources : List Path) (l : Ledger) :
    (finish cfg textScan sources l).Blind := by
  rw [finish]
  split
  · refine Work.Blind.bind ?_ fun _ => .pure _
    exact Work.Blind.bind (.mapM (fun f => (blind_heldLines f).bind fun _ => .pure _) _) fun _ => .pure _
  · exact .pure _

theorem copies_finish (cfg : Settings) (textScan : Bool) (sources : List Path) (l : Ledger) :
    (finish cfg textScan sources l).Copies := by
  rw [finish]
  split
  · refine Work.Copies.bind ?_ fun _ => .pure _
    exact Work.Copies.bind (.mapM (fun f => (copies_heldLines f).bind fun _ => .pure _) _) fun _ => .pure _
  · exact .pure _

theorem rereading_holdSources (w : Workspace) (b : Bool) (files : List Source) :
    (holdSources w files).rereading b = holdSources (w.rereading b) files := by
  induction files generalizing w with
  | nil => rfl
  | cons f files ih =>
      have hhold : (w.hold f.path f.text).rereading b = (w.rereading b).hold f.path f.text :=
        w.rereading_holdLines b _ _
      have hrest := ih (w.hold f.path f.text)
      rwa [hhold] at hrest

/-- **What patches compare with is no matter to an analysis.** -/
theorem analyze_rereads (h : analyze grammar d cfg ignore asked = .ok a) (b : Bool) :
    analyze grammar d cfg ignore { asked with rereads := b } =
      .ok { a with workspace := a.workspace.rereading b } := by
  obtain ⟨db, sources, files, hdb, hsources, hfiles, h⟩ := analyze_ok_iff.1 h
  obtain ⟨findings, hwalk, hfinish, hselected⟩ := analyzeFiles_ok h
  refine analyze_ok_iff.2 ⟨db, sources, files, hdb, hsources, hfiles, Outcome.bind_ok.2 ⟨findings, hwalk, ?_⟩⟩
  have hblind := blind_finish cfg asked.textScan sources (ledgerOf findings)
    (holdSources (.ofDisk d asked.rereads) files) b
  rw [hfinish, rereading_holdSources] at hblind
  have hrun : (finish cfg asked.textScan sources (ledgerOf findings)).on
      (holdSources (.ofDisk d b) files) = (.ok a.ledger, a.workspace.rereading b) := hblind
  dsimp only
  rw [hrun, ← hselected]
  rfl

/-- What is held of parsed files is on the disk that they were read from. -/
theorem snapshot_holdSources {w : Workspace} (hw : w.Snapshot d) {files : List Source}
    (h : ∀ f ∈ files, readLines d f.path = .ok (Text.lines f.text)) :
    (holdSources w files).Snapshot d :=
  List.foldlRecOn _ _ hw fun _ hw f hf => hw.holdLines (h f hf)

theorem readLines_of_readSource {p : Path} {text : String} (h : Compile.readSource d p = .ok text) :
    readLines d p = .ok (Text.lines text) := by
  rw [Compile.readSource] at h
  rw [readLines]
  split at h
  · cases h
    simp [*]
  · cases h

/-- What an analysis holds is what is on its disk. -/
theorem snapshot_of_analyze (h : analyze grammar d cfg ignore asked = .ok a) :
    a.workspace.Snapshot d := by
  obtain ⟨db, sources, files, -, -, hfiles, h⟩ := analyze_ok_iff.1 h
  obtain ⟨findings, -, hfinish, -⟩ := analyzeFiles_ok h
  have hempty : (Workspace.ofDisk d asked.rereads).Snapshot d := ⟨rfl, by simp [Workspace.ofDisk]⟩
  have hstart : (holdSources (.ofDisk d asked.rereads) files).Snapshot d :=
    snapshot_holdSources hempty fun f hf =>
      readLines_of_readSource (Compile.read_of_mem_parseProgram hfiles hf).1
  have hcopies := copies_finish cfg asked.textScan sources (ledgerOf findings) d _ hstart
  rwa [hfinish] at hcopies

/-! ### Files with mentions -/

/-- The files of an analysis: those that it searched or read. -/
def Analysis.files (a : Analysis) : List Path := a.sources ++ a.workspace.held.map Prod.fst

/-- Findings lie in the parsed files. -/
theorem exists_source_of_mem_walkAll {files : List Source} {findings : List Finding}
    (h : walkAll cfg files = .ok findings) {f : Finding} (hf : f ∈ findings) :
    ∃ source ∈ files, f.place.file = source.path := by
  obtain ⟨source, hsource, n, -, hfound⟩ := foundBy_of_mem_walkAll h hf
  obtain ⟨s, hreports⟩ := hfound.reports
  exact ⟨source, hsource, by cases hreports <;> rfl⟩

/-- All mentions of the cvar are in files with the property. -/
def Record.In (P : Path → Prop) (r : Record) : Prop := ∀ m ∈ r.mentions, P m.2.file

theorem Record.In.add {P : Path → Prop} {r : Record} (h : r.In P) {o : Occurrence} (ho : P o.file)
    (role : Role) : (r.add role o).In P := by
  intro m hm
  rcases Record.mem_mentions_of_add hm with hm | rfl
  · exact h m hm
  · exact ho

theorem kept_in (P : Path → Prop) : Ledger.Kept (Record.In P) (fun o => P o.file) fun _ => True where
  empty := by simp [Record.In]
  add ho _ _ h := h.add ho _
  note _ h := h
  noteBounds _ h := h
  write ho _ h := h.add ho .set

/-- The searched files have normal paths. -/
theorem normal_of_mem_allSources {compiled sources : List Path}
    (h : allSources d cfg compiled ignore = .ok sources) {f : Path} (hf : f ∈ sources) :
    ∃ s, f = Path.normalize s := by
  obtain ⟨walker, -, h⟩ := Outcome.bind_ok.1 h
  cases h
  let Normal (ps : List Path) : Prop := ∀ f ∈ ps, ∃ s, f = Path.normalize s
  have hnormal : ∀ found : List Path,
      Normal (found.foldl (fun ps p => insertPath (Path.normalize p.text) ps) []) := by
    intro found
    refine List.foldlRecOn _ _ (by simp [Normal]) fun ps hps p _ f hf => ?_
    rcases Data.mem_insertBy hf with rfl | hf
    · exact ⟨p.text, rfl⟩
    · exact hps f hf
  exact hnormal _ f hf

/-- A searched file can be read if the same path can. -/
theorem exists_readLines_of_source {compiled sources : List Path}
    (h : allSources d cfg compiled ignore = .ok sources) {f g : Path} (hf : f ∈ sources)
    (hsame : g.same f = true) {ls : List String} (hread : readLines d g = .ok ls) :
    ∃ ls', readLines d f = .ok ls' := by
  obtain ⟨s, rfl⟩ := normal_of_mem_allSources h hf
  rw [readLines] at hread
  split at hread
  · rename_i content hcontent
    exact ⟨_, by rw [readLines, Path.read?_normalize hsame hcontent]⟩
  · cases hread

/-- A file that is held is a file of the analysis. -/
theorem Analysis.isIn_files_of_held? (hw : a.workspace.Snapshot d) {f : Path} {ls : List String}
    (hf : a.workspace.held? f = some ls) : f.isIn a.files = true := by
  obtain ⟨g, hg, hsame, -⟩ := hw.of_held? hf
  refine List.any_eq_true.2 ⟨g, List.mem_append_right _ hg, ?_⟩
  rwa [Path.same_comm]

/-- **Files with mentions are files of the analysis, and can be read.** -/
theorem read_of_mention (h : analyze grammar d cfg ignore asked = .ok a) {s : String × Record}
    (hs : s ∈ a.ledger.symbols) {m : Mention} (hm : m ∈ s.2.mentions) :
    m.2.file.isIn a.files = true ∧ ∃ ls, readLines d m.2.file = .ok ls := by
  have hsnapshot := snapshot_of_analyze h
  obtain ⟨db, sources, files, -, hsources, hfiles, h⟩ := analyze_ok_iff.1 h
  obtain ⟨findings, texts, hwalk, hledger, hall, htexts, hheld⟩ :=
    finishedLedger_of_analyzeFiles (distinct_parseProgram hfiles) h
  let P (f : Path) : Prop := f.isIn a.files = true ∧ ∃ ls, readLines d f = .ok ls
  have hparsed : ∀ f ∈ findings, P f.place.file := by
    intro f hf
    obtain ⟨source, hsource, hplace⟩ := exists_source_of_mem_walkAll hwalk hf
    rw [hplace]
    exact ⟨Analysis.isIn_files_of_held? hsnapshot (hheld source hsource), _,
      readLines_of_readSource (Compile.read_of_mem_parseProgram hfiles hsource).1⟩
  have htext : ∀ t ∈ texts, P t.1 := by
    intro t ht
    have hsource : t.1 ∈ sources := by
      have hmem := List.mem_map_of_mem (f := Prod.fst) ht
      rw [hall] at hmem
      split at hmem
      · exact hmem
      · cases hmem
    obtain ⟨g, -, hsame, hread⟩ := hsnapshot.of_held? (htexts t ht)
    exact ⟨Analysis.isIn_files_of_held? hsnapshot (htexts t ht),
      exists_readLines_of_source hsources hsource hsame hread⟩
  have hscanned : ∀ s ∈ ((ledgerOf findings).scanTexts cfg.textDedup texts).symbols, s.2.In P := by
    refine Ledger.forall_scanTexts (kept_in P).empty ((kept_in P).ledgerOf hparsed fun _ _ => ⟨⟩) ?_
    intro hit hhit r hr
    obtain ⟨t, ht, hplace⟩ := Ledger.exists_of_mem_hits hhit
    exact hr.add (hplace ▸ htext t ht) .text
  rw [hledger, finishedLedger] at hs
  obtain ⟨s', hs', rfl⟩ := List.mem_map.1 hs
  exact hscanned s' hs' m (Record.mem_mentions_of_scrub hm)

/-! ### Files that stay as they are -/

/-- On a disk the files of the analysis are what they were on another one. -/
def Analysis.Unchanged (a : Analysis) (d disk : Disk) : Prop :=
  ∀ f : Path, f.isIn a.files = true → disk.read? f = d.read? f

theorem Analysis.Unchanged.readLines (h : a.Unchanged d disk) {f : Path} (hf : f.isIn a.files = true) :
    readLines disk f = Files.readLines d f := by
  rw [Files.readLines, Files.readLines, h f hf]

/-- Where the files stay as they are, files with mentions are readable. -/
theorem readable_of_unchanged (h : analyze grammar d cfg ignore asked = .ok a)
    (hdisk : a.Unchanged d disk) {s : String × Record} (hs : s ∈ a.ledger.symbols) :
    s.2.Readable (.ofDisk disk true) := by
  intro m hm
  obtain ⟨hin, ls, hread⟩ := read_of_mention h hs hm
  refine ⟨ls, ?_⟩
  rw [Workspace.on_currentLines]
  exact (hdisk.readLines hin).trans hread

/-- Where the files stay as they are, what is held shows them as the disk does, whatever patches compare
with. -/
theorem agrees_of_unchanged (h : analyze grammar d cfg ignore asked = .ok a)
    (hdisk : a.Unchanged d disk) (b : Bool) :
    (Workspace.ofDisk disk true).Agrees ⟨disk, a.workspace.held, b⟩ := by
  have hseen : ∀ f ls, readLines disk f = .ok ls →
      Workspace.seen ⟨disk, a.workspace.held, b⟩ f = .ok ls := by
    intro f ls hread
    cases hheld : Workspace.held? ⟨disk, a.workspace.held, b⟩ f with
    | none => rwa [Workspace.seen_of_none hheld]
    | some ls' =>
        obtain ⟨g, hg, hsame, hread'⟩ := (snapshot_of_analyze h).of_held? hheld
        have hin : g.isIn a.files = true := Path.isIn_of_mem (List.mem_append_right _ hg)
        rw [← hdisk.readLines hin] at hread'
        rw [Workspace.seen_of_held? hheld, readLines_congr hsame hread' hread]
  refine ⟨hseen, fun f ls hread => ?_⟩
  rw [Workspace.on_currentLines] at hread ⊢
  cases b with
  | true => exact hread
  | false => exact hseen f ls hread

end Cvar

end Upkeep
