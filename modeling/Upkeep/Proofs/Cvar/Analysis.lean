/-
**What an analysis works on.**

The texts that an analysis searches are those of the parsed files, where a file was parsed, and they
stay held for everything that comes after it.

Main definitions:

* `Upkeep.Cvar.Distinct` — files that do not come twice.

Main results:

* `Upkeep.Cvar.distinct_parseProgram` — the files of a program do not come twice;
* `Upkeep.Cvar.held?_holdSources` — the texts of parsed files are held;
* `Upkeep.Cvar.finish_texts` — the finished ledger is that of the held texts;
* `Upkeep.Cvar.analyze_ok_iff`, `Upkeep.Cvar.analyzeFiles_ok` — the steps of an analysis;
* `Upkeep.Cvar.Ledger.Kept.of_analyzeFiles` — what all records of an analysis have in common;
* `Upkeep.Cvar.finishedLedger_of_analyzeFiles` — what an analysis finds and searches.
-/

import Upkeep.Cvar.Analysis
import Upkeep.Proofs.Compile.Closure
import Upkeep.Proofs.Cvar.TextScan
import Upkeep.Proofs.Cvar.Walk
import Upkeep.Proofs.Files.Workspace

set_option relaxedAutoImplicit false
set_option autoImplicit false

namespace Upkeep

namespace Cvar

open Files Cpp

variable {w w' : Workspace}

/-! ### Parsed files -/

/-- No file comes twice. -/
def Distinct (files : List Source) : Prop :=
  files.Pairwise fun f g => f.path.same g.path = false

/-- The files of a program do not come twice. -/
theorem distinct_parseProgram {grammar : Compile.Grammar} {d : Disk} {known : List Path}
    {units : List Compile.CompilationUnit} {files : List Source}
    (h : Compile.parseProgram grammar d known units = .ok files) : Distinct files := by
  obtain ⟨closures, -, hpaths⟩ := Compile.exists_closures_of_parseProgram h
  rw [Distinct, ← List.pairwise_map (f := Source.path) (R := fun p q => p.same q = false), hpaths]
  exact Compile.distinct_firsts _

/-- The text of a parsed file is held. -/
theorem held?_holdSources {files : List Source} (hd : Distinct files)
    (hw : ∀ f ∈ files, w.held? f.path = none) {f : Source} (hf : f ∈ files) :
    (holdSources w files).held? f.path = some (Text.lines f.text) := by
  have hkeep : ∀ (files : List Source) (w : Workspace) (p : Path) (ls : List String),
      w.held? p = some ls → (holdSources w files).held? p = some ls := by
    intro files
    induction files with
    | nil => exact fun w p ls h => h
    | cons g files ih =>
        intro w p ls h
        exact ih _ p ls ((w.extends_holdLines _ _).held p ls h)
  induction files generalizing w with
  | nil => simp at hf
  | cons g files ih =>
      obtain ⟨hg, hd⟩ := List.pairwise_cons.1 hd
      rcases List.mem_cons.1 hf with rfl | hf
      · exact hkeep files _ _ _ (Workspace.held?_holdLines (hw f List.mem_cons_self) _)
      · refine ih hd ?_ hf
        intro f' hf'
        have hother : (w.hold g.path g.text).held? f'.path = w.held? f'.path :=
          Workspace.held?_holdLines_of_not_same (hg f' hf') _
        exact hother.trans (hw f' (List.mem_cons_of_mem _ hf'))

/-! ### Searched texts -/

/-- The texts that are searched are held from then on. -/
theorem heldTexts_ok {files : List Path} {texts : List (Path × List String)}
    (h : Work.on (files.mapM fun f => do return (f, ← heldLines f)) w = (.ok texts, w')) :
    w.Extends w' ∧ texts.map Prod.fst = files ∧ ∀ t ∈ texts, w'.held? t.1 = some t.2 := by
  induction files generalizing w texts with
  | nil =>
      cases h
      exact ⟨.refl _, rfl, by simp⟩
  | cons f files ih =>
      rw [List.mapM_cons, on_bind_ok] at h
      obtain ⟨t, w₁, ht, h⟩ := h
      obtain ⟨ls, w₂, hls, ht⟩ := on_bind_ok.1 ht
      cases ht
      obtain ⟨texts', w₃, htexts, h⟩ := on_bind_ok.1 h
      cases h
      obtain ⟨hext, hheld⟩ := heldLines_ok hls
      obtain ⟨hext', hfiles, htexts⟩ := ih htexts
      refine ⟨hext.trans hext', by rw [List.map_cons, hfiles], ?_⟩
      intro t ht
      rcases List.mem_cons.1 ht with rfl | ht
      · exact hext'.held f ls hheld
      · exact htexts t ht

/-- The finished ledger is that of the held texts. -/
theorem finish_texts {cfg : Settings} {sources : List Path} {l l' : Ledger}
    (h : (finish cfg true sources l).on w = (.ok l', w')) :
    ∃ texts : List (Path × List String), l' = (l.scanTexts cfg.textDedup texts).scrub ∧
      w.Extends w' ∧ texts.map Prod.fst = sources ∧ ∀ t ∈ texts, w'.held? t.1 = some t.2 := by
  rw [finish, if_pos rfl, on_bind_ok] at h
  obtain ⟨found, w₁, hscan, h⟩ := h
  cases h
  rw [Ledger.textScan, on_bind_ok] at hscan
  obtain ⟨texts, w₂, htexts, h⟩ := hscan
  cases h
  exact ⟨texts, rfl, heldTexts_ok htexts⟩

/-- An analysis chooses the files to search, parses those of the program, and goes on with them. -/
theorem analyze_ok_iff {grammar : Compile.Grammar} {d : Disk} {cfg : Settings} {ignore : List String}
    {request : Request} {a : Analysis} :
    analyze grammar d cfg ignore request = .ok a ↔ ∃ db sources files,
      Compile.Database.ofDirectory d request.buildDir = .ok db ∧
      allSources d cfg ((db.units request.fileFilter cfg.excludePaths).map (·.source)) ignore = .ok sources ∧
      Compile.parseProgram grammar d sources (db.units request.fileFilter cfg.excludePaths) = .ok files ∧
      analyzeFiles d cfg request sources files = .ok a := by
  constructor
  · intro h
    obtain ⟨db, hdb, h⟩ := Outcome.bind_ok.1 h
    obtain ⟨sources, hsources, h⟩ := Outcome.bind_ok.1 h
    obtain ⟨files, hfiles, h⟩ := Outcome.bind_ok.1 h
    exact ⟨db, sources, files, hdb, hsources, hfiles, h⟩
  · rintro ⟨db, sources, files, hdb, hsources, hfiles, h⟩
    exact Outcome.bind_ok.2 ⟨db, hdb, Outcome.bind_ok.2 ⟨sources, hsources,
      Outcome.bind_ok.2 ⟨files, hfiles, h⟩⟩⟩

/-- An analysis walks the parsed files and finishes the ledger of what it found. -/
theorem analyzeFiles_ok {d : Disk} {cfg : Settings} {request : Request} {sources : List Path}
    {files : List Source} {a : Analysis} (h : analyzeFiles d cfg request sources files = .ok a) :
    ∃ findings, walkAll cfg files = .ok findings ∧
      (finish cfg request.textScan sources (ledgerOf findings)).on
        (holdSources (.ofDisk d request.rereads) files) = (.ok a.ledger, a.workspace) ∧
      a.sources = sources := by
  obtain ⟨findings, hwalk, h⟩ := Outcome.bind_ok.1 h
  obtain ⟨l, hl, h⟩ := Outcome.bind_ok.1 h
  cases h
  exact ⟨findings, hwalk, Prod.ext hl rfl, rfl⟩

/-- What an analysis finds and searches: its ledger is that of the findings and of the held texts of all
sources, or of no texts if these are not wanted, and the texts of the parsed files are among the held
ones. -/
theorem finishedLedger_of_analyzeFiles {d : Disk} {cfg : Settings} {request : Request}
    {sources : List Path} {files : List Source} {a : Analysis} (hd : Distinct files)
    (h : analyzeFiles d cfg request sources files = .ok a) :
    ∃ findings texts, walkAll cfg files = .ok findings ∧
      a.ledger = finishedLedger findings cfg.textDedup texts ∧
      texts.map Prod.fst = (if request.textScan then sources else []) ∧
      (∀ t ∈ texts, a.workspace.held? t.1 = some t.2) ∧
      ∀ f ∈ files, a.workspace.held? f.path = some (Text.lines f.text) := by
  obtain ⟨findings, hwalk, hfinish, -⟩ := analyzeFiles_ok h
  have hheld := fun f (hf : f ∈ files) => held?_holdSources (w := .ofDisk d request.rereads) hd
    (by simp [Workspace.ofDisk, Workspace.held?]) hf
  cases hscan : request.textScan with
  | true =>
      rw [hscan] at hfinish
      obtain ⟨texts, hledger, hext, hsources, htexts⟩ := finish_texts hfinish
      exact ⟨findings, texts, hwalk, hledger, hsources, htexts,
        fun f hf => hext.held _ _ (hheld f hf)⟩
  | false =>
      rw [hscan] at hfinish
      obtain ⟨hledger, hworkspace⟩ := Prod.mk.inj hfinish
      refine ⟨findings, [], hwalk, (Except.ok.inj hledger).symm, rfl, by simp, ?_⟩
      rw [← hworkspace]
      exact hheld

/-- What an analysis with a search in texts finds and searches: its ledger is that of the findings and
of the held texts of all sources, and the texts of the parsed files are among the held ones. -/
theorem ledger_of_analyzeFiles {d : Disk} {cfg : Settings} {request : Request}
    {sources : List Path} {files : List Source} {a : Analysis} (hscan : request.textScan = true)
    (hd : Distinct files) (h : analyzeFiles d cfg request sources files = .ok a) :
    ∃ findings texts, walkAll cfg files = .ok findings ∧
      a.ledger = finishedLedger findings cfg.textDedup texts ∧ texts.map Prod.fst = sources ∧
      (∀ t ∈ texts, a.workspace.held? t.1 = some t.2) ∧
      ∀ f ∈ files, a.workspace.held? f.path = some (Text.lines f.text) := by
  have hall := finishedLedger_of_analyzeFiles hd h
  rwa [hscan] at hall

/-- What recording and the attaching of writes keep, and the search in texts and the clearing of table
lines as well, holds of all records of an analysis. -/
theorem Ledger.Kept.of_analyzeFiles {P : Record → Prop} {R : Occurrence → Prop} {Q : WriteSite → Prop}
    (hP : Kept P R Q)
    {d : Disk} {cfg : Settings} {request : Request} {sources : List Path} {files : List Source}
    {a : Analysis} (htext : ∀ {r : Record} {o : Occurrence}, o.file ∈ sources → P r → P (r.add .text o))
    (hscrub : ∀ {r : Record}, P r → P r.scrub)
    (hplaces : ∀ findings, walkAll cfg files = .ok findings → ∀ f ∈ findings, R f.place)
    (hsites : ∀ findings, walkAll cfg files = .ok findings →
      ∀ w ∈ (Ledger.empty.recordAll findings).pending, Q w.site)
    (h : analyzeFiles d cfg request sources files = .ok a) : ∀ s ∈ a.ledger.symbols, P s.2 := by
  obtain ⟨findings, hwalk, hfinish, -⟩ := analyzeFiles_ok h
  have hledger := hP.ledgerOf (hplaces findings hwalk) (hsites findings hwalk)
  have hcleared : ∀ l : Ledger, (∀ s ∈ l.symbols, P s.2) → ∀ s ∈ l.scrub.symbols, P s.2 := by
    intro l hl s hs
    obtain ⟨s₀, hs₀, rfl⟩ := List.mem_map.1 hs
    exact hscrub (hl s₀ hs₀)
  cases htextScan : request.textScan with
  | false =>
      rw [htextScan] at hfinish
      rw [← Except.ok.inj (Prod.mk.inj hfinish).1]
      exact hcleared _ hledger
  | true =>
      rw [htextScan] at hfinish
      obtain ⟨texts, hl, -, htexts, -⟩ := finish_texts hfinish
      rw [hl]
      refine hcleared _ (Ledger.forall_scanTexts hP.empty hledger fun hit hhit r hr => htext ?_ hr)
      obtain ⟨t, ht, hfile⟩ := Ledger.exists_of_mem_hits hhit
      rw [hfile, ← htexts]
      exact List.mem_map_of_mem ht

/-! ### Sources at work -/

/-- The row of a node with a meaning of its own. -/
def partRow (depth : Nat) (kind : String) (field : Option String) (start stop : Nat) : Row :=
  ⟨depth, kind, field, true, false, false, false, start, stop⟩

/-- The row of a mark. -/
def markRow (depth : Nat) (mark : String) (start : Nat) : Row :=
  ⟨depth, mark, none, false, false, false, false, start, start + mark.utf8ByteSize⟩

/-- The rows of `vmCvar_t x;` from byte `i` on, for a name of `n` bytes. -/
def definitionRows (i n : Nat) : List Row :=
  [partRow 1 "declaration" none i (i + n + 10), partRow 2 "type_identifier" (some "type") i (i + 8),
    partRow 2 "identifier" (some "declarator") (i + 9) (i + 9 + n), markRow 2 ";" (i + 9 + n)]

/-- The rows of `int y = x;`. -/
def useRows (i n : Nat) : List Row :=
  [partRow 1 "declaration" none i (i + n + 9), partRow 2 "primitive_type" (some "type") i (i + 3),
    partRow 2 "init_declarator" (some "declarator") (i + 4) (i + 8 + n),
    partRow 3 "identifier" (some "declarator") (i + 4) (i + 5), markRow 3 "=" (i + 6),
    partRow 3 "identifier" (some "value") (i + 8) (i + 8 + n), markRow 2 ";" (i + 8 + n)]

/-- A source with the tree of the given rows under a root. -/
def sourceOf (text : String) (rows : List Row) : Source :=
  ⟨⟨"a.cpp"⟩, text,
    (Node.ofRows? text (partRow 0 "translation_unit" none 0 text.utf8ByteSize :: rows)).getD default⟩

/-- What is asked of an analysis that searches texts. -/
def searching : Request := ⟨⟨"build"⟩, "", true, false⟩

end Cvar

end Upkeep
