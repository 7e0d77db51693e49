/-
**Which migrations are read back.**

The patch of a migration is read back from its text if no source text that it copies goes over several
lines, and its headers count right.  A definition with a default value of two lines is put into one line
of the working copy, and what comes behind the line feed spoils the diff.

Main definitions:

* `Upkeep.Cpp.Node.Covers` — trees whose nodes hold the texts of their children.

Main results:

* `Upkeep.Cvar.Migration.lined_of_define` — a definition that is shown;
* `Upkeep.Cvar.sitesLined_of_analyzeFiles` — values of one line in calls of one line;
* `Upkeep.Cvar.Migration.text_reads_back_iff` — **which migrations are read back**.
-/

import Upkeep.Proofs.Cpp.Spots
import Upkeep.Proofs.Cvar.MigrationLines
import Upkeep.Proofs.Cvar.Uses
import Upkeep.Proofs.Cvar.Writes

set_option relaxedAutoImplicit false
set_option autoImplicit false

namespace Upkeep

/-! ### Covering trees -/

namespace Cpp.Node

/-- Every node holds the texts of its children. -/
def Covers (t : Node) : Prop := ∀ n ∈ t.nodes, ∀ c ∈ n.children, c.text.toList <:+: n.text.toList

instance (t : Node) : Decidable t.Covers :=
  inferInstanceAs (Decidable (∀ n ∈ t.nodes, ∀ c ∈ n.children, c.text.toList <:+: n.text.toList))

end Cpp.Node

namespace Cvar

open Files Diff

namespace Migration

variable {m : Migration} {cfg : Settings} {plan : LinePlan} {line : String} {p : Patch} {w w' : Workspace}

/-! ### Definitions -/

/-- What comes for the line is the definition, or a mark and the definition. -/
theorem exists_mem_outcome_of_define (m : Migration) (cfg : Settings) (line : String)
    {ms : List Mention} {o : Occurrence} (hms : ms.Pairwise fun a b => a.1 = .define → b.1 ≠ .decl)
    (ho : (.define, o) ∈ ms) :
    ∃ shown ∈ m.outcome cfg ms line, Text.isBlankLine shown = false ∧ (OneLine shown → m.Lined) := by
  have hwhole : (m.planOf line ms).whole = some (m.definedAs line) := by
    rw [m.planOf_whole line hms, wholeOf?, if_pos (List.any_eq_true.2 ⟨_, ho, rfl⟩)]
  have hparen : '(' ∈ (m.definedAs line).toList := by
    simp only [definedAs, definition, String.toList_append, List.mem_append]
    exact .inl (.inl (.inr (by decide)))
  have hlined : OneLine (m.definedAs line) → m.Lined := fun h => ((m.oneLine_definition_iff _ _).1 h).2
  rw [m.outcome_of_hides cfg line (List.any_eq_true.2 ⟨_, ho, rfl⟩), LinePlan.generated, hwhole]
  refine ⟨_, List.mem_cons_self, ?_⟩
  split
  · refine ⟨isBlankLine_of_mem (c := '(') ?_ (by decide), fun h => hlined (oneLine_append_iff.1 h).2⟩
    rw [String.toList_append]
    exact List.mem_append_right _ hparen
  · exact ⟨isBlankLine_of_mem hparen (by decide), hlined⟩

/-- A definition is shown in a file that is as it was first read, so the patch is made of lines only if
the definition is one. -/
theorem lined_of_define {context : Nat} {file : Path} {base : List String} {i : Nat} {o : Occurrence}
    (hrun : (m.patch cfg context).on w = (.ok p, w')) (hw' : w'.Lined) (hp : p.Lined)
    (hheld : w'.held? file = some base) (hcurrent : w'.Current file base) (hline : base[i]? = some line)
    (hblank : Text.isBlankLine line = false) (hordered : m.record.Ordered)
    (ho : (.define, o) ∈ m.record.mentionsAt (file, i + 1)) : m.Lined := by
  obtain ⟨shown, hshown, hnotBlank, hlined⟩ :=
    m.exists_mem_outcome_of_define cfg line (declared_first hordered _) ho
  have hrow : shown ∈ rowsOf (visible fun i line =>
      m.outcome cfg (m.record.mentionsAt (file, i + 1)) line) base :=
    mem_rowsOf hline (by rwa [visible_of_not_blank hblank])
  have hcount := (m.patch_shows hrun hheld hcurrent).least shown hnotBlank
  have hmem : shown ∈ (p.copy? file).getD base :=
    List.count_pos_iff.1 (Nat.lt_of_lt_of_le (List.count_pos_iff.2 hrow) hcount)
  apply hlined
  cases hcopy : p.copy? file with
  | none =>
      rw [hcopy] at hmem
      exact hw'.of_held? hheld shown hmem
  | some text =>
      rw [hcopy] at hmem
      obtain ⟨c, hc, rfl⟩ := Option.map_eq_some_iff.1 hcopy
      exact hp c (List.mem_of_find?_eq_some hc) shown hmem

end Migration

/-! ### Analyses -/

variable {d : Disk} {cfg : Settings} {request : Request} {sources : List Path} {files : List Cpp.Source}
  {a : Analysis}

/-- An argument of a call of one line is one line. -/
theorem oneLine_argumentText {t n : Cpp.Node} (ht : t.Covers) (hn : n ∈ t.nodes) (h : OneLine n.text)
    (i : Nat) : OneLine (argumentText (arguments n) i) := by
  rw [argumentText]
  cases hx : (arguments n)[i]? with
  | none => decide
  | some x =>
      have hx := List.mem_of_getElem? hx
      rw [arguments] at hx
      cases hlist : n.field? "arguments" with
      | none => simp [hlist] at hx
      | some list =>
          rw [hlist] at hx
          have hlist := Cpp.Node.mem_children_of_field? hlist
          have hinside := n.mem_nodes_of_mem_inside (Cpp.Node.mem_inside_of_mem_children hlist)
          have hargument := ht list (Cpp.Node.mem_nodes_trans t hn hinside) x
            (Cpp.Node.mem_children_of_mem_parts hx)
          exact h.of_subset (hargument.trans (ht n hn list hlist)).subset

theorem kept_sitesLined :
    Ledger.Kept Record.SitesLined (fun _ => True) fun site => OneLine site.call → OneLine site.value where
  empty := by simp [Record.SitesLined, Record.empty]
  add _ _ _ h := h
  note _ h := h
  noteBounds _ h := h
  write _ hsite h := Data.forall_mem_upsertBy h hsite fun _ _ _ _ => hsite

/-- In the records of an analysis of covering trees, calls of one line write values of one line. -/
theorem sitesLined_of_analyzeFiles (h : analyzeFiles d cfg request sources files = .ok a)
    (hcovers : ∀ f ∈ files, f.tree.Covers) : ∀ s ∈ a.ledger.symbols, s.2.SitesLined := by
  refine kept_sitesLined.of_analyzeFiles (fun _ h => h) (fun h e he => h e (List.mem_of_mem_filter he))
    (fun _ _ _ _ => ⟨⟩) ?_ h
  intro findings hwalk w hw hcall
  rw [Ledger.pending_recordAll] at hw
  obtain ⟨⟨shape, o⟩, hf, hwrite⟩ := List.mem_filterMap.1 hw
  cases shape with
  | setCall key value call =>
      cases hwrite
      obtain ⟨source, hsource, n, hn, hfound⟩ := foundBy_of_mem_walkAll hwalk hf
      obtain ⟨rfl, rfl⟩ := hfound.of_setCall
      exact oneLine_argumentText (hcovers source hsource) hn hcall 1
  | _ => cases hwrite

theorem lined_of_analyzeFiles (h : analyzeFiles d cfg request sources files = .ok a) :
    a.workspace.Lined := by
  have hsources : (holdSources (.ofDisk d request.rereads) files).Lined := by
    refine List.foldlRecOn (motive := Workspace.Lined) _ _ (Workspace.lined_ofDisk d request.rereads) ?_
    intro w hw f _
    exact hw.holdLines f.path fun s hs => oneLine_of_mem_lines hs
  have hfinish : ∀ l : Ledger, (finish cfg request.textScan sources l).KeepsLined fun _ => True := by
    intro l
    rw [finish]
    split
    · refine Work.KeepsLined.bind (P := fun _ => True) ?_ fun _ _ => .pure ⟨⟩
      refine Work.KeepsLined.bind (Work.KeepsLined.mapM (R := fun _ => True) (fun f => ?_) sources)
        fun _ _ => .pure ⟨⟩
      exact (keepsLined_heldLines f).bind fun _ _ => .pure ⟨⟩
    · exact .pure ⟨⟩
  obtain ⟨findings, -, hrun, -⟩ := analyzeFiles_ok h
  exact (hfinish _ _ _ _ hsources hrun).1

/-- **Which migrations are read back**: over readable files the text of a migration can be made.  It is
read back as the hunks of the patch if and only if its paths are lines, its headers count right, and its
working copies are made of lines.  The headers count right where the comparisons are scripts.  The copies
are made of lines if the name and the arguments of the definition are, and only then if a definition is
shown in a file that is as it was first read. -/
theorem Migration.text_reads_back_iff {name : String} {r : Record}
    (h : analyzeFiles d cfg request sources files = .ok a) (hget : a.ledger.get? name = some r)
    (type : ValueType) (description : String) (context : Nat) :
    let m : Migration := ⟨name, r, type, description⟩
    (r.Readable a.workspace → ∃ p w ps w', (m.patch cfg context).on a.workspace = (.ok p, w) ∧
      p.changes.on w = (.ok ps, w')) ∧
    ∀ p w ps w', (m.patch cfg context).on a.workspace = (.ok p, w) → p.changes.on w = (.ok ps, w') →
      (p.render .plain).on w = (.ok (Diff.render .plain ps), w') ∧
      (read? (Diff.render .plain ps) = some (ps.map FilePatch.plain) ↔
        (∀ f ∈ ps, OneLine f.path.text ∧ ∀ hunk ∈ f.hunks, hunk.Counted) ∧ p.Lined) ∧
      ((∀ c ∈ p.copies, ∀ now, w'.Current c.1 now → IsScript now c.2 (script now c.2)) →
        ∀ f ∈ ps, ∀ hunk ∈ f.hunks, hunk.Counted) ∧
      ((∀ f ∈ files, f.tree.Covers) → m.Lined → p.Lined) ∧
      ∀ file base i line o, w.held? file = some base → w.Current file base → base[i]? = some line →
        Text.isBlankLine line = false → (.define, o) ∈ r.mentionsAt (file, i + 1) →
          p.Lined → m.Lined := by
  intro m
  have hw := lined_of_analyzeFiles h
  have hmem : (name, r) ∈ a.ledger.symbols := Data.mem_of_lookupBy hget
  have hordered := ((Ledger.reachable_of_analyzeFiles h).inStep _ hmem).ordered
  constructor
  · intro hr
    obtain ⟨p, hp, hreadable⟩ := m.exists_yields_patch cfg context hr
    obtain ⟨ps, hps⟩ := hreadable.changes
    obtain ⟨w, hrun, hagrees⟩ := hp _ (.refl _)
    obtain ⟨w', hrun', -⟩ := hps w hagrees
    exact ⟨p, w, ps, w', hrun, hrun'⟩
  · intro p w ps w' hrun hchanges
    obtain ⟨hw₁, hp⟩ := keepsLined_patch m cfg context _ _ _ hw hrun
    refine ⟨?_, Patch.read?_changes_iff hw₁ hchanges, ?_, ?_, ?_⟩
    · exact on_bind_ok.2 ⟨ps, w', hchanges, rfl⟩
    · intro hscripts f hf hunk hhunk
      obtain ⟨c, hc, now, hpath, hnow, hhunks⟩ := Patch.exists_of_mem_changes hchanges hf
      exact counted_of_mem_hunks (hscripts c hc now (hpath ▸ hnow)) (hhunks ▸ hhunk)
    · intro hcovers hm
      exact hp p rfl ⟨hm, sitesLined_of_analyzeFiles h hcovers _ hmem⟩
    · intro file base i line o hheld hcurrent hline hblank ho hp
      exact lined_of_define hrun hw₁ hp hheld hcurrent hline hblank hordered ho

/-- A source that registers a cvar with a default value of two literals, and what is between them. -/
def registered (gap : String) : Cpp.Source :=
  sourceOf ("cvar_t *x = Cvar_Get(\"x\", \"a\"" ++ gap ++ "\"b\", 0);\n")
    [partRow 1 "declaration" none 0 38, partRow 2 "type_identifier" (some "type") 0 6,
      partRow 2 "init_declarator" (some "declarator") 7 37,
      partRow 3 "pointer_declarator" (some "declarator") 7 9, markRow 4 "*" 7,
      partRow 4 "identifier" (some "declarator") 8 9, markRow 3 "=" 10,
      partRow 3 "call_expression" (some "value") 12 37,
      partRow 4 "identifier" (some "function") 12 20,
      partRow 4 "argument_list" (some "arguments") 20 37, markRow 5 "(" 20,
      partRow 5 "string_literal" none 21 24, markRow 5 "," 24,
      partRow 5 "concatenated_string" none 26 33, partRow 6 "string_literal" none 26 29,
      partRow 6 "string_literal" none 30 33, markRow 5 "," 33,
      partRow 5 "number_literal" none 35 36, markRow 5 ")" 36, markRow 2 ";" 37]

/-- The record of the cvar. -/
def registeredRecord (gap : String) : Record :=
  ⟨[(.define, [⟨⟨"a.cpp"⟩, 1, 9⟩]), (.get, [⟨⟨"a.cpp"⟩, 1, 13⟩])], ["x"], ["0"], [],
    ["\"a\"" ++ gap ++ "\"b\""], []⟩

/-- The change that migrates the cvar where its default value is one line. -/
def registeredChanges : PatchSet :=
  [⟨⟨"a.cpp"⟩, [⟨⟨1, 1⟩, ⟨1, 1⟩, [.removed "cvar_t *x = Cvar_Get(\"x\", \"a\" \"b\", 0);",
    .added "Cvar::Cvar<std::string> x(\"x\", \"\", Cvar::NONE, \"a\" \"b\");"]⟩]⟩]

theorem text_reads_back_iff_registered :
    ∃ a, analyzeFiles ⟨[], []⟩ {} searching [⟨"a.cpp"⟩] [registered " "] = .ok a ∧
      a.ledger.get? "x" = some (registeredRecord " ") ∧
      ∃ p w ps w', (Migration.patch ⟨"x", registeredRecord " ", .string, ""⟩ {} 3).on a.workspace =
          (.ok p, w) ∧
        p.changes.on w = (.ok ps, w') ∧ read? (Diff.render .plain ps) = some (ps.map FilePatch.plain) := by
  let m : Migration := ⟨"x", registeredRecord " ", .string, ""⟩
  have hcomputed : (analyzeFiles ⟨[], []⟩ {} searching [⟨"a.cpp"⟩]
      [registered " "]).toOption.map (fun a =>
        (a.ledger.get? "x", ((currentLines ⟨"a.cpp"⟩).on a.workspace).1.toOption.isSome,
          ((m.patch {} 3 >>= Patch.changes).on a.workspace).1.toOption)) =
      some (some (registeredRecord " "), true, some registeredChanges) := by decide +kernel
  obtain ⟨a, ha, hcomputed⟩ := Option.map_eq_some_iff.1 hcomputed
  have ha := ok_of_toOption ha
  obtain ⟨hget, hcomputed⟩ := Prod.mk.inj hcomputed
  obtain ⟨hlines, hchanged⟩ := Prod.mk.inj hcomputed
  obtain ⟨hmade, hread⟩ := Migration.text_reads_back_iff ha hget .string "" 3
  have hreadable : (registeredRecord " ").Readable a.workspace := by
    obtain ⟨ls, hls⟩ := Option.isSome_iff_exists.1 hlines
    have hfile : a.workspace.Readable ⟨"a.cpp"⟩ := ⟨ls, ok_of_toOption hls⟩
    simpa [Record.Readable, Record.mentions, registeredRecord] using hfile
  obtain ⟨p, w, ps, w', hrun, hchanges⟩ := hmade hreadable
  obtain ⟨-, hiff, -, hlined, -⟩ := hread p w ps w' hrun hchanges
  refine ⟨a, ha, hget, p, w, ps, w', hrun, hchanges, hiff.2 ⟨?_, ?_⟩⟩
  · have hboth : (m.patch {} 3 >>= Patch.changes).on a.workspace = (.ok ps, w') :=
      on_bind_ok.2 ⟨p, w, hrun, hchanges⟩
    rw [hboth] at hchanged
    obtain rfl : ps = registeredChanges := Option.some.inj hchanged
    decide
  · refine hlined (by decide +kernel) (Migration.lined_of_oneLine ?_ ?_ ?_ ?_ ?_ ?_)
    all_goals decide

/-- The text of the migration where the default value is two lines. -/
def splitText : String :=
  "--- a.cpp\n+++ a.cpp\n@@ -1,2 +1,2 @@\n-cvar_t *x = Cvar_Get(\"x\", \"a\"\n" ++
    "+Cvar::Cvar<std::string> x(\"x\", \"\", Cvar::NONE, \"a\"\n\"b\");\n \"b\", 0);\n"

/-- A default value of two lines is put into one entry of the working copy.  The header counts the entry
as one line, and its second line has no sign in front, so nothing is read back. -/
theorem split_default_not_read :
    ∃ a w', analyzeFiles ⟨[], []⟩ {} searching [⟨"a.cpp"⟩] [registered "\n"] = .ok a ∧
      a.ledger.get? "x" = some (registeredRecord "\n") ∧
      Work.on (do (← Migration.patch ⟨"x", registeredRecord "\n", .string, ""⟩ {} 3).render .plain)
        a.workspace = (.ok splitText, w') ∧
      read? splitText = none := by
  have hcomputed : (analyzeFiles ⟨[], []⟩ {} searching [⟨"a.cpp"⟩]
      [registered "\n"]).toOption.map (fun a => (a.ledger.get? "x", (Work.on (do
          (← Migration.patch ⟨"x", registeredRecord "\n", .string, ""⟩ {} 3).render .plain)
          a.workspace).1.toOption)) =
      some (some (registeredRecord "\n"), some splitText) := by decide +kernel
  obtain ⟨a, ha, hcomputed⟩ := Option.map_eq_some_iff.1 hcomputed
  obtain ⟨hget, htext⟩ := Prod.mk.inj hcomputed
  obtain ⟨w', hrun⟩ := exists_on_of_toOption htext
  exact ⟨a, w', ok_of_toOption ha, hget, hrun, by decide +kernel⟩

end Cvar

end Upkeep
