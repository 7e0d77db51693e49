/-
**The lines that a migration generates.**

A line with a definition becomes the new definition, any other line with a declaration the new
declaration, and a registration of a latching cvar the call that latches it, behind the definition or the
declaration if there is one.  Nothing else is generated.  In a file that is as it was first read every
generated line is there, whatever else is on its line, and also where several lines have one text.

The lines are found by their texts, so a targeted line that reads like a generated one can make its edit
take the generated line.  As long as there is none, the lines that are generated for one line stay
together.

Main definitions:

* `Upkeep.Cvar.Migration.leave` — a text behind a mark where work is left;
* `Upkeep.Cvar.Record.OnLines` — records whose mentions stand on lines of a file that are not blank.

Main results:

* `Upkeep.Cvar.neighbours_editAll` — lines that came for one line stay together;
* `Upkeep.Cvar.Migration.outcome_of_whole`, `Upkeep.Cvar.Migration.outcome_of_latch`,
  `Upkeep.Cvar.Migration.outcome_of_neither` — what comes for a line;
* `Upkeep.Cvar.Migration.patch_generates` — **the lines that a migration generates**.
-/

import Upkeep.Proofs.Cvar.Uses
import Upkeep.Proofs.Patch.Stretch

set_option relaxedAutoImplicit false
set_option autoImplicit false

namespace Upkeep

namespace Cvar

open Files

variable {p : Patch} {w w' : Workspace} {file : Path} {done : List (LineKey × LineEdit)}
  {ls base : List String} {upper lower : String}

/-! ### Lines that stay together -/

/-- What becomes of the lines when one more of them is edited. -/
theorem mapIdx_becomes_append {k : LineKey} {e : LineEdit} {i : Nat} {target : String}
    (hfresh : Data.lookupBy LineKey.order k done = none) (hk : LineKey.order (file, i + 1) k = .eq)
    (hat : ls[i]? = some target) :
    ls.mapIdx (becomes (done ++ [(k, e)]) file) =
      (ls.mapIdx (becomes done file)).set i (e.rows target) := by
  apply List.ext_getElem?
  intro i'
  rw [List.getElem?_set, List.getElem?_mapIdx, List.getElem?_mapIdx, List.length_mapIdx]
  by_cases hi : i = i'
  · obtain ⟨hlt, -⟩ := List.getElem?_eq_some_iff.1 hat
    rw [if_pos hi, if_pos hlt, ← hi, hat, Option.map_some, becomes_append hfresh, if_pos hk]
  · rw [if_neg hi]
    congr 1
    funext line
    rw [becomes_append hfresh, if_neg]
    intro hk'
    have hn := (LineKey.order_eq_iff.1 hk).2.trans (LineKey.order_eq_iff.1 hk').2.symm
    exact hi (Nat.succ.inj hn)

/-- Lines that came for one line of a file stay together, unless an edit of the file is aimed at a line
that reads like one of them. -/
theorem neighbours_editAll (hls : w.held? file = some ls) (hdone : Data.Increasing LineKey.order done)
    (hupper : Text.isBlankLine upper = false) (hlower : Text.isBlankLine lower = false)
    (haims : ∀ aim ∈ Patch.aimsAt w file done,
      Text.isBlankLine aim.2 = false ∧ aim.2 ≠ upper ∧ aim.2 ≠ lower) :
    (ls.mapIdx (becomes done file)).count [upper, lower] ≤
      neighbours upper lower (editAll (Patch.aimsAt w file done) ls) := by
  induction done using List.reverseRecOn with
  | nil =>
      have hnone : (ls.mapIdx (becomes [] file)).count [upper, lower] = 0 := by
        rw [List.count_eq_zero]
        intro hmem
        obtain ⟨i, hi, heq⟩ := List.mem_mapIdx.1 hmem
        cases heq
      rw [hnone]
      exact Nat.zero_le _
  | append_singleton done d ih =>
      obtain ⟨k, e⟩ := d
      obtain ⟨hdone, hfresh⟩ := increasing_concat hdone
      rw [Patch.aimsAt_append, List.forall_mem_append] at haims
      obtain ⟨haims, haim⟩ := haims
      have hbefore := ih hdone haims
      rw [Patch.aimsAt_append, editAll_append]
      rcases aimsAt_cases hls k e with ⟨hnone, hother⟩ | ⟨i, target, hk, hat, hsome⟩
      · have hsame : ls.mapIdx (becomes (done ++ [(k, e)]) file) = ls.mapIdx (becomes done file) :=
          mapIdx_become_congr fun i line hline => by
            rw [becomes_append hfresh, if_neg (hother i line hline)]
        rwa [hnone, editAll_nil, hsame]
      · rw [hsome] at haim ⊢
        obtain ⟨hblank, hneUpper, hneLower⟩ := haim _ (List.mem_singleton_self _)
        have huntouched : becomes done file i target = [target] :=
          becomes_of_none ((lookupBy_congr hk done).trans hfresh)
        have hmem := (shows_editAll hls hdone).mem_of_untouched hat huntouched hblank
        have hkept := e.neighbours_atFirst hmem hneUpper hneLower hupper hlower
        rw [mapIdx_becomes_append hfresh hk hat, editAll_cons, editAll_nil]
        have hlength : i < (ls.mapIdx (becomes done file)).length := by
          rw [List.length_mapIdx]
          exact (List.getElem?_eq_some_iff.1 hat).1
        rw [List.count_set hlength]
        -- One more pair came for the line at most, and if so the edit put it there.
        by_cases hrows : e.rows target = [upper, lower]
        · have hput : neighbours upper lower (e.rows target) = 1 := by
            rw [hrows, neighbours_cons_cons, neighbours_singleton, if_pos ⟨rfl, rfl⟩]
          rw [hput] at hkept
          simp only [hrows, beq_self_eq_true, if_true]
          omega
        · have hne : (e.rows target == [upper, lower]) = false := by simpa using hrows
          simp only [hne, Bool.false_eq_true, if_false]
          omega

/-! ### What is generated for a line -/

namespace Migration

variable {m : Migration} {cfg : Settings} {ms : List Mention} {line : String}

/-- A text behind a mark where a mention is left for manual work. -/
def leave (m : Migration) (ms : List Mention) (text : String) : String :=
  if ms.any m.marks then Diff.mark ++ text else text

/-- A line that was migrated, behind a mark where work is left. -/
def migrated (m : Migration) (cfg : Settings) (ms : List Mention) (line : String) : String :=
  if (m.migrateLine cfg (m.planOf line ms) line).2 || ms.any m.marks then
    Diff.mark ++ (m.migrateLine cfg (m.planOf line ms) line).1
  else (m.migrateLine cfg (m.planOf line ms) line).1

/-- A definition or a declaration comes for its line, and behind it the call that latches the cvar. -/
theorem outcome_of_whole (m : Migration) (cfg : Settings) {whole : String}
    (hms : ms.Pairwise fun a b => a.1 = .define → b.1 ≠ .decl) (h : m.wholeOf? line ms = some whole) :
    m.outcome cfg ms line = m.leave ms whole :: (m.latchOf? line ms).toList := by
  have hwhole := (m.planOf_whole line hms).trans h
  have hhides : ms.any m.hides = true := by
    rw [← m.planOf_replaces line, LinePlan.replaces, hwhole]
    rfl
  rw [m.outcome_of_hides cfg line hhides, LinePlan.generated, hwhole, m.planOf_latch, m.planOf_mark]
  rfl

/-- The call that latches the cvar comes for a line with a registration alone. -/
theorem outcome_of_latch (m : Migration) (cfg : Settings) {latch : String}
    (hms : ms.Pairwise fun a b => a.1 = .define → b.1 ≠ .decl) (hnone : m.wholeOf? line ms = none)
    (h : m.latchOf? line ms = some latch) : m.outcome cfg ms line = [m.leave ms latch] := by
  have hwhole := (m.planOf_whole line hms).trans hnone
  have hlatch := (m.planOf_latch line ms).trans h
  have hhides : ms.any m.hides = true := by
    rw [← m.planOf_replaces line, LinePlan.replaces, hwhole, hlatch]
    rfl
  rw [m.outcome_of_hides cfg line hhides, LinePlan.generated, hwhole, hlatch, m.planOf_mark]
  rfl

/-- Nothing is generated for any other line. -/
theorem outcome_of_neither (m : Migration) (cfg : Settings)
    (hms : ms.Pairwise fun a b => a.1 = .define → b.1 ≠ .decl) (hwhole : m.wholeOf? line ms = none)
    (hlatch : m.latchOf? line ms = none) :
    m.outcome cfg ms line = if ms.any m.hides then [] else [m.migrated cfg ms line] := by
  cases hhides : ms.any m.hides with
  | false => exact m.outcome_of_not_hides cfg line hhides
  | true =>
      rw [m.outcome_of_hides cfg line hhides, LinePlan.generated, m.planOf_whole line hms, hwhole,
        m.planOf_latch, hlatch]
      rfl

end Migration

/-! ### Files with generated lines -/

/-- All mentions of a cvar in a file stand on lines of the file that are not blank. -/
def Record.OnLines (r : Record) (file : Path) (base : List String) : Prop :=
  ∀ a ∈ r.mentions, a.2.file.same file = true →
    ∃ i line, a.2.line = i + 1 ∧ base[i]? = some line ∧ Text.isBlankLine line = false

theorem Record.onLines_iff {r : Record} : r.OnLines file base ↔
    ∀ a ∈ r.mentions, a.2.file.same file = true →
      a.2.line ≠ 0 ∧ (base[a.2.line - 1]?).any (fun line => !Text.isBlankLine line) = true := by
  refine forall₃_congr fun a _ _ => ?_
  constructor
  · rintro ⟨i, line, hi, hline, hblank⟩
    rw [hi, Nat.add_sub_cancel, hline, Option.any_some, hblank]
    exact ⟨Nat.succ_ne_zero i, rfl⟩
  · rintro ⟨hzero, hany⟩
    obtain ⟨line, hline, hblank⟩ := (Option.any_eq_true ..).1 hany
    exact ⟨a.2.line - 1, line, by omega, hline, by simpa using hblank⟩

instance (r : Record) (file : Path) (base : List String) : Decidable (r.OnLines file base) :=
  decidable_of_iff _ Record.onLines_iff.symm

/-- A line with a mention is not blank. -/
theorem Record.OnLines.exists_line {r : Record} (h : r.OnLines file base) {k : LineKey}
    (hfile : k.1.same file = true) (hk : r.mentionsAt k ≠ []) :
    ∃ i line, k.2 = i + 1 ∧ base[i]? = some line ∧ Text.isBlankLine line = false := by
  obtain ⟨a, ha⟩ := List.exists_mem_of_ne_nil _ hk
  obtain ⟨hmem, hstands⟩ := List.mem_filter.1 ha
  obtain ⟨hsame, hline⟩ := LineKey.order_eq_iff.1 (beq_iff_eq.1 hstands)
  rw [Path.same_comm] at hsame
  obtain ⟨i, line, hi, hat, hblank⟩ := h a hmem (Path.same_trans hsame hfile)
  exact ⟨i, line, hline.trans hi, hat, hblank⟩

/-- There is no mention on a blank line. -/
theorem Record.OnLines.mentionsAt_of_blank {r : Record} (h : r.OnLines file base) {i : Nat} {line : String}
    (hline : base[i]? = some line) (hblank : Text.isBlankLine line = true) :
    r.mentionsAt (file, i + 1) = [] := by
  by_contra hsome
  obtain ⟨i', line', hi, hline', hnot⟩ := h.exists_line (Path.same_self file) hsome
  obtain rfl := Nat.succ.inj hi
  rw [hline, Option.some.injEq] at hline'
  rw [← hline', hblank] at hnot
  cases hnot

/-- What the edits of a file are aimed at are lines with mentions. -/
theorem Record.OnLines.of_mem_aimsAt {r : Record} (h : r.OnLines file base)
    (hheld : w.held? file = some base) (hdone : ∀ d ∈ done, r.mentionsAt d.1 ≠ [])
    {aim : LineEdit × String} (haim : aim ∈ Patch.aimsAt w file done) :
    ∃ i, base[i]? = some aim.2 ∧ Text.isBlankLine aim.2 = false ∧ r.mentionsAt (file, i + 1) ≠ [] := by
  obtain ⟨⟨k, e⟩, hd, haim⟩ := List.mem_filterMap.1 haim
  obtain ⟨hfile, haim⟩ := Option.ite_none_right_eq_some.1 haim
  obtain ⟨target, hat, rfl⟩ := Option.map_eq_some_iff.1 haim
  have hk := hdone _ hd
  obtain ⟨i, line, hi, hline, hblank⟩ := h.exists_line hfile hk
  have heq : base[i]? = some target := by
    rw [← Workspace.lineAt?_succ hheld, ← lineAt?_congr w hfile, ← hi, hat]
  rw [hline, Option.some.injEq] at heq
  subst heq
  refine ⟨i, hline, hblank, ?_⟩
  have hsame : LineKey.order (file, i + 1) k = .eq :=
    LineKey.order_eq_iff.2 ⟨by rw [Path.same_comm, hfile], hi.symm⟩
  rw [Record.mentionsAt] at hk ⊢
  simpa only [Mention.standsAt, Std.TransCmp.congr_left hsame] using hk

namespace Migration

variable {m : Migration}

/-- **The lines that a migration generates**: over readable files the patch of a record with its roles in
order can be made.  Take a file that is as it was first read, with all mentions on lines that are not
blank.  Of the lines that are not blank it then has, as often, those that came for its lines; and lines
that came for one line stand together, unless a line with a mention reads like one of them.  For a line
with a definition comes the new definition, and for any other with a declaration the new declaration, each
followed by the call that latches the cvar if the line registers a latching cvar; for any other
registration of a latching cvar comes just this call, and for all other lines nothing, or the line with its
uses migrated. -/
theorem patch_generates (cfg : Settings) (context : Nat) (hordered : m.record.Ordered)
    (h : m.record.Readable w) :
    ∃ p w', (m.patch cfg context).on w = (.ok p, w') ∧
      (∀ file base, w'.held? file = some base → w'.Current file base → m.record.OnLines file base →
        (∀ text, Text.isBlankLine text = false → ((p.copy? file).getD base).count text =
          (rowsOf (fun i => m.outcome cfg (m.record.mentionsAt (file, i + 1))) base).count text) ∧
        ∀ upper lower, Text.isBlankLine upper = false → Text.isBlankLine lower = false →
          (∀ i line, base[i]? = some line → m.record.mentionsAt (file, i + 1) ≠ [] →
            line ≠ upper ∧ line ≠ lower) →
          (base.mapIdx fun i => m.outcome cfg (m.record.mentionsAt (file, i + 1))).count [upper, lower] ≤
            neighbours upper lower ((p.copy? file).getD base)) ∧
      ∀ k line,
        let ms := m.record.mentionsAt k
        (ms.any (·.1 == .define) = true →
          m.outcome cfg ms line = m.leave ms (m.definedAs line) :: (m.latchOf? line ms).toList) ∧
        (ms.any (·.1 == .define) = false → ms.any (·.1 == .decl) = true →
          m.outcome cfg ms line = m.leave ms (m.declaredAs line) :: (m.latchOf? line ms).toList) ∧
        (ms.any (·.1 == .define) = false → ms.any (·.1 == .decl) = false →
          (latches m.record.flags = true ∧ ms.any (·.1 == .get) = true →
            m.outcome cfg ms line = [m.leave ms (m.latchedAs line)]) ∧
          (¬(latches m.record.flags = true ∧ ms.any (·.1 == .get) = true) →
            m.outcome cfg ms line = if ms.any m.hides then [] else [m.migrated cfg ms line])) := by
  obtain ⟨p, w', hrun, hcarried⟩ := m.exists_carried cfg context h
  refine ⟨p, w', hrun, ?_, ?_⟩
  · intro file base hheld hcurrent hlines
    constructor
    · intro text htext
      refine (hcarried file base hheld hcurrent).count_eq (fun i line hline hblank => ?_) htext
      rw [hlines.mentionsAt_of_blank hline hblank, m.outcome_nil]
    · intro upper lower hupper hlower hother
      obtain ⟨done, hmade, hdone, hmentions, hbecomes⟩ := patch_made hrun
      rw [← mapIdx_become_congr (hbecomes file base hheld), hmade.copy hcurrent]
      refine neighbours_editAll hheld hdone hupper hlower ?_
      intro aim haim
      obtain ⟨i, hline, hblank, hsome⟩ := hlines.of_mem_aimsAt hheld hmentions haim
      exact ⟨hblank, hother i aim.2 hline hsome⟩
  · intro k line ms
    have hms := declared_first hordered k
    refine ⟨fun hdefine => ?_, fun hdefine hdecl => ?_, fun hdefine hdecl => ⟨?_, ?_⟩⟩
    · exact m.outcome_of_whole cfg hms (by rw [wholeOf?, if_pos hdefine])
    · refine m.outcome_of_whole cfg hms ?_
      rw [wholeOf?, if_neg (by rw [hdefine]; decide), if_pos hdecl]
    · rintro ⟨hlatches, hget⟩
      refine m.outcome_of_latch cfg hms ?_ ?_
      · rw [wholeOf?, if_neg (by rw [hdefine]; decide), if_neg (by rw [hdecl]; decide)]
      · rw [latchOf?, if_pos (by rw [hlatches, hget]; rfl)]
    · intro hnot
      refine m.outcome_of_neither cfg hms ?_ ?_
      · rw [wholeOf?, if_neg (by rw [hdefine]; decide), if_neg (by rw [hdecl]; decide)]
      · rw [latchOf?, if_neg (by rwa [Bool.and_eq_true])]

/-- A file with a cvar that is defined and registered on one line, or on the other branch of a condition;
the first of these lines is also an entry of a table, as is another line. -/
def latchedFile : List String :=
  ["#ifdef A", "cvar_t *x = Cvar_Get(\"x\", \"0\", CVAR_LATCH);", "#else",
    "cvar_t *x = Cvar_Get(\"x\", \"0\", CVAR_LATCH);", "#endif", "\x7b &x, \"x\" \x7d,"]

/-- The migration of the cvar. -/
def latchedMigration : Migration :=
  ⟨"x", ⟨[(.define, [⟨⟨"a.cpp"⟩, 2, 9⟩, ⟨⟨"a.cpp"⟩, 4, 9⟩]), (.get, [⟨⟨"a.cpp"⟩, 2, 13⟩, ⟨⟨"a.cpp"⟩, 4, 13⟩]),
    (.table, [⟨⟨"a.cpp"⟩, 2, 9⟩, ⟨⟨"a.cpp"⟩, 6, 4⟩])], ["x"], ["CVAR_LATCH"], [], ["\"0\""], []⟩, .int, ""⟩

/-- The definition that is generated. -/
def latchedDefinition : String := "Cvar::Cvar<int> x(\"x\", \"\", Cvar::NONE, 0);"

theorem patch_generates_latched :
    ∃ p w', (latchedMigration.patch {} 3).on
        ((Workspace.ofDisk ⟨[], []⟩ false).holdLines ⟨"a.cpp"⟩ latchedFile) = (.ok p, w') ∧
      ((p.copy? ⟨"a.cpp"⟩).getD latchedFile).count latchedDefinition = 2 ∧
      ((p.copy? ⟨"a.cpp"⟩).getD latchedFile).count "Cvar::Latch(x);" = 2 ∧
      2 ≤ neighbours latchedDefinition "Cvar::Latch(x);" ((p.copy? ⟨"a.cpp"⟩).getD latchedFile) := by
  have hfile : ((Workspace.ofDisk ⟨[], []⟩ false).holdLines ⟨"a.cpp"⟩ latchedFile).Readable ⟨"a.cpp"⟩ :=
    ⟨latchedFile, rfl⟩
  obtain ⟨p, w', hrun, hlines, -⟩ := patch_generates (m := latchedMigration)
    (w := (Workspace.ofDisk ⟨[], []⟩ false).holdLines ⟨"a.cpp"⟩ latchedFile) {} 3
    (by simp [Record.Ordered, Data.Increasing, latchedMigration]; decide)
    (by simpa [Record.Readable, Record.mentions, latchedMigration] using hfile)
  have hheld : ((latchedMigration.patch {} 3).on
      ((Workspace.ofDisk ⟨[], []⟩ false).holdLines ⟨"a.cpp"⟩ latchedFile)).2.held? ⟨"a.cpp"⟩ =
        some latchedFile := by decide +kernel
  have hrereads : ((latchedMigration.patch {} 3).on
      ((Workspace.ofDisk ⟨[], []⟩ false).holdLines ⟨"a.cpp"⟩ latchedFile)).2.rereads = false := by
    decide +kernel
  rw [hrun] at hheld hrereads
  have hcurrent : w'.Current ⟨"a.cpp"⟩ latchedFile := by
    rw [current_iff, hrereads]
    exact hheld
  obtain ⟨hcount, hneighbours⟩ := hlines _ _ hheld hcurrent (by decide +kernel)
  refine ⟨p, w', hrun, ?_, ?_, ?_⟩
  · rw [hcount _ (by decide +kernel)]
    decide +kernel
  · rw [hcount _ (by decide +kernel)]
    decide +kernel
  · refine Nat.le_trans ?_ (hneighbours _ _ (by decide +kernel) (by decide +kernel) ?_)
    · decide +kernel
    · have hall : ∀ line ∈ latchedFile, line ≠ latchedDefinition ∧ line ≠ "Cvar::Latch(x);" := by
        decide +kernel
      intro i line hline _
      exact hall line (List.mem_of_getElem? hline)

/-- A file with a cvar that is defined and registered on one line, and a targeted line that reads like
the call that latches it. -/
def partedFile : List String :=
  ["cvar_t *x = Cvar_Get(\"x\", \"0\", CVAR_LATCH);", "int y;", "Cvar::Latch(x);"]

/-- The migration of the cvar. -/
def partedMigration : Migration :=
  ⟨"x", ⟨[(.define, [⟨⟨"a.cpp"⟩, 1, 9⟩]), (.get, [⟨⟨"a.cpp"⟩, 1, 13⟩]), (.table, [⟨⟨"a.cpp"⟩, 3, 13⟩])],
    ["x"], ["CVAR_LATCH"], [], ["\"0\""], []⟩, .int, ""⟩

/-- A targeted line that reads like the call that latches the cvar makes its edit take the call from
behind the definition. -/
theorem latch_parted_from_definition :
    partedMigration.outcome {} (partedMigration.record.mentionsAt (⟨"a.cpp"⟩, 1))
        "cvar_t *x = Cvar_Get(\"x\", \"0\", CVAR_LATCH);" = [latchedDefinition, "Cvar::Latch(x);"] ∧
      (match (partedMigration.patch {} 3).on
          ((Workspace.ofDisk ⟨[], []⟩ false).holdLines ⟨"a.cpp"⟩ partedFile) with
        | (.ok p, _) => p.copy? ⟨"a.cpp"⟩ == some [latchedDefinition, "int y;", "Cvar::Latch(x);"]
        | _ => false) = true ∧
      neighbours latchedDefinition "Cvar::Latch(x);"
        [latchedDefinition, "int y;", "Cvar::Latch(x);"] = 0 := by
  decide +kernel

end Migration

end Cvar

end Upkeep
