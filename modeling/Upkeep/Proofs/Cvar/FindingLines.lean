/-
**The lines of findings.**

A finding is recorded by the place where its node begins, and patches go by the lines of such places.  So
where a node goes over several lines, its first line has a mention; another line has one only if a finding
of the same cvar begins on it, or a word in a text that is searched names the cvar there.  A removal
deletes the lines with mentions, and a migration changes no others.  The other lines of the node are
neither deleted nor marked, whatever becomes of the first one.

Main definitions:

* `Upkeep.Cvar.Occurrence.Key.IsOn` — the places on a line of a file.

Main results:

* `Upkeep.Cvar.mem_targets_finishedLedger_iff` — which lines have mentions when all is done;
* `Upkeep.Cvar.mem_targets_analysis_iff` — and which lines of a parsed file have;
* `Upkeep.Cvar.removal_leaves`, `Upkeep.Cvar.removal_leaves_targets` — what a removal leaves of a file;
* `Upkeep.Cvar.lines_of_finding` — **what becomes of the lines of a node**.
-/

import Upkeep.Proofs.Cvar.RemovalCount
import Upkeep.Proofs.Cvar.TableWords
import Upkeep.Proofs.Cvar.Uses

set_option relaxedAutoImplicit false
set_option autoImplicit false

namespace Upkeep

namespace Cvar

open Cpp Files

/-! ### Lines with mentions -/

/-- Whether a place is on a line of a file. -/
def Occurrence.Key.IsOn (k : Occurrence.Key) (file : Path) (n : Nat) : Prop :=
  k.1 = file.components ∧ k.2.1 = n

namespace Record

variable {r : Record} {file : Path} {n : Nat}

/-- The lines with mentions are those of the places of which the record tells. -/
theorem mem_targets_iff_tells (h : r.Ordered) :
    n ∈ r.targets file ↔ ∃ role k, r.Tells (.mention role k) ∧ k.IsOn file n := by
  rw [mem_targets]
  constructor
  · rintro ⟨⟨role, o⟩, hm, hfile, hline⟩
    exact ⟨role, o.key, List.mem_map_of_mem ((mem_mentions h).1 hm), Path.same_iff.1 hfile, hline⟩
  · rintro ⟨role, k, hk, hfile, hline⟩
    obtain ⟨o, ho, rfl⟩ := List.mem_map.1 hk
    exact ⟨(role, o), (mem_mentions h).2 ho, Path.same_iff.2 hfile, hline⟩

/-- The clearing leaves a mention on every line that has one: where it takes one away, there is a table
entry. -/
theorem mem_targets_scrub (h : r.Ordered) : n ∈ r.scrub.targets file ↔ n ∈ r.targets file := by
  rw [mem_targets_iff_tells h.scrub, mem_targets_iff_tells h]
  constructor
  · rintro ⟨role, k, hk, hon⟩
    exact ⟨role, k, ((tells_scrub h).1 hk).1, hon⟩
  · rintro ⟨role, k, hk, hon⟩
    by_cases hline : r.TableLine k
    · obtain ⟨k', hk', hsame⟩ := hline
      have hleft : r.scrub.Tells (.mention .table k') := (tells_scrub h).2 ⟨hk', fun hacc => hacc.1 rfl⟩
      exact ⟨.table, k', hleft, hsame.1.symm.trans hon.1, hsame.2.symm.trans hon.2⟩
    · exact ⟨role, k, (tells_scrub h).2 ⟨hk, fun hacc => hline hacc.2⟩, hon⟩

/-- Mentions in texts add their lines. -/
theorem mem_targets_addTexts (h : r.Ordered) (os : List Occurrence) :
    n ∈ (r.addTexts os).targets file ↔ n ∈ r.targets file ∨ ∃ o ∈ os, o.key.IsOn file n := by
  rw [mem_targets_iff_tells (h.addTexts os), mem_targets_iff_tells h]
  simp only [tells_addTexts h]
  constructor
  · rintro ⟨role, k, hk | ⟨o, ho, heq⟩, hon⟩
    · exact .inl ⟨role, k, hk, hon⟩
    · obtain ⟨-, rfl⟩ := Fact.mention.inj heq
      exact .inr ⟨o, ho, hon⟩
  · rintro (⟨role, k, hk, hon⟩ | ⟨o, ho, hon⟩)
    · exact ⟨role, k, .inl hk, hon⟩
    · exact ⟨.text, o.key, .inr ⟨o, ho, rfl⟩, hon⟩

/-- What accounts for a word is on its line. -/
theorem mem_targets_of_accountsFor (h : r.Ordered) {dedup : Dedup} {o : Occurrence}
    (hacc : r.accountsFor dedup o = true) (hon : o.key.IsOn file n) : n ∈ r.targets file := by
  obtain ⟨role, -, p, hp, hcovers⟩ := (accountsFor_iff h).1 hacc
  have hsame := Occurrence.sameLine_iff_key.1 (Dedup.sameLine_of_covers hcovers)
  refine (mem_targets_iff_tells h).2 ⟨role, p.key, List.mem_map_of_mem hp, ?_⟩
  exact ⟨hsame.1.symm.trans hon.1, hsame.2.symm.trans hon.2⟩

/-- The mentions on a line are none if the line is no target. -/
theorem mentionsAt_eq_nil_iff : r.mentionsAt (file, n) = [] ↔ n ∉ r.targets file := by
  rw [mem_targets, mentionsAt, List.filter_eq_nil_iff]
  simp only [Mention.standsAt, Mention.key, beq_iff_eq, LineKey.order_eq_iff, Path.same_comm file,
    eq_comm (a := n), not_exists, not_and]

end Record

section Finished

variable {findings : List Finding} {dedup : Dedup} {texts : List (Path × List String)} {name : String}
  {r : Record} {file : Path} {n : Nat}

/-- The lines with mentions after recording are those where findings begin. -/
theorem mem_targets_ledgerOf_iff (hget : (ledgerOf findings).get? name = some r) :
    n ∈ r.targets file ↔ ∃ f ∈ findings,
      f.shape.owner? (ledgerOf findings).textKeys = some name ∧ f.place.key.IsOn file n := by
  rw [Record.mem_targets_iff_tells ((ordered_ledgerOf findings).of_get? hget)]
  simp only [← Ledger.tells_of_get? hget, Ledger.tells_mention_ledgerOf]
  constructor
  · rintro ⟨role, k, ⟨f, hf, -, howner, rfl⟩, hon⟩
    exact ⟨f, hf, howner, hon⟩
  · rintro ⟨f, hf, howner, hon⟩
    obtain ⟨role, hrole⟩ := Shape.exists_role? howner
    exact ⟨role, f.place.key, ⟨f, hf, hrole, howner, rfl⟩, hon⟩

/-- **Which lines have mentions when all is done**: those where a finding of the cvar begins, and those
with a word that names the cvar in a text that is searched. -/
theorem mem_targets_finishedLedger_iff
    (hget : (finishedLedger findings dedup texts).get? name = some r) :
    n ∈ r.targets file ↔
      (∃ f ∈ findings, f.shape.owner? (finishedLedger findings dedup texts).textKeys = some name ∧
        f.place.key.IsOn file n) ∨
      ∃ t ∈ texts, ∃ o, (name, o) ∈ namedInLines (finishedLedger findings dedup texts).textKeys t.1 t.2 ∧
        o.key.IsOn file n := by
  obtain ⟨r₀, hget₀, rfl⟩ := get?_finishedLedger hget
  have hr₀ := (ordered_ledgerOf findings).of_get? hget₀
  rw [textKeys_finishedLedger, Record.mem_targets_scrub (hr₀.addTexts _), Record.mem_targets_addTexts hr₀,
    ← mem_targets_ledgerOf_iff hget₀]
  simp only [mem_hitsOn_iff hget₀]
  constructor
  · rintro (hmem | ⟨o, ⟨t, ht, hnamed, -⟩, hon⟩)
    · exact .inl hmem
    · exact .inr ⟨t, ht, o, hnamed, hon⟩
  · rintro (hmem | ⟨t, ht, o, hnamed, hon⟩)
    · exact .inl hmem
    · cases hacc : r₀.accountsFor dedup o with
      | true => exact .inl (Record.mem_targets_of_accountsFor hr₀ hacc hon)
      | false => exact .inr ⟨o, ⟨t, ht, hnamed, hacc⟩, hon⟩

end Finished

/-! ### Lines that stay -/

section Patches

variable {w w' : Workspace} {r : Record} {file : Path} {base : List String} {line : String} {i : Nat}

theorem textTargets_pos_iff :
    0 < textTargets w r file line ↔ ∃ n ∈ r.targets file, w.lineAt? file n = some line := by
  rw [textTargets, List.countP_pos_iff]
  simp only [beq_iff_eq]

/-- A line that is like no other one is among the first with its text, and has the text of a target just
if it is a target. -/
theorem count_take_lt_textTargets_iff (hheld : w.held? file = some base) (hline : base[i]? = some line)
    (halone : ∀ j : Nat, base[j]? = some line → j = i) :
    (base.take i).count line < textTargets w r file line ↔ i + 1 ∈ r.targets file := by
  have hnone : (base.take i).count line = 0 := by
    rw [List.count_eq_zero]
    intro hmem
    obtain ⟨j, hj⟩ := List.mem_iff_getElem?.1 hmem
    rw [List.getElem?_take] at hj
    obtain ⟨hlt, hj⟩ := Option.ite_none_right_eq_some.1 hj
    exact absurd (halone j hj) (Nat.ne_of_lt hlt)
  rw [hnone, textTargets_pos_iff]
  constructor
  · rintro ⟨n, hn, hat⟩
    rw [Workspace.lineAt?, hheld] at hat
    cases n with
    | zero => simp at hat
    | succ j => rwa [← halone j (by simpa using hat)]
  · intro htarget
    exact ⟨i + 1, htarget, (Workspace.lineAt?_succ hheld i).trans hline⟩

/-- What a removal leaves of a file: of the lines that are not blank the first ones with the text of a
target are gone, as many as there are targets with this text. -/
theorem removal_leaves {p : Patch} {context : Nat} (hrun : (removal r context).on w = (.ok p, w'))
    (hcurrent : w'.Current file base) :
    ∃ kept, Leaves base ((p.copy? file).getD base) kept ∧
      ∀ i line, base[i]? = some line → Text.isBlankLine line = false →
        (i ∉ kept ↔ (base.take i).count line < textTargets w' r file line) := by
  have h := (removed_empty w context).edits hrun
  rw [List.nil_append] at h
  cases hcopy : p.copy? file with
  | none =>
      refine ⟨List.range base.length, .refl base, fun i line hline _ => ?_⟩
      have hlt := (List.getElem?_eq_some_iff.1 hline).1
      rw [← count_textsOf_linesOf, h.untouched file hcopy]
      simp [hlt]
  | some text =>
      -- The working copy may go by another path that is the same.
      obtain ⟨c, hfind, rfl⟩ := Option.map_eq_some_iff.1 hcopy
      have hfile := List.find?_some hfind
      obtain ⟨base', kept, hcurrent', hleaves, hgone⟩ := h.deleted c (List.mem_of_find?_eq_some hfind)
      obtain rfl : base' = base := hcurrent'.congr hfile hcurrent
      have htexts : textsOf w' (linesOf r.mentions) c.1 = textsOf w' (linesOf r.mentions) file := by
        have hsame : ∀ k : LineKey, k.1.same c.1 = k.1.same file := by
          intro k
          rw [Bool.eq_iff_iff, Path.same_iff, Path.same_iff, Path.same_iff.1 hfile]
        simp only [textsOf, hsame]
      refine ⟨kept, hleaves, fun i line hline hblank => ?_⟩
      rw [hgone i line hline hblank, Nat.not_le, htexts, count_textsOf_linesOf]

/-- A removal over a file that has not changed takes a line that is like no other one just if it is a
target. -/
theorem removal_leaves_targets {p : Patch} {context : Nat} (hrun : (removal r context).on w = (.ok p, w'))
    (hheld : w.held? file = some base) (hcurrent : w.Current file base) :
    ∃ kept, Leaves base ((p.copy? file).getD base) kept ∧
      ∀ i line, base[i]? = some line → Text.isBlankLine line = false →
        (i ∉ kept ↔ (base.take i).count line < textTargets w' r file line) ∧
        ((∀ j : Nat, base[j]? = some line → j = i) → (i ∉ kept ↔ i + 1 ∈ r.targets file)) := by
  have hext := (removed_empty w context).extends_of_edits hrun
  obtain ⟨kept, hleaves, hlaw⟩ := removal_leaves hrun (hcurrent.mono hext)
  refine ⟨kept, hleaves, fun i line hline hblank => ⟨hlaw i line hline hblank, fun halone => ?_⟩⟩
  rw [hlaw i line hline hblank, count_take_lt_textTargets_iff (hext.held _ _ hheld) hline halone]

/-- The patches of readable files can be made. -/
theorem exists_patches (cfg : Settings) (h : r.Readable w) (context : Nat) :
    (∃ p w', (removal r context).on w = (.ok p, w')) ∧
      ∀ m : Migration, m.record = r → ∃ p w', (m.patch cfg context).on w = (.ok p, w') := by
  constructor
  · obtain ⟨p, hremoval, -⟩ := exists_yields_removal context h
    obtain ⟨w', hrun, -⟩ := hremoval w (.refl w)
    exact ⟨p, w', hrun⟩
  · rintro m rfl
    obtain ⟨p, w', hrun, -⟩ := m.exists_carried cfg context h
    exact ⟨p, w', hrun⟩

/-- A migration only reads. -/
theorem Migration.extends_of_patch {m : Migration} {cfg : Settings} {p : Patch} {context : Nat}
    (hrun : (m.patch cfg context).on w = (.ok p, w')) : w.Extends w' := by
  obtain ⟨plans, w₁, hplans, hrun⟩ := on_bind_ok.1 hrun
  exact (plans_ok hplans).1.trans (made_foldlM (made_empty w₁ context) hrun).1

end Patches

/-! ### Lines of nodes -/

section Nodes

variable {d : Disk} {cfg : Settings} {request : Request} {sources : List Path} {files : List Source}
  {a : Analysis} {findings : List Finding} {source : Source} {name : String}

/-- The lines of a parsed file with mentions: those where a finding of the cvar begins, and those with a
word that names the cvar, if the file is searched. -/
theorem mem_targets_analysis_iff (hd : Distinct files) (hwalk : walkAll cfg files = .ok findings)
    (ha : analyzeFiles d cfg request sources files = .ok a) (hsource : source ∈ files) {r : Record}
    (hget : a.ledger.get? name = some r) (k : Nat) : k ∈ r.targets source.path ↔
      (∃ f ∈ findings, f.shape.owner? a.ledger.textKeys = some name ∧ f.place.key.IsOn source.path k) ∨
      request.textScan = true ∧ source.path.isIn sources = true ∧
        ∃ column, source.NamesAt a.ledger.textKeys name k column := by
  obtain ⟨findings', texts, hwalk', hledger, hsources, htexts, hheld⟩ :=
    finishedLedger_of_analyzeFiles hd ha
  obtain rfl : findings = findings' := Except.ok.inj (hwalk.symm.trans hwalk')
  rw [mem_targets_finishedLedger_iff (hledger ▸ hget), ← hledger]
  refine or_congr_right ?_
  have hword : ∀ column, (∃ t ∈ texts, ∃ p, (name, p) ∈ namedInLines a.ledger.textKeys t.1 t.2 ∧
      (⟨source.path, k, column⟩ : Occurrence).same p = true) ↔
      request.textScan = true ∧ source.path.isIn sources = true ∧
        source.NamesAt a.ledger.textKeys name k column :=
    fun column => exists_text_iff hsources htexts (hheld source hsource) (Path.same_self _)
  constructor
  · rintro ⟨t, ht, o, hnamed, hfile, hline⟩
    have hsame : (⟨source.path, k, o.column⟩ : Occurrence).same o = true :=
      Occurrence.key_eq_iff.1 (Prod.ext hfile.symm (Prod.ext hline.symm rfl))
    obtain ⟨hscan, hin, hnames⟩ := (hword o.column).1 ⟨t, ht, o, hnamed, hsame⟩
    exact ⟨hscan, hin, o.column, hnames⟩
  · rintro ⟨hscan, hin, column, hnames⟩
    obtain ⟨t, ht, o, hnamed, hsame⟩ := (hword column).2 ⟨hscan, hin, hnames⟩
    have hkey := Occurrence.key_eq_iff.2 hsame
    exact ⟨t, ht, o, hnamed, congrArg Prod.fst hkey.symm, congrArg (·.2.1) hkey.symm⟩

/-- **What becomes of the lines of a node** for which a finding is recorded.  The first line has a mention
of the cvar, and any line has one just if a finding of the cvar begins on it or a word that is searched
names the cvar there.  A removal, over the file as it was parsed, deletes a line of the node that is not
blank if fewer equal lines stand above it than targets have its text; so if no other line is equal to it, it
goes just if it has a mention.  A migration makes of every line what its mentions say, and a line of the
node without one stays: it is neither deleted nor marked. -/
theorem lines_of_finding (hd : Distinct files) (hwalk : walkAll cfg files = .ok findings)
    (ha : analyzeFiles d cfg request sources files = .ok a) (hsource : source ∈ files) {n : Node}
    {shape : Shape} (hfound : foundAt ⟨cfg, collectGlobals cfg files, source⟩ n shape ∈ findings)
    (howner : shape.owner? a.ledger.textKeys = some name) {w : Workspace} (hw : a.workspace.Keeps w)
    (hcurrent : w.Current source.path (Text.lines source.text)) :
    ∃ r, a.ledger.get? name = some r ∧ n.line ∈ r.targets source.path ∧
      (∀ k, k ∈ r.targets source.path ↔
        (∃ f ∈ findings, f.shape.owner? a.ledger.textKeys = some name ∧
          f.place.key.IsOn source.path k) ∨
        request.textScan = true ∧ source.path.isIn sources = true ∧
          ∃ column, source.NamesAt a.ledger.textKeys name k column) ∧
      (r.Readable w → ∀ context, (∃ p w', (removal r context).on w = (.ok p, w')) ∧
        ∀ m : Migration, m.record = r → ∃ p w', (m.patch cfg context).on w = (.ok p, w')) ∧
      (∀ context p w', (removal r context).on w = (.ok p, w') → ∃ kept,
        Leaves (Text.lines source.text) ((p.copy? source.path).getD (Text.lines source.text)) kept ∧
        ∀ i column line, n.Spans (i + 1) column → (Text.lines source.text)[i]? = some line →
          Text.isBlankLine line = false →
          (i ∉ kept ↔ ((Text.lines source.text).take i).count line <
            textTargets w' r source.path line) ∧
          ((∀ j : Nat, (Text.lines source.text)[j]? = some line → j = i) →
            (i ∉ kept ↔ i + 1 ∈ r.targets source.path))) ∧
      ∀ (m : Migration) context p w', m.record = r → (m.patch cfg context).on w = (.ok p, w') →
        Shows (fun i line => m.outcome cfg (r.mentionsAt (source.path, i + 1)) line)
          (Text.lines source.text) ((p.copy? source.path).getD (Text.lines source.text)) ∧
        ∀ i column line, n.Spans (i + 1) column → i + 1 ∉ r.targets source.path →
          m.outcome cfg (r.mentionsAt (source.path, i + 1)) line = [line] := by
  obtain ⟨findings', texts, hwalk', hledger, -, -, hheld⟩ := finishedLedger_of_analyzeFiles hd ha
  obtain rfl : findings = findings' := Except.ok.inj (hwalk.symm.trans hwalk')
  have hkept := hw.held _ _ (hheld source hsource)
  obtain ⟨r, hget⟩ := exists_record_of_owner cfg.textDedup texts hfound
    (by rwa [hledger, textKeys_finishedLedger] at howner)
  have htargets := mem_targets_analysis_iff hd hwalk ha hsource (hledger ▸ hget)
  refine ⟨r, hledger ▸ hget, ?_, htargets, fun hreadable => exists_patches cfg hreadable, ?_, ?_⟩
  · -- The finding itself begins on the first line.
    exact (htargets n.line).2 (.inl ⟨_, hfound, howner, rfl, rfl⟩)
  · intro context p w' hrun
    obtain ⟨kept, hleaves, hlaw⟩ := removal_leaves_targets hrun hkept hcurrent
    exact ⟨kept, hleaves, fun i _ line _ hline hblank => hlaw i line hline hblank⟩
  · rintro m context p w' rfl hrun
    have hext := Migration.extends_of_patch hrun
    refine ⟨Migration.patch_shows hrun (hext.held _ _ hkept) (hcurrent.mono hext), ?_⟩
    intro i column line _ hfree
    rw [Record.mentionsAt_eq_nil_iff.2 hfree, m.outcome_nil]

/-! ### Nodes at work -/

/-- A table with an entry on two lines, the default value on the second. -/
def entryOnTwoRows : Source :=
  sourceOf "vmCvar_t a;\ncvarTable_t t[] = \x7b\n \x7b &a, \"a\",\n   \"1\" \x7d,\n\x7d;\n"
    (definitionRows 0 1 ++
      [partRow 1 "declaration" none 12 56, partRow 2 "type_identifier" (some "type") 12 23,
        partRow 2 "init_declarator" (some "declarator") 24 55,
        partRow 3 "array_declarator" (some "declarator") 24 27,
        partRow 4 "identifier" (some "declarator") 24 25, markRow 4 "[" 25, markRow 4 "]" 26,
        markRow 3 "=" 28, partRow 3 "initializer_list" (some "value") 30 55, markRow 4 "\x7b" 30,
        partRow 4 "initializer_list" none 33 52, markRow 5 "\x7b" 33,
        partRow 5 "pointer_expression" none 35 37,
        ⟨6, "&", some "operator", false, false, false, false, 35, 36⟩,
        partRow 6 "identifier" (some "argument") 36 37, markRow 5 "," 37,
        partRow 5 "string_literal" none 39 42, markRow 6 "\"" 39,
        partRow 6 "string_content" none 40 41, markRow 6 "\"" 41, markRow 5 "," 42,
        partRow 5 "string_literal" none 47 50, markRow 6 "\"" 47,
        partRow 6 "string_content" none 48 49, markRow 6 "\"" 49, markRow 5 "\x7d" 51,
        markRow 4 "," 52, markRow 4 "\x7d" 54, markRow 2 ";" 55])

/-- What is known of the cvar in the end. -/
def entryRecord : Record :=
  ⟨[(.define, [⟨entryOnTwoRows.path, 1, 10⟩]), (.table, [⟨entryOnTwoRows.path, 3, 2⟩])], ["a"], [], [],
    ["\"1\""], []⟩

theorem exists_spans_entryOnTwoRows :
    ∃ s ∈ spots [] entryOnTwoRows.tree, s.node.kind = "initializer_list" ∧ s.node.line = 3 ∧
      s.node.column = 2 ∧ s.node.Spans 3 2 ∧ s.node.Spans 4 4 := by decide

theorem walkAll_entryOnTwoRows :
    walkAll {} [entryOnTwoRows] = .ok [⟨.declaration "a" true, ⟨entryOnTwoRows.path, 1, 10⟩⟩,
      ⟨.tableEntry "a" ⟨some "a", some "\"1\"", []⟩, ⟨entryOnTwoRows.path, 3, 2⟩⟩] :=
  ok_of_toOption (by decide +kernel)

theorem lines_of_finding_entryOnTwoRows :
    ∃ a, analyzeFiles ⟨[], []⟩ {} searching [entryOnTwoRows.path] [entryOnTwoRows] = .ok a ∧
      a.ledger.get? "a" = some entryRecord ∧ 3 ∈ entryRecord.targets entryOnTwoRows.path ∧
      (∃ p w' kept, (removal entryRecord 3).on a.workspace = (.ok p, w') ∧
        Leaves (Text.lines entryOnTwoRows.text)
          ((p.copy? entryOnTwoRows.path).getD (Text.lines entryOnTwoRows.text)) kept ∧
        2 ∉ kept ∧ 3 ∈ kept) ∧
      ∃ p w', ((Migration.ofRecord "a" entryRecord).patch {} 3).on a.workspace = (.ok p, w') ∧
        (Migration.ofRecord "a" entryRecord).outcome {}
          (entryRecord.mentionsAt (entryOnTwoRows.path, 4)) "   \"1\" \x7d," = ["   \"1\" \x7d,"] := by
  have hanalysis : (analyzeFiles ⟨[], []⟩ {} searching [entryOnTwoRows.path] [entryOnTwoRows]).toOption.map
      (fun a => (a.ledger, a.workspace.held, a.workspace.rereads)) =
        some (⟨[("a", entryRecord)], []⟩, [(entryOnTwoRows.path, Text.lines entryOnTwoRows.text)], false) := by
    decide +kernel
  obtain ⟨a, ha, hall⟩ := Option.map_eq_some_iff.1 hanalysis
  obtain ⟨hledger, hheld, hrereads⟩ : a.ledger = ⟨[("a", entryRecord)], []⟩ ∧
      a.workspace.held = [(entryOnTwoRows.path, Text.lines entryOnTwoRows.text)] ∧
      a.workspace.rereads = false := by simpa using hall
  have hcurrent : a.workspace.Current entryOnTwoRows.path (Text.lines entryOnTwoRows.text) := by
    rw [current_iff, if_neg (by simp [hrereads]), Workspace.held?, hheld]
    decide +kernel
  obtain ⟨s, -, -, hline, hcolumn, hfirst, hsecond⟩ := exists_spans_entryOnTwoRows
  have hfound : foundAt ⟨{}, collectGlobals {} [entryOnTwoRows], entryOnTwoRows⟩ s.node
      (.tableEntry "a" ⟨some "a", some "\"1\"", []⟩) ∈
        [⟨.declaration "a" true, ⟨entryOnTwoRows.path, 1, 10⟩⟩,
          ⟨.tableEntry "a" ⟨some "a", some "\"1\"", []⟩, ⟨entryOnTwoRows.path, 3, 2⟩⟩] := by
    rw [foundAt, placeOf, hline, hcolumn]
    exact List.mem_cons_of_mem _ List.mem_cons_self
  obtain ⟨r, hget, htarget, -, hmade, hremoval, hmigration⟩ :=
    lines_of_finding (List.pairwise_singleton _ _) walkAll_entryOnTwoRows (ok_of_toOption ha)
      List.mem_cons_self hfound rfl ⟨rfl, fun _ _ h => h⟩ hcurrent
  obtain rfl : entryRecord = r := by
    rw [hledger] at hget
    exact Option.some.inj hget
  have hreadable : entryRecord.Readable a.workspace := by
    have hfile : a.workspace.Readable entryOnTwoRows.path := ⟨_, congrArg Prod.fst hcurrent⟩
    simpa [Record.Readable, Record.mentions, entryRecord] using hfile
  obtain ⟨⟨p, w', hrun⟩, hmigrated⟩ := hmade hreadable 3
  obtain ⟨q, w'', hpatch⟩ := hmigrated (Migration.ofRecord "a" entryRecord) rfl
  obtain ⟨kept, hleaves, hlines⟩ := hremoval 3 p w' hrun
  have hnodup : (Text.lines entryOnTwoRows.text).Nodup := by decide +kernel
  have halone : ∀ {i : Nat} {line : String}, (Text.lines entryOnTwoRows.text)[i]? = some line →
      ∀ j : Nat, (Text.lines entryOnTwoRows.text)[j]? = some line → j = i := by
    intro i line hi j hj
    exact (List.getElem?_inj (List.getElem?_eq_some_iff.1 hj).1 hnodup).1 (hj.trans hi.symm)
  have hthird : (Text.lines entryOnTwoRows.text)[2]? = some " \x7b &a, \"a\"," := by decide +kernel
  have hfourth : (Text.lines entryOnTwoRows.text)[3]? = some "   \"1\" \x7d," := by decide +kernel
  have hfree : 4 ∉ entryRecord.targets entryOnTwoRows.path := by decide +kernel
  rw [hline] at htarget
  refine ⟨a, ok_of_toOption ha, by rw [hledger]; rfl, htarget, ⟨p, w', kept, hrun, hleaves, ?_, ?_⟩,
    q, w'', hpatch, ?_⟩
  · exact ((hlines 2 2 _ hfirst hthird (by decide +kernel)).2 (halone hthird)).2 htarget
  · by_contra hgone
    exact hfree (((hlines 3 4 _ hsecond hfourth (by decide +kernel)).2 (halone hfourth)).1 hgone)
  · exact (hmigration (Migration.ofRecord "a" entryRecord) 3 q w'' rfl hpatch).2 3 4 _ hsecond hfree

/-- The verdict on a cvar of a file, and what its removal and its migration leave of the file. -/
def leftOf (cfg : Settings) (source : Source) (name : String) :
    Option (Verdict × List String × List String) := do
  let a ← (analyzeFiles ⟨[], []⟩ cfg searching [source.path] [source]).toOption
  let r ← a.ledger.get? name
  let removed ← ((removal r 3).on a.workspace).1.toOption
  let migrated ← (((Migration.ofRecord name r).patch cfg 3).on a.workspace).1.toOption
  return (classify cfg.policy r, (removed.copy? source.path).getD (Text.lines source.text),
    (migrated.copy? source.path).getD (Text.lines source.text))

/-- **A piece of an entry is left behind** by the removal of a dead cvar, and left without a mark by its
migration: both delete the line where the entry begins, and neither touches the one where it ends. -/
theorem entry_row_left :
    leftOf {} entryOnTwoRows "a" = some (.dead,
      ["cvarTable_t t[] = \x7b", "   \"1\" \x7d,", "\x7d;"],
      ["Cvar::Cvar<std::string> a(\"a\", \"\", Cvar::NONE, \"1\");", "cvarTable_t t[] = \x7b",
        "   \"1\" \x7d,", "\x7d;"]) ∧
    walkAll {} [entryOnTwoRows] = .ok [⟨.declaration "a" true, ⟨entryOnTwoRows.path, 1, 10⟩⟩,
      ⟨.tableEntry "a" ⟨some "a", some "\"1\"", []⟩, ⟨entryOnTwoRows.path, 3, 2⟩⟩] ∧
    ∃ s ∈ spots [] entryOnTwoRows.tree, s.node.kind = "initializer_list" ∧ s.node.line = 3 ∧
      s.node.column = 2 ∧ s.node.Spans 3 2 ∧ s.node.Spans 4 4 :=
  ⟨by decide +kernel, walkAll_entryOnTwoRows, exists_spans_entryOnTwoRows⟩

end Nodes

end Cvar

end Upkeep
