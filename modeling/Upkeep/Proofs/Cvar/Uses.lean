/-
**What a migration makes of reads and writes.**

On a line with reads and writes of the cvar, and no mention that puts something else in its place, the
calls and the reads become calls on the new type, or the line is marked.  Where a declaration, a
definition, a registration, a table entry or a range check of a ranged cvar shares the line, only what
this mention makes of it is left, and the reads and writes are lost.

Main definitions:

* `Upkeep.Cvar.Role.isUse` — the roles of reads and writes;
* `Upkeep.Cvar.CallsMade`, `Upkeep.Cvar.Migration.ReadsMade`, `Upkeep.Cvar.Migration.UsesMade` — the
  calls, the reads, and all uses on a line became what they become;
* `Upkeep.Cvar.CallsTried` — the calls did where they stood in the text;
* `Upkeep.Cvar.LinePlan.generated` — the lines that a plan puts in the place of any other;
* `Upkeep.Cvar.Migration.Carried` — patches with what becomes of the lines.

Main results:

* `Upkeep.Cvar.Migration.outcome_of_hides`, `Upkeep.Cvar.Migration.outcome_of_use` — what becomes of a
  line with a use;
* `Upkeep.Cvar.Migration.exists_carried` — the patch of a migration holds what becomes of the lines;
* `Upkeep.Cvar.Migration.patch_keeps_uses` — **what a migration makes of uses**.
-/

import Upkeep.Proofs.Cvar.MigrationEdits
import Upkeep.Proofs.Cvar.MigrationReads
import Upkeep.Proofs.Text.Search

set_option relaxedAutoImplicit false
set_option autoImplicit false

namespace Upkeep

namespace Cvar

open Files

variable {w : Workspace} {m : Migration} {cfg : Settings} {ms : List Mention} {line : String}

/-! ### Calls and reads -/

/-- Whether mentions of a role read the cvar or write it. -/
def Role.isUse (r : Role) : Bool := r.isTypedRead || r == set

/-- One after the other, the calls were somewhere in the text, and became what they become. -/
inductive CallsMade : List (String × String) → List Char → List Char → Prop where
  | nil (text : List Char) : CallsMade [] text text
  | cons {call : String × String} {calls : List (String × String)} {before after text : List Char}
      (h : CallsMade calls (before ++ call.2.toList ++ after) text) :
      CallsMade (call :: calls) (before ++ call.1.toList ++ after) text

/-- One after the other, the calls became what they become where they first stood in the text; those
that stood nowhere in it are missing. -/
inductive CallsTried : List (String × String) → List Char → List Char → (missing : Bool) → Prop where
  | nil (text : List Char) : CallsTried [] text text false
  | made {call : String × String} {calls : List (String × String)} {old before after text : List Char}
      {missing : Bool} (hfirst : Text.FirstAt call.1.toList old before after)
      (h : CallsTried calls (before ++ call.2.toList ++ after) text missing) :
      CallsTried (call :: calls) old text missing
  | missing {call : String × String} {calls : List (String × String)} {old text : List Char}
      {missing : Bool} (hnot : ¬call.1.toList <:+: old) (h : CallsTried calls old text missing) :
      CallsTried (call :: calls) old text true

namespace Migration

/-- The text was read from, and all reads became what they become. -/
structure ReadsMade (m : Migration) (cfg : Settings) (old new : List Char) : Prop where
  read : ∃ r, Piece.read r ∈ pieces m.name (fieldNames cfg) old
  fits : ∀ r, Piece.read r ∈ pieces m.name (fieldNames cfg) old →
    (m.migrateRead? cfg r.field).isSome = true
  made : new = (pieces m.name (fieldNames cfg) old).flatMap fun
    | .plain c => [c]
    | .read r => ((m.migrateRead? cfg r.field).getD "").toList

/-- All calls and reads of the mentions on a line became what they become. -/
structure UsesMade (m : Migration) (cfg : Settings) (ms : List Mention) (old new : String) :
    Prop where
  sites : ∀ a ∈ ms, a.1 = .set → (m.call? a).isSome = true
  made : ∃ text, CallsMade (ms.filterMap m.call?) old.toList text ∧
    if ms.any (·.1.isTypedRead) then m.ReadsMade cfg text new.toList else new.toList = text

/-- The calls are taken in turn, each in the text that the one before it left. -/
theorem callsTried_foldl (calls : List (String × String)) (text : List Char) (missing : Bool) :
    ∃ new missing', calls.foldl (fun (t, missing) call =>
      let (t, m) := migrateCall t call
      (t, missing || m)) (text, missing) = (new, missing || missing') ∧
        CallsTried calls text new missing' := by
  induction calls generalizing text missing with
  | nil => exact ⟨text, false, by simp, .nil text⟩
  | cons call calls ih =>
      rw [List.foldl_cons]
      cases hsplit : Text.splitOnce? call.1.toList text with
      | none =>
          have hcall : migrateCall text call = (text, true) := by rw [migrateCall, hsplit]
          obtain ⟨new, missing', heq, htried⟩ := ih text (missing || true)
          refine ⟨new, true, ?_, .missing (Text.splitOnce?_eq_none_iff.1 hsplit) htried⟩
          dsimp only
          rw [hcall, heq, Bool.or_true, Bool.true_or]
      | some sides =>
          obtain ⟨before, after⟩ := sides
          have hcall : migrateCall text call = (before ++ call.2.toList ++ after, false) := by
            rw [migrateCall, hsplit]
          obtain ⟨new, missing', heq, htried⟩ :=
            ih (before ++ call.2.toList ++ after) (missing || false)
          refine ⟨new, missing', ?_, .made (Text.splitOnce?_eq_some_iff.1 hsplit) htried⟩
          dsimp only
          rw [hcall, heq, Bool.or_false]

/-- What becomes of the calls in a text. -/
theorem callsTried (calls : List (String × String)) (text : List Char) :
    CallsTried calls text (migrateCalls text calls).1 (migrateCalls text calls).2 := by
  obtain ⟨new, missing, heq, htried⟩ := callsTried_foldl calls text false
  rw [migrateCalls, heq]
  simpa using htried

/-- Where no call is missing, all of them were there. -/
theorem callsMade_of_callsTried {calls : List (String × String)} {text new : List Char} {missing : Bool}
    (h : CallsTried calls text new missing) (hmissing : missing = false) : CallsMade calls text new := by
  induction h with
  | nil text => exact .nil text
  | made hfirst h ih =>
      rw [hfirst.eq]
      exact .cons (ih hmissing)
  | missing hnot h ih => cases hmissing

theorem callsMade {calls : List (String × String)} {text new : List Char}
    (h : migrateCalls text calls = (new, false)) : CallsMade calls text new := by
  have htried := callsTried calls text
  rw [h] at htried
  exact callsMade_of_callsTried htried rfl

theorem readsMade {text new : List Char} (h : m.migrateReads cfg text = (new, false)) :
    m.ReadsMade cfg text new := by
  obtain ⟨hnew, hfailed⟩ := Prod.mk.inj h
  rw [Bool.or_eq_false_iff, Bool.not_eq_false', List.any_map] at hfailed
  obtain ⟨hfits, hread⟩ := hfailed
  have hfit : ∀ r, Piece.read r ∈ pieces m.name (fieldNames cfg) text →
      ∃ t, m.migrateRead? cfg r.field = some t := by
    intro r hr
    have hr := List.any_eq_false.1 hfits _ hr
    rw [Function.comp_apply, migratePiece] at hr
    cases ht : m.migrateRead? cfg r.field with
    | none => simp [ht] at hr
    | some t => exact ⟨t, rfl⟩
  refine ⟨?_, ?_, ?_⟩
  · obtain ⟨piece, hpiece, hisRead⟩ := List.any_eq_true.1 hread
    cases piece with
    | plain c => simp at hisRead
    | read r => exact ⟨r, hpiece⟩
  · intro r hr
    obtain ⟨t, ht⟩ := hfit r hr
    rw [ht]
    rfl
  · rw [← hnew, List.flatMap_map]
    apply List.flatMap_congr
    intro piece hpiece
    cases piece with
    | plain c => rfl
    | read r =>
        obtain ⟨t, ht⟩ := hfit r hpiece
        simp only [migratePiece, ht, Option.getD_some]

/-! ### What becomes of a line -/

theorem isBlankLine_of_mem {c : Char} (h : c ∈ line.toList) (hc : Unicode.isBlank c = false) :
    Text.isBlankLine line = false := by
  rw [Text.isBlankLine, List.all_eq_false]
  exact ⟨c, h, by simp [hc]⟩

theorem paren_mem_writeCall (m : Migration) (value : String) : '(' ∈ (m.writeCall value).toList := by
  rw [writeCall]
  split <;> simp [String.toList_append]

theorem paren_mem_of_migrateRead? {field t : String} (h : m.migrateRead? cfg field = some t) :
    '(' ∈ t.toList := by
  rw [migrateRead?] at h
  split at h
  · split at h
    · cases h
      simp [String.toList_append]
    · cases h
  · split at h
    · cases h
    · cases h
      simp [String.toList_append]

/-- The last call is there. -/
theorem mem_of_callsMade {calls : List (String × String)} {text new : List Char} {c : Char}
    (h : CallsMade calls text new) (hsome : calls ≠ [])
    (hmem : ∀ call ∈ calls, c ∈ call.2.toList) : c ∈ new := by
  induction h with
  | nil => exact absurd rfl hsome
  | @cons call calls before after text hrest ih =>
      cases calls with
      | nil =>
          cases hrest
          simp [hmem call List.mem_cons_self]
      | cons call' calls =>
          exact ih (List.cons_ne_nil _ _) fun c hc => hmem c (List.mem_cons_of_mem _ hc)

/-- A line on which uses were migrated is not blank. -/
theorem UsesMade.isBlankLine {new : String} (h : m.UsesMade cfg ms line new)
    (huse : ms.any (·.1.isUse) = true) : Text.isBlankLine new = false := by
  obtain ⟨text, hcalls, hreads⟩ := h.made
  -- A read or a write becomes a call, and a call has a parenthesis.
  refine isBlankLine_of_mem (c := '(') ?_ (by decide)
  split at hreads
  · obtain ⟨r, hr⟩ := hreads.read
    obtain ⟨t, ht⟩ := Option.isSome_iff_exists.1 (hreads.fits r hr)
    rw [hreads.made]
    refine List.mem_flatMap.2 ⟨_, hr, ?_⟩
    simp only [ht, Option.getD_some]
    exact paren_mem_of_migrateRead? ht
  · rename_i hread
    obtain ⟨a, ha, hause⟩ := List.any_eq_true.1 huse
    have hset : a.1 = .set := by
      rw [Role.isUse, Bool.or_eq_true, beq_iff_eq] at hause
      exact hause.resolve_left fun htyped => hread (List.any_eq_true.2 ⟨a, ha, htyped⟩)
    obtain ⟨call, hcall⟩ := Option.isSome_iff_exists.1 (h.sites a ha hset)
    rw [hreads]
    refine mem_of_callsMade hcalls
      (List.ne_nil_of_mem (List.mem_filterMap.2 ⟨a, ha, hcall⟩)) ?_
    intro call hcall
    obtain ⟨b, -, hb⟩ := List.mem_filterMap.1 hcall
    rw [call?] at hb
    split at hb
    · obtain ⟨site, -, rfl⟩ := Option.map_eq_some_iff.1 hb
      exact m.paren_mem_writeCall site.value
    · cases hb

end Migration

/-- The lines that a plan puts in the place of any other; work that is left marks the first. -/
def LinePlan.generated (plan : LinePlan) : List String :=
  match plan.whole.toList ++ plan.latch.toList with
  | [] => []
  | text :: rest => (if plan.mark then Diff.mark ++ text else text) :: rest

namespace Migration

/-- A text that is put in the place of another is there, also when it is the same. -/
theorem rowsAfter_replace (text line : String) :
    LineEdit.rowsAfter (if text != line then some (.replace text) else none) line = [text] := by
  by_cases h : text = line
  · simp [h, LineEdit.rowsAfter]
  · simp [h, LineEdit.rowsAfter, LineEdit.rows]

/-- Where something else comes for a line, nothing is left of it. -/
theorem outcome_of_hides (m : Migration) (cfg : Settings) (line : String)
    (h : ms.any m.hides = true) :
    m.outcome cfg ms line = (m.planOf line ms).generated := by
  rw [← m.planOf_replaces line, LinePlan.replaces] at h
  rw [outcome, editFor?, LinePlan.generated]
  generalize m.planOf line ms = plan at h ⊢
  obtain ⟨delete, whole, latch, calls, migrateReads, mark⟩ := plan
  -- A new text wins over a latch, and a latch over deletion.
  cases whole with
  | none =>
      cases latch with
      | none =>
          obtain rfl : delete = true := by simpa using h
          rfl
      | some latch => exact rowsAfter_replace (if mark then Diff.mark ++ latch else latch) line
  | some whole =>
      cases latch with
      | none => exact rowsAfter_replace (if mark then Diff.mark ++ whole else whole) line
      | some latch => rfl

/-- Where nothing else comes for a line, it is migrated, and marked if work is left. -/
theorem outcome_of_not_hides (m : Migration) (cfg : Settings) (line : String)
    (h : ms.any m.hides = false) :
    m.outcome cfg ms line =
      [if (m.migrateLine cfg (m.planOf line ms) line).2 || ms.any m.marks then
        Diff.mark ++ (m.migrateLine cfg (m.planOf line ms) line).1
      else (m.migrateLine cfg (m.planOf line ms) line).1] := by
  rw [← m.planOf_replaces line, LinePlan.replaces] at h
  rw [outcome, editFor?, ← m.planOf_mark line]
  generalize m.planOf line ms = plan at h ⊢
  obtain ⟨delete, whole, latch, calls, migrateReads, mark⟩ := plan
  obtain ⟨⟨rfl, rfl⟩, rfl⟩ : (whole = none ∧ latch = none) ∧ delete = false := by simpa using h
  exact rowsAfter_replace _ line

/-- What is not marked is done. -/
theorem usesMade_of_not_marked (hmarks : ms.any m.marks = false)
    (hline : (m.migrateLine cfg (m.planOf line ms) line).2 = false) :
    m.UsesMade cfg ms line (m.migrateLine cfg (m.planOf line ms) line).1 := by
  constructor
  · intro a ha hset
    have hmark := List.any_eq_false.1 hmarks a ha
    rw [marks, hset] at hmark
    rw [call?, hset, Option.isSome_map]
    cases hsite : m.record.writeAt? a.2 with
    | none => simp [hsite] at hmark
    | some site => rfl
  · rw [migrateLine, m.planOf_calls, m.planOf_migrateReads] at hline ⊢
    rcases hcalls : migrateCalls line.toList (ms.filterMap m.call?) with ⟨text, missing⟩
    simp only [hcalls] at hline ⊢
    cases hread : ms.any (·.1.isTypedRead) with
    | false =>
        obtain rfl : missing = false := by simpa [hread] using hline
        exact ⟨text, callsMade hcalls, by simp⟩
    | true =>
        rcases hreads : m.migrateReads cfg text with ⟨new, failed⟩
        simp only [hread, hreads, if_true, Bool.or_eq_false_iff] at hline ⊢
        obtain ⟨rfl, rfl⟩ := hline
        exact ⟨text, callsMade hcalls, by simpa using readsMade hreads⟩

/-- Where nothing else comes for a line with uses, these are migrated, or the line is marked. -/
theorem outcome_of_use (m : Migration) (cfg : Settings) (line : String)
    (huse : ms.any (·.1.isUse) = true) (h : ms.any m.hides = false) :
    ∃ new, m.outcome cfg ms line = [new] ∧ Text.isBlankLine new = false ∧
      (Text.startsWith new Diff.mark = true ∨ m.UsesMade cfg ms line new) := by
  refine ⟨_, m.outcome_of_not_hides cfg line h, ?_⟩
  split
  · rename_i hmark
    constructor
    · refine isBlankLine_of_mem (c := 'X') ?_ (by decide)
      simp [Diff.mark, String.toList_append]
    · left
      simp [Text.startsWith, Diff.mark, String.toList_append]
  · rename_i hmark
    rw [Bool.not_eq_true, Bool.or_eq_false_iff] at hmark
    have hmade := usesMade_of_not_marked hmark.2 hmark.1
    exact ⟨hmade.isBlankLine huse, .inr hmade⟩

/-- A line without a mention stays. -/
theorem outcome_nil (m : Migration) (cfg : Settings) (line : String) :
    m.outcome cfg [] line = [line] := by
  rw [outcome, planOf, List.foldl_nil, m.editFor?_none]
  rfl

/-- A patch holds what becomes of the lines of all files that are as they were first read, blank lines
apart. -/
def Carried (m : Migration) (cfg : Settings) (w : Workspace) (p : Patch) : Prop :=
  ∀ file base, w.held? file = some base → w.Current file base →
    Shows (fun i line => m.outcome cfg (m.record.mentionsAt (file, i + 1)) line) base
      ((p.copy? file).getD base)

/-- The patch of a migration of readable files can be made, and holds what becomes of their lines. -/
theorem exists_carried (m : Migration) (cfg : Settings) (context : Nat) (h : m.record.Readable w) :
    ∃ p w', (m.patch cfg context).on w = (.ok p, w') ∧ m.Carried cfg w' p := by
  obtain ⟨p, hpatch, -⟩ := m.exists_yields_patch cfg context h
  obtain ⟨w', hrun, -⟩ := hpatch w (.refl w)
  exact ⟨p, w', hrun, fun file base hheld hcurrent => m.patch_shows hrun hheld hcurrent⟩

/-- **What a migration makes of uses**: over readable files its patch can be made.  In a file that is as
it was first read, the patch leaves what became of every line, blank lines apart.  A line without a
mention stays.  On a line with a read or a write all uses are migrated, or the line is marked, unless
another mention puts something else in its place; then only this is left. -/
theorem patch_keeps_uses (cfg : Settings) (context : Nat) (h : m.record.Readable w) :
    ∃ p w', (m.patch cfg context).on w = (.ok p, w') ∧
      (∀ file base, w'.held? file = some base → w'.Current file base →
        Shows (fun i line => m.outcome cfg (m.record.mentionsAt (file, i + 1)) line) base
          ((p.copy? file).getD base)) ∧
      (∀ line, m.outcome cfg [] line = [line]) ∧
      ∀ ms line, ms.any (·.1.isUse) = true →
        (ms.any m.hides = false → ∃ new, m.outcome cfg ms line = [new] ∧
          Text.isBlankLine new = false ∧
          (Text.startsWith new Diff.mark = true ∨ m.UsesMade cfg ms line new)) ∧
        (ms.any m.hides = true → m.outcome cfg ms line = (m.planOf line ms).generated) := by
  obtain ⟨p, w', hrun, hcarried⟩ := m.exists_carried cfg context h
  refine ⟨p, w', hrun, hcarried, m.outcome_nil cfg, ?_⟩
  intro ms line huse
  exact ⟨m.outcome_of_use cfg line huse, m.outcome_of_hides cfg line⟩

/-- A file with a cvar that is registered, read and written. -/
def frameRate : List String :=
  ["cvar_t *fps;", "fps = Cvar_Get(\"fps\", \"40\", 0); msec = 1000 / fps->integer;",
    "Cvar_Set(\"fps\", \"20\"); half = fps->integer / 2;", "scale = fps->string;"]

/-- A workspace that holds the file. -/
def frameRateHeld : Workspace := (Workspace.ofDisk ⟨[], []⟩ false).holdLines ⟨"a.cpp"⟩ frameRate

/-- The migration of the cvar; it is read on the line where it is registered. -/
def frameRateMigration : Migration :=
  .ofRecord "fps" ⟨[(.define, [⟨⟨"a.cpp"⟩, 1, 9⟩]), (.get, [⟨⟨"a.cpp"⟩, 2, 7⟩]),
    (.int, [⟨⟨"a.cpp"⟩, 2, 49⟩, ⟨⟨"a.cpp"⟩, 3, 32⟩]), (.string, [⟨⟨"a.cpp"⟩, 4, 9⟩]),
    (.set, [⟨⟨"a.cpp"⟩, 3, 1⟩])], ["fps"], [], [], ["\"40\""],
    [(⟨⟨"a.cpp"⟩, 3, 1⟩, ⟨"\"20\"", "Cvar_Set(\"fps\", \"20\")"⟩)]⟩

/-- What the migration leaves of the file. -/
def frameRateMigrated : List String :=
  ["Cvar::Cvar<int> fps(\"fps\", \"\", Cvar::NONE, 40);", "fps.Set(20); half = fps.Get() / 2;",
    "XXX scale = fps->string;"]

theorem patch_keeps_uses_frameRate :
    frameRateMigration.record.Readable frameRateHeld ∧
      ∃ p w', (frameRateMigration.patch {} 3).on frameRateHeld = (.ok p, w') ∧
        (p.copy? ⟨"a.cpp"⟩).getD frameRate = frameRateMigrated ∧
        Shows (fun i line => frameRateMigration.outcome {}
          (frameRateMigration.record.mentionsAt (⟨"a.cpp"⟩, i + 1)) line) frameRate
            frameRateMigrated ∧
        ∃ new, frameRateMigration.outcome {} (frameRateMigration.record.mentionsAt (⟨"a.cpp"⟩, 3))
          "Cvar_Set(\"fps\", \"20\"); half = fps->integer / 2;" = [new] ∧
          Text.isBlankLine new = false := by
  have hfile : frameRateHeld.Readable ⟨"a.cpp"⟩ := ⟨frameRate, rfl⟩
  have hrecord : frameRateMigration.record.Readable frameRateHeld := by
    simpa [Record.Readable, Record.mentions, frameRateMigration, ofRecord] using hfile
  obtain ⟨p, w', hrun, hshows, -, huses⟩ :=
    patch_keeps_uses (m := frameRateMigration) {} 3 hrecord
  have hcopies : ((frameRateMigration.patch {} 3).on frameRateHeld).1.toOption.map
      (fun p => (p.copy? ⟨"a.cpp"⟩).getD frameRate) = some frameRateMigrated := by decide +kernel
  have hheld : ((frameRateMigration.patch {} 3).on frameRateHeld).2.held? ⟨"a.cpp"⟩ =
      some frameRate := by decide +kernel
  have hrereads : ((frameRateMigration.patch {} 3).on frameRateHeld).2.rereads = false := by
    decide +kernel
  rw [hrun] at hcopies hheld hrereads
  have hcopy : (p.copy? ⟨"a.cpp"⟩).getD frameRate = frameRateMigrated := Option.some.inj hcopies
  have hcurrent : w'.Current ⟨"a.cpp"⟩ frameRate := by
    rw [current_iff, hrereads]
    exact hheld
  have hshows := hshows _ _ hheld hcurrent
  rw [hcopy] at hshows
  obtain ⟨new, hnew, hblank, -⟩ := (huses
    (frameRateMigration.record.mentionsAt (⟨"a.cpp"⟩, 3))
    "Cvar_Set(\"fps\", \"20\"); half = fps->integer / 2;" (by decide +kernel)).1
    (by decide +kernel)
  exact ⟨hrecord, p, w', hrun, hcopy, hshows, new, hnew, hblank⟩

/-- A read is lost with the registration that shares its line: no line that is left holds the rest of
its line, or a mark in front of it. -/
theorem registration_hides_read :
    (frameRateMigration.record.mentionsAt (⟨"a.cpp"⟩, 2)).any (·.1.isUse) = true ∧
      (match (frameRateMigration.patch {} 3).on frameRateHeld with
        | (.ok p, _) => p.copy? ⟨"a.cpp"⟩ == some frameRateMigrated
        | _ => false) = true ∧
      ∀ line ∈ frameRateMigrated, Text.contains line "msec" = false := by
  decide +kernel

end Migration

end Cvar

end Upkeep
