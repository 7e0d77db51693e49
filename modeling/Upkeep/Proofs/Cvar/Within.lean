/-
**Patches of given files.**

An edit touches no file but the one it names, and a patch shows no file that it does not touch.  So the
patches for a cvar stay among the files of its mentions, and so do the diffs that are made of them.  Words
are only found in sources, whereas a syntax tree may be that of any file; so when a cvar is selected, it
is enough to look at the mentions that the trees show.

Main definitions:

* `Upkeep.Files.Work.Gives` — what all results of an operation have in common;
* `Upkeep.Patch.Within`, `Upkeep.Cvar.Record.Within` — patches and cvars of given files;
* `Upkeep.Diff.ShowsWithin` — texts of diffs of given files;
* `Upkeep.Cvar.Record.TextsWithin` — cvars whose mentions in texts are in given files.

Main results:

* `Upkeep.Patch.Within.edit`, `Upkeep.Patch.Within.render` — edits and texts of patches;
* `Upkeep.Cvar.gives_removal`, `Upkeep.Cvar.Migration.gives_patch` — **the patches for a cvar touch no
  files but those of its mentions**;
* `Upkeep.Cvar.textsWithin_of_analyzeFiles` — words are found in sources;
* `Upkeep.Cvar.Analysis.within_of_selected` — **all mentions of selected cvars are in sources**.
-/

import Upkeep.Proofs.Cvar.Removal
import Upkeep.Proofs.Patch.Reading

set_option relaxedAutoImplicit false
set_option autoImplicit false

namespace Upkeep

/-! ### Results of operations -/

namespace Files

variable {α β : Type} {m : Work α} {P Q : α → Prop} {R : β → Prop}

/-- Every result of the operation has the property. -/
def Work.Gives (m : Work α) (Q : α → Prop) : Prop := ∀ w a w', m.on w = (.ok a, w') → Q a

namespace Work.Gives

theorem pure {a : α} (h : Q a) : (Pure.pure a : Work α).Gives Q := by
  intro w b w' hon
  cases hon
  exact h

theorem trivial (m : Work α) : m.Gives fun _ => True := fun _ _ _ _ => ⟨⟩

theorem bind {k : α → Work β} (hm : m.Gives P) (hk : ∀ a, P a → (k a).Gives R) :
    (m >>= k).Gives R := by
  intro w b w' hon
  obtain ⟨a, w₁, ha, hb⟩ := on_bind_ok.1 hon
  exact hk a (hm w a w₁ ha) w₁ b w' hb

/-- An operation made of two, when it does not matter what comes of the first one. -/
theorem bind_any {k : α → Work β} (hk : ∀ a, (k a).Gives R) : (m >>= k).Gives R :=
  (trivial m).bind fun a _ => hk a

/-- An operation for the members of a list one after the other, with an invariant of the results. -/
theorem foldlM {γ : Type} {k : β → γ → Work β} {xs : List γ} {b : β} (hb : R b)
    (hk : ∀ b, R b → ∀ x ∈ xs, (k b x).Gives R) : (xs.foldlM k b).Gives R := by
  induction xs generalizing b with
  | nil => exact pure hb
  | cons x xs ih =>
      rw [List.foldlM_cons]
      exact (hk b hb x List.mem_cons_self).bind fun b₁ hb₁ =>
        ih hb₁ fun b' hb' x' hx' => hk b' hb' x' (List.mem_cons_of_mem _ hx')

end Work.Gives

end Files

open Files

/-! ### Patches -/

/-- The text of a diff in which every file is one of the given ones. -/
def Diff.ShowsWithin (files : List Path) (style : Diff.Style) (text : String) : Prop :=
  ∃ ps : Diff.PatchSet, text = Diff.render style ps ∧ ∀ f ∈ ps, f.path.isIn files = true

namespace Patch

variable {files : List Path} {p : Patch} {file : Path}

/-- Every file that the patch touches is one of the given ones. -/
def Within (files : List Path) (p : Patch) : Prop := ∀ f ∈ p.files, f.isIn files = true

theorem within_empty (files : List Path) (context : Nat) : (empty context).Within files := by
  simp [Within, Patch.files, empty]

theorem Within.load (h : p.Within files) (hfile : file.isIn files = true) :
    (p.load file).Gives (Within files) := by
  rw [Patch.load]
  cases p.copy? file with
  | some text => exact .pure h
  | none =>
      refine .bind_any fun text => .pure ?_
      intro f hf
      rw [Patch.files, List.map_append] at hf
      rcases List.mem_append.1 hf with hf | hf
      · exact h f hf
      · obtain rfl := List.mem_singleton.1 hf
        exact hfile

theorem Within.locate (h : p.Within files) (hfile : file.isIn files = true) (n : Nat) :
    (p.locate file n).Gives fun r => r.2.Within files := by
  refine .bind_any fun found => ?_
  cases found with
  | none => exact .pure h
  | some content => exact (h.load hfile).bind fun p' h' => .pure h'

/-- An edit touches the file that it names. -/
theorem Within.edit (h : p.Within files) (hfile : file.isIn files = true) (n : Nat) (e : LineEdit) :
    (p.edit file n e).Gives fun r => r.2.Within files := by
  refine (h.locate hfile n).bind fun ⟨place, p'⟩ h' => ?_
  cases place with
  | none => exact .pure h'
  | some i =>
      refine .pure ?_
      rwa [Within, files_modifyCopy]

/-- A patch shows files that it touches. -/
theorem Within.changes (h : p.Within files) :
    p.changes.Gives fun ps => ∀ f ∈ ps, f.path.isIn files = true := by
  intro w ps w' hon f hf
  obtain ⟨c, hc, now, hpath, -⟩ := exists_of_mem_changes hon hf
  rw [← hpath]
  exact h c.1 (List.mem_map_of_mem hc)

theorem Within.render (h : p.Within files) (style : Diff.Style) :
    (p.render style).Gives (Diff.ShowsWithin files style) :=
  h.changes.bind fun ps hps => .pure ⟨ps, rfl, hps⟩

end Patch

/-! ### Patches for a cvar -/

namespace Cvar

variable {files : List Path}

/-- All mentions of the cvar are in the given files. -/
def Record.Within (files : List Path) (r : Record) : Prop :=
  ∀ m ∈ r.mentions, m.2.file.isIn files = true

/-- The removal of a cvar touches files with mentions of it. -/
theorem gives_removal {r : Record} (h : r.Within files) (context : Nat) :
    (removal r context).Gives (Patch.Within files) := by
  refine .foldlM (Patch.within_empty files context) ?_
  rintro p hp ⟨file, line⟩ hline
  obtain ⟨mention, hmention, hkey⟩ := exists_of_mem_linesOf hline
  cases hkey
  exact (hp.edit (h mention hmention) _ _).bind fun r hr => .pure hr

namespace Migration

variable {m : Migration}

/-- What happens to the lines of a cvar happens in files with mentions of it. -/
theorem gives_plans (h : m.record.Within files) :
    m.plans.Gives fun plans => ∀ e ∈ plans, e.1.1.isIn files = true := by
  refine .foldlM (by simp) ?_
  intro plans hplans mention hmention
  refine .bind_any fun plan => .pure ?_
  refine Data.forall_mem_upsertBy hplans (h mention hmention) ?_
  intro k v hk _
  exact hk

theorem gives_applyPlan (m : Migration) (cfg : Settings) {p : Patch} (hp : p.Within files)
    {entry : LineKey × LinePlan} (h : entry.1.1.isIn files = true) :
    (m.applyPlan cfg p entry).Gives (Patch.Within files) := by
  obtain ⟨⟨file, n⟩, plan⟩ := entry
  rw [applyPlan]
  split
  · exact (hp.edit h n .delete).bind fun r hr => .pure hr
  · refine .bind_any fun found => ?_
    cases found with
    | none => exact .pure hp
    | some held =>
        cases he : m.editOf cfg plan held with
        | none =>
            simp only [he]
            exact .pure hp
        | some e =>
            simp only [he]
            exact (hp.edit h n e).bind fun r hr => .pure hr

/-- The migration of a cvar touches files with mentions of it. -/
theorem gives_patch (cfg : Settings) (context : Nat) (h : m.record.Within files) :
    (m.patch cfg context).Gives (Patch.Within files) :=
  (gives_plans h).bind fun _ hplans => .foldlM (Patch.within_empty files context)
    fun _ hp entry hentry => m.gives_applyPlan cfg hp (hplans entry hentry)

end Migration

/-! ### Mentions in texts -/

/-- All mentions of the cvar in texts are in the given files. -/
def Record.TextsWithin (files : List Path) (r : Record) : Prop :=
  ∀ o, (.text, o) ∈ r.mentions → o.file.isIn files = true

namespace Record

variable {r : Record}

/-- A mention was there before, or is the new one. -/
theorem mem_mentions_of_add {role : Role} {o : Occurrence} {m : Mention}
    (h : m ∈ (r.add role o).mentions) : m ∈ r.mentions ∨ m = (role, o) := by
  obtain ⟨⟨role', ps⟩, hps, hm⟩ := List.mem_flatMap.1 h
  rcases Data.mem_upsertBy hps with hold | hnew | ⟨role'', ps', hold, hrole, hnew⟩
  · exact .inl (List.mem_flatMap.2 ⟨_, hold, hm⟩)
  · cases hnew
    obtain ⟨p, hp, rfl⟩ := List.mem_map.1 hm
    rw [Option.getD_none, Places.insert_nil, List.mem_singleton] at hp
    exact .inr (congrArg _ hp)
  · obtain rfl := Std.LawfulEqCmp.eq_of_compare hrole
    cases hnew
    obtain ⟨p, hp, rfl⟩ := List.mem_map.1 hm
    rcases Data.mem_insertBy hp with rfl | hp
    · exact .inr rfl
    · exact .inl (List.mem_flatMap.2 ⟨_, hold, List.mem_map_of_mem hp⟩)

/-- The clearing of table lines brings no mention. -/
theorem mem_mentions_of_scrub {m : Mention} (h : m ∈ r.scrub.mentions) : m ∈ r.mentions := by
  obtain ⟨e, he, hm⟩ := List.mem_flatMap.1 h
  obtain ⟨⟨role, ps⟩, hold, rfl⟩ := List.mem_map.1 he
  refine List.mem_flatMap.2 ⟨_, hold, ?_⟩
  obtain ⟨p, hp, rfl⟩ := List.mem_map.1 hm
  split at hp
  · exact List.mem_map_of_mem hp
  · exact List.mem_map_of_mem (List.mem_of_mem_filter hp)

theorem TextsWithin.add (h : r.TextsWithin files) {role : Role} {o : Occurrence}
    (ho : role = .text → o.file.isIn files = true) : (r.add role o).TextsWithin files := by
  intro p hp
  rcases mem_mentions_of_add hp with hp | hp
  · exact h p hp
  · cases hp
    exact ho rfl

theorem TextsWithin.scrub (h : r.TextsWithin files) : r.scrub.TextsWithin files :=
  fun o ho => h o (mem_mentions_of_scrub ho)

end Record

/-- Recording finds no mentions in texts. -/
theorem kept_textsWithin (files : List Path) :
    Ledger.Kept (Record.TextsWithin files) (fun _ => True) fun _ => True where
  empty := by simp [Record.TextsWithin]
  add _ _ hrole h := h.add fun heq => absurd heq hrole
  note _ h := h
  noteBounds _ h := h
  write {_ o _} _ _ h := by
    have hadd : (Record.add _ .set o).TextsWithin files := h.add (by simp)
    exact hadd

/-- Words are found in sources. -/
theorem textsWithin_of_analyzeFiles {d : Disk} {cfg : Settings} {request : Request}
    {sources : List Path} {parsed : List Cpp.Source} {a : Analysis}
    (h : analyzeFiles d cfg request sources parsed = .ok a) :
    a.sources = sources ∧ ∀ s ∈ a.ledger.symbols, s.2.TextsWithin sources := by
  constructor
  · obtain ⟨findings, -, -, hsources⟩ := analyzeFiles_ok h
    exact hsources
  · exact (kept_textsWithin sources).of_analyzeFiles
      (fun ho hr => hr.add fun _ => Path.isIn_of_mem ho) (fun hr => hr.scrub)
      (fun _ _ _ _ => ⟨⟩) (fun _ _ _ _ => ⟨⟩) h

/-! ### Selected cvars -/

namespace Analysis

variable {a : Analysis} {filter : String} {names : List String}

/-- A cvar that is in use by a source proper, or not, is mentioned in sources alone. -/
theorem within_of_usedBySource {r : Record} (htexts : r.TextsWithin a.sources) {used : Bool}
    (h : a.usedBySource r = .ok used) : r.Within a.sources := by
  rw [usedBySource] at h
  cases houtside : r.parsedMentions.find? fun m => !m.2.file.isIn a.sources with
  | some m =>
      rw [houtside] at h
      cases h
  | none =>
      rintro ⟨role, o⟩ hm
      by_cases hrole : role = .text
      · subst hrole
        exact htexts o hm
      · have hparsed : (role, o) ∈ r.parsedMentions :=
          List.mem_filter.2 ⟨hm, by simpa [Role.isParsed] using hrole⟩
        simpa using List.find?_eq_none.1 houtside _ hparsed

/-- **All mentions of selected cvars are in sources**, if all words are found there. -/
theorem within_of_selected (htexts : ∀ s ∈ a.ledger.symbols, s.2.TextsWithin a.sources)
    (h : a.selected filter = .ok names) {name : String} (hname : name ∈ names) {r : Record}
    (hget : a.ledger.get? name = some r) : r.Within a.sources := by
  obtain ⟨kept, hkept, h⟩ := Outcome.bind_ok.1 h
  cases h
  obtain ⟨hall, rfl⟩ := filterM_ok hkept
  obtain ⟨s, hs, rfl⟩ := List.mem_map.1 hname
  have hmem : (s.1, r) ∈ a.ledger.symbols := Data.mem_of_lookupBy hget
  -- The filter looks at the name alone.
  have hfilter := (List.mem_filter.1 (List.mem_of_mem_filter hs)).2
  obtain ⟨used, hused⟩ := hall (s.1, r) (List.mem_filter.2 ⟨hmem, hfilter⟩)
  exact within_of_usedBySource (htexts _ hmem) hused

/-- A selection fails at a mention outside of the sources. -/
theorem outside_of_selected {e : Failure} (h : a.selected filter = .error e) :
    ∃ s ∈ a.ledger.symbols, ∃ m ∈ s.2.parsedMentions,
      m.2.file.isIn a.sources = false ∧ e = .outsideSources m.2.file := by
  rw [selected, Outcome.bind_error] at h
  obtain herror | ⟨kept, -, h⟩ := h
  case inr => cases h
  obtain ⟨s, hs, he⟩ := exists_error_of_filterM herror
  rw [usedBySource] at he
  cases houtside : s.2.parsedMentions.find? fun m => !m.2.file.isIn a.sources with
  | none =>
      rw [houtside] at he
      cases he
  | some m =>
      rw [houtside] at he
      cases he
      exact ⟨s, List.mem_of_mem_filter hs, m, List.mem_of_find?_eq_some houtside,
        by simpa using List.find?_some houtside, rfl⟩

end Analysis

end Cvar

end Upkeep
