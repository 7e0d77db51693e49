/-
**Reports stay in the sources.**

Everything that happens at a desk is an event of its log, also when the report fails later on, and the
files of a diff can be told from the event that prints, shows or hands it over.  A report begins with the
selection of its cvars, which is the only step that looks whether mentions are in sources.  If it fails,
nothing has happened; otherwise all mentions of the cvars are in sources, and the dialogues about
them never leave their files, whatever is answered.

Main definitions:

* `Upkeep.Review.Session.Ensures` — what all events and results of an operation have in common;
* `Upkeep.Review.Remark` — what a report tells beside diffs;
* `Upkeep.Review.Confined`, `Upkeep.Review.Grown` — events in which diffs are of given files, and logs
  that grow by such events.

Main results:

* `Upkeep.Review.Session.Ensures.bind` — operations made of others;
* `Upkeep.Review.ensures_reviewRemoval`, `Upkeep.Review.ensures_reviewMigration` — **dialogues about
  patches of given files are confined to them**;
* `Upkeep.Review.report_confined` — **a report fails before anything happens, or it is confined to the
  sources**.
-/

import Upkeep.Proofs.Cvar.Within
import Upkeep.Proofs.Review.Transcript
import Upkeep.Review.Report

set_option relaxedAutoImplicit false
set_option autoImplicit false

namespace Upkeep

namespace Review

open Cvar Files

/-! ### Events -/

/-- What a report tells beside the diffs that it prints. -/
inductive Remark (l : Ledger) : String → Prop where
  /-- The mentions of a cvar are listed. -/
  | listing {name text : String} {r : Record} {w : Workspace} (hget : l.get? name = some r)
      (htext : ((listing name r).on w).1 = .ok text) : Remark l text
  /-- What is known of its use is told. -/
  | banner {v : Verdict} {text : String} (h : v.banner? = some text) : Remark l (text ++ "\n")
  | blank : Remark l "\n"
  | unknownType : Remark l "unknown type\n"

/-- What may happen in a report after some events, when the diffs in it are of given files. -/
inductive Confined (files : List Path) (l : Ledger) : List Event → Event → Prop where
  | remark {log : List Event} {text : String} (h : Remark l text) : Confined files l log (.told text)
  /-- A diff is printed. -/
  | printed {log : List Event} {style : Diff.Style} {text : String}
      (h : Diff.ShowsWithin files style text) : Confined files l log (.told text)
  | showed {log : List Event} {style : Diff.Style} {p : Patch} {text : String} (hp : p.Within files)
      (h : Diff.ShowsWithin files style text) : Confined files l log (.showed p text)
  | asked (log : List Event) (text : String) : Confined files l log (.asked text)
  | answered (log : List Event) (line : String) : Confined files l log (.answered line)
  | called {log : List Event} {c : Call} (h : Diff.ShowsWithin files .plain c.diff)
      (failure : Option ApplyFailure) : Confined files l log (.called c failure)
  /-- The failure of the call before is told. -/
  | failed (log : List Event) (c : Call) (f : ApplyFailure) :
      Confined files l (.called c (some f) :: log) (.told (f.message ++ "\n"))

/-- A log that has grown by events each of which may happen after those before. -/
inductive Grown (E : List Event → Event → Prop) (old : List Event) : List Event → Prop where
  | start : Grown E old old
  | event {log : List Event} {e : Event} (h : Grown E old log) (he : E log e) : Grown E old (e :: log)

theorem Grown.trans {E : List Event → Event → Prop} {old log log' : List Event}
    (h : Grown E old log) (h' : Grown E log log') : Grown E old log' := by
  induction h' with
  | start => exact h
  | event _ he ih => exact ih.event he

/-! ### Operations at a desk -/

section Ensures

variable {α β : Type} {E : List Event → Event → Prop} {P Q : α → Prop} {R : β → Prop}

/-- Whether the operation succeeds or not, the log grows by such events alone, and every result has the
property. -/
def Session.Ensures (s : Session α) (E : List Event → Event → Prop) (Q : α → Prop) : Prop :=
  ∀ d r d', s.on d = (r, d') → Grown E d.log d'.log ∧ ∀ a, r = .ok a → Q a

namespace Session.Ensures

theorem pure {a : α} (h : Q a) : Session.Ensures (Pure.pure a) E Q := by
  intro d r d' hon
  cases hon
  refine ⟨.start, ?_⟩
  rintro b ⟨⟩
  exact h

/-- An operation made of two. -/
theorem bind {s : Session α} {k : α → Session β} (hs : s.Ensures E P)
    (hk : ∀ a, P a → (k a).Ensures E R) : (s >>= k).Ensures E R := by
  intro d r d'' hon
  rw [on_bind_eq] at hon
  cases hrun : s.on d with
  | mk result d' =>
      rw [hrun] at hon
      obtain ⟨hlog, hresult⟩ := hs d result d' hrun
      cases result with
      | error e =>
          cases hon
          exact ⟨hlog, by simp⟩
      | ok a =>
          obtain ⟨hlog', hresult'⟩ := hk a (hresult a rfl) d' r d'' hon
          exact ⟨hlog.trans hlog', hresult'⟩

end Session.Ensures

/-- An operation on the workspace leaves no event. -/
theorem ensures_work {m : Work α} (hm : m.Gives Q) : (work m).Ensures E Q := by
  intro d r d' hon
  rw [on_work_eq] at hon
  cases hon
  exact ⟨.start, fun a ha => hm _ _ _ (Prod.ext ha rfl)⟩

theorem ensures_get : (get : Session Desk).Ensures E fun _ => True := by
  intro d r d' hon
  cases hon
  exact ⟨.start, fun _ _ => ⟨⟩⟩

theorem ensures_note {e : Event} (he : ∀ log, E log e) : (note e).Ensures E fun _ => True := by
  intro d r d' hon
  cases hon
  exact ⟨.event .start (he d.log), fun _ _ => ⟨⟩⟩

end Ensures

variable {files : List Path} {l : Ledger} {p : Patch} {m : Migration} {diff : String}

/-! ### Dialogues -/

theorem ensures_say {text : String} (h : Remark l text) :
    (say text).Ensures (Confined files l) fun _ => True :=
  ensures_note fun _ => .remark h

theorem ensures_prompt (color : Bool) (question : String) :
    (prompt color question).Ensures (Confined files l) fun _ => True :=
  ensures_note fun log => .asked log _

theorem ensures_promptChoice (color : Bool) (question : String) (options : List String) :
    (promptChoice color question options).Ensures (Confined files l) fun _ => True :=
  ensures_prompt color _

theorem ensures_hear (line : String) (rest : List String) :
    (hear line rest).Ensures (Confined files l) fun _ => True := by
  intro d r d' hon
  cases hon
  exact ⟨.event .start (.answered d.log line), fun _ _ => ⟨⟩⟩

/-- What is handed over is a diff of the files. -/
theorem ensures_apply (h : Diff.ShowsWithin files .plain diff) (edit : Bool) :
    (apply diff edit).Ensures (Confined files l) fun _ => True := by
  intro d r d' hon
  refine ⟨?_, fun _ _ => ⟨⟩⟩
  rcases hanswer : d.applier.answer d.workspace.disk ⟨diff, edit⟩ with ⟨failure, applier, disk⟩
  have hget : (get : Session Desk).on d = (.ok d, d) := rfl
  have hcalled : Grown (Confined files l) d.log (.called ⟨diff, edit⟩ failure :: d.log) :=
    .event .start (.called h failure)
  rw [apply, on_bind_eq, hget] at hon
  simp only [hanswer] at hon
  cases failure with
  | none =>
      cases hon
      exact hcalled
  | some f =>
      cases hon
      exact hcalled.event (.failed d.log ⟨diff, edit⟩ f)

/-- A patch of the files is shown, and its text is a diff of the files. -/
theorem ensures_present (color : Bool) (hp : p.Within files) :
    (present color p).Ensures (Confined files l) (Diff.ShowsWithin files .plain) :=
  (ensures_work (hp.render _)).bind fun _ htext => (ensures_note fun _ => .showed hp htext).bind fun _ _ =>
    ensures_work (hp.render .plain)

/-- The dialogue about a removal begins with the patch, and what follows is confined to its files. -/
theorem exists_removalLoop_eq (color : Bool) (answers : List String) (hp : p.Within files) :
    ∃ k : String → Session (Ending × Patch), removalLoop color answers p = present color p >>= k ∧
      ∀ diff, Diff.ShowsWithin files .plain diff →
        (k diff).Ensures (Confined files l) fun _ => True := by
  induction answers generalizing p with
  | nil => exact ⟨_, rfl, fun _ _ => (ensures_promptChoice color _ _).bind fun _ _ => .pure ⟨⟩⟩
  | cons a rest ih =>
      have hrest : ∀ {p : Patch}, p.Within files →
          (removalLoop color rest p).Ensures (Confined files l) fun _ => True := by
        intro p hp
        obtain ⟨k, heq, hk⟩ := ih hp
        rw [heq]
        exact (ensures_present color hp).bind hk
      have happly : ∀ {diff}, Diff.ShowsWithin files .plain diff → ∀ edit : Bool, Session.Ensures (do
          if ← apply diff edit then return (.applied, p) else removalLoop color rest p)
          (Confined files l) fun _ => True := by
        intro diff hdiff edit
        refine (ensures_apply hdiff edit).bind fun applied _ => ?_
        cases applied with
        | true => exact .pure ⟨⟩
        | false => exact hrest hp
      refine ⟨_, rfl, fun diff hdiff => (ensures_promptChoice color _ _).bind fun _ _ =>
        (ensures_hear a rest).bind fun _ _ => ?_⟩
      split
      · exact happly hdiff false
      · exact happly hdiff true
      · exact .pure ⟨⟩
      · exact hrest hp
      · exact hrest hp

theorem ensures_removalLoop (color : Bool) (answers : List String) (hp : p.Within files) :
    (removalLoop color answers p).Ensures (Confined files l) fun _ => True := by
  obtain ⟨k, heq, hk⟩ := exists_removalLoop_eq color answers hp
  rw [heq]
  exact (ensures_present color hp).bind hk

/-- **The dialogue about a removal is confined to the files of its patch.** -/
theorem ensures_reviewRemoval (color : Bool) (hp : p.Within files) :
    (reviewRemoval color p).Ensures (Confined files l) fun _ => True :=
  ensures_get.bind fun d _ => ensures_removalLoop color d.answers hp

theorem ensures_askType (color : Bool) (answers : List String) :
    (askType color answers).Ensures (Confined files l) fun _ => True := by
  unfold askType
  refine (ensures_prompt color _).bind fun _ _ => ?_
  cases answers with
  | nil => exact .pure ⟨⟩
  | cons a rest =>
      refine (ensures_hear a rest).bind fun _ _ => ?_
      split
      · refine (ensures_prompt color _).bind fun _ _ => ?_
        cases rest with
        | nil => exact .pure ⟨⟩
        | cons lo rest =>
            refine (ensures_hear lo rest).bind fun _ _ => (ensures_prompt color _).bind fun _ _ => ?_
            cases rest with
            | nil => exact .pure ⟨⟩
            | cons hi rest => exact (ensures_hear hi rest).bind fun _ _ => .pure ⟨⟩
      · exact .pure ⟨⟩

/-- A round of the dialogue about the type begins with the patch, and what follows is confined to its
files if the rounds after it are. -/
theorem exists_chooseType_eq (color : Bool) (cfg : Settings) (context : Nat) {budget : Nat}
    (ih : ∀ (answers : List String) (m : Migration), m.record.Within files →
      (chooseType color cfg context budget answers m).Ensures (Confined files l)
        fun r => r.2.1.record.Within files)
    (answers : List String) (h : m.record.Within files) :
    ∃ k : Patch → String → Session (Option Ending × Migration × List String),
      chooseType color cfg context (budget + 1) answers m =
        (do let p ← work (m.patch cfg context); let diff ← present color p; k p diff) ∧
      ∀ p diff, (k p diff).Ensures (Confined files l) fun r => r.2.1.record.Within files := by
  refine ⟨_, rfl, fun p diff => (ensures_promptChoice color _ _).bind fun _ _ => ?_⟩
  cases answers with
  | nil => exact .pure h
  | cons a rest =>
      refine (ensures_hear a rest).bind fun _ _ => ?_
      split
      · exact .pure h
      · exact .pure h
      · refine (ensures_askType color rest).bind fun ⟨answer, rest⟩ _ => ?_
        cases answer with
        | type t => exact ih rest { m with type := t } h
        | unknown => exact (ensures_say .unknownType).bind fun _ _ => ih rest m h
        | nothing => exact .pure h
      · exact ih rest m h

/-- Another type does not change the mentions of a cvar. -/
theorem ensures_chooseType (color : Bool) (cfg : Settings) (context budget : Nat)
    (answers : List String) (h : m.record.Within files) :
    (chooseType color cfg context budget answers m).Ensures (Confined files l)
      fun r => r.2.1.record.Within files := by
  induction budget generalizing answers m with
  | zero => exact .pure h
  | succ budget ih =>
      obtain ⟨k, heq, hk⟩ := exists_chooseType_eq color cfg context (fun _ _ hm => ih _ hm) answers h
      rw [heq]
      exact (ensures_work (Migration.gives_patch cfg context h)).bind fun p hp =>
        (ensures_present color hp).bind fun diff _ => hk p diff

theorem ensures_retry (color : Bool) (answers : List String) (h : Diff.ShowsWithin files .plain diff) :
    (retry color diff answers).Ensures (Confined files l) fun _ => True := by
  induction answers with
  | nil => exact (ensures_promptChoice color _ _).bind fun _ _ => .pure ⟨⟩
  | cons a rest ih =>
      rw [retry]
      refine (ensures_promptChoice color _ _).bind fun _ _ => (ensures_hear a rest).bind fun _ _ => ?_
      split
      · refine (ensures_apply h true).bind fun applied _ => ?_
        cases applied with
        | true => exact .pure ⟨⟩
        | false => exact ih
      · exact .pure ⟨⟩
      · exact ih

theorem ensures_offer (color : Bool) (answers : List String) (h : Diff.ShowsWithin files .plain diff) :
    (offer color diff answers).Ensures (Confined files l) fun _ => True := by
  induction answers with
  | nil => exact (ensures_promptChoice color _ _).bind fun _ _ => .pure ⟨⟩
  | cons a rest ih =>
      have happly : ∀ edit : Bool, Session.Ensures (do
          if ← apply diff edit then return .applied else retry color diff rest)
          (Confined files l) fun _ => True := by
        intro edit
        refine (ensures_apply h edit).bind fun applied _ => ?_
        cases applied with
        | true => exact .pure ⟨⟩
        | false => exact ensures_retry color rest h
      rw [offer]
      refine (ensures_promptChoice color _ _).bind fun _ _ => (ensures_hear a rest).bind fun _ _ => ?_
      split
      · exact happly false
      · exact happly true
      · exact .pure ⟨⟩
      · exact ih

/-- The dialogue about a migration begins with that about the type, and what follows is confined to the
files with mentions of the cvar. -/
theorem exists_reviewMigration_eq (files : List Path) (color : Bool) (cfg : Settings) (context : Nat)
    (m : Migration) :
    ∃ k : Option Ending × Migration × List String → Session (Ending × Migration),
      reviewMigration color cfg context m =
        (do let d ← get; chooseType color cfg context (d.answers.length + 1) d.answers m >>= k) ∧
      ∀ r, r.2.1.record.Within files → (k r).Ensures (Confined files l) fun _ => True := by
  refine ⟨_, rfl, ?_⟩
  rintro ⟨ending, m', rest⟩ hm'
  cases ending with
  | some ending => exact .pure ⟨⟩
  | none =>
      refine (ensures_prompt color _).bind fun _ _ => ?_
      cases rest with
      | nil => exact .pure ⟨⟩
      | cons line rest =>
          refine (ensures_hear line rest).bind fun _ _ => ?_
          have hdescribed : ({ m' with description := answerText line } : Migration).record.Within files :=
            hm'
          refine (ensures_work (Migration.gives_patch cfg context hdescribed)).bind fun p hp => ?_
          refine (ensures_present color hp).bind fun diff hdiff => ?_
          exact (ensures_offer color rest hdiff).bind fun _ _ => .pure ⟨⟩

/-- **The dialogue about a migration is confined to the files with mentions of the cvar.** -/
theorem ensures_reviewMigration (color : Bool) (cfg : Settings) (context : Nat)
    (h : m.record.Within files) :
    (reviewMigration color cfg context m).Ensures (Confined files l) fun _ => True := by
  obtain ⟨k, heq, hk⟩ := exists_reviewMigration_eq files color cfg context m
  rw [heq]
  exact ensures_get.bind fun d _ => (ensures_chooseType color cfg context _ _ h).bind hk

/-! ### Reports -/

section Report

variable {r : Record} {name : String}

theorem ensures_removal (pr : Presenter) (hp : p.Within files) :
    (pr.removal p).Ensures (Confined files l) fun _ => True := by
  cases pr with
  | printer style =>
      exact (ensures_work (hp.render style)).bind fun text htext =>
        (ensures_note fun _ => .printed htext).bind fun _ _ => .pure ⟨⟩
  | reviewer color => exact (ensures_reviewRemoval color hp).bind fun _ _ => .pure ⟨⟩

theorem ensures_migration (pr : Presenter) (cfg : Settings) (context : Nat)
    (h : m.record.Within files) :
    (pr.migration cfg context m).Ensures (Confined files l) fun _ => True := by
  cases pr with
  | printer style =>
      have htext := (Migration.gives_patch cfg context h).bind fun p hp => hp.render style
      exact (ensures_work htext).bind fun text htext =>
        (ensures_note fun _ => .printed htext).bind fun _ _ => .pure ⟨⟩
  | reviewer color => exact (ensures_reviewMigration color cfg context h).bind fun _ _ => .pure ⟨⟩

/-- The report on a cvar is confined to the files with mentions of it. -/
theorem ensures_reportOne (pr : Presenter) (cfg : Settings) (request : ReportRequest)
    (hget : l.get? name = some r) (h : r.Within files) :
    (reportOne pr cfg request name r).Ensures (Confined files l) fun _ => True := by
  have hlisting : (listing name r).Gives (Remark l) := by
    intro w text w' hon
    exact .listing hget (w := w) (by rw [hon])
  have hend : ∀ {s : Session Ending}, (s.Ensures (Confined files l) fun _ => True) →
      Session.Ensures (do let ending ← s; say "\n"; return ending) (Confined files l) fun _ => True :=
    fun hs => hs.bind fun _ _ => (ensures_say .blank).bind fun _ _ => .pure ⟨⟩
  unfold reportOne
  refine (ensures_work hlisting).bind fun text htext => (ensures_say htext).bind fun _ _ => ?_
  have hremoval := (ensures_work (gives_removal h request.context)).bind fun p hp =>
    hend (ensures_removal pr hp)
  have hmigration := hend (ensures_migration pr cfg request.context (m := .ofRecord name r) h)
  have hnothing := hend (s := pure .skipped) (.pure ⟨⟩)
  cases hbanner : (classify cfg.policy r).banner? with
  | none =>
      simp only [hbanner]
      cases offerFor request.migrate (classify cfg.policy r) with
      | removal => exact hremoval
      | migration => exact hmigration
      | nothing => exact hnothing
  | some banner =>
      simp only [hbanner]
      refine (ensures_say (.banner hbanner)).bind fun _ _ => ?_
      cases offerFor request.migrate (classify cfg.policy r) with
      | removal => exact hremoval
      | migration => exact hmigration
      | nothing => exact hnothing

theorem ensures_reportAll (pr : Presenter) (cfg : Settings) (request : ReportRequest)
    {names : List String} (h : ∀ name ∈ names, ∀ r, l.get? name = some r → r.Within files) :
    (reportAll pr cfg request l names).Ensures (Confined files l) fun _ => True := by
  induction names with
  | nil => exact .pure ⟨⟩
  | cons name names ih =>
      have hrest := ih fun name' hname' => h name' (List.mem_cons_of_mem _ hname')
      rw [reportAll]
      cases hget : l.get? name with
      | none => exact hrest
      | some r =>
          have hone : (reportOne pr cfg request name r).Ensures (Confined files l) fun _ => True :=
            ensures_reportOne pr cfg request hget (h name List.mem_cons_self r hget)
          refine hone.bind fun ending _ => ?_
          split
          · exact hrest
          · exact .pure ⟨⟩

end Report

/-- **A report fails before anything happens, or it is confined to the sources**: of every analysis,
whatever is asked for and wherever patches go, the report ends with a mention outside of the
sources before anything is told, shown or handed over; or all files of all diffs that are printed,
shown or handed over are sources, also if the report fails later on. -/
theorem report_confined {grammar : Compile.Grammar} {d : Disk} {cfg : Settings}
    {ignore : List String} {asked : Request} {a : Analysis}
    (h : analyze grammar d cfg ignore asked = .ok a) (pr : Presenter) (cfg' : Settings)
    (request : ReportRequest) (desk : Desk) :
    (∃ f, f.isIn a.sources = false ∧
      (report pr cfg' request a).on desk = (.error (.outsideSources f), desk)) ∨
    ∃ outcome desk', (report pr cfg' request a).on desk = (outcome, desk') ∧
      Grown (Confined a.sources a.ledger) desk.log desk'.log := by
  obtain ⟨db, -, h⟩ := Outcome.bind_ok.1 h
  obtain ⟨sources, -, h⟩ := Outcome.bind_ok.1 h
  obtain ⟨parsed, -, h⟩ := Outcome.bind_ok.1 h
  obtain ⟨rfl, htexts⟩ := textsWithin_of_analyzeFiles h
  cases hselected : a.selected request.filter with
  | error e =>
      left
      obtain ⟨s, -, m, -, hm, rfl⟩ := Analysis.outside_of_selected hselected
      refine ⟨m.2.file, hm, ?_⟩
      rw [report, hselected]
      rfl
  | ok names =>
      right
      have hnames : ∀ name ∈ names, ∀ r, a.ledger.get? name = some r → r.Within a.sources :=
        fun name hname r hget => Analysis.within_of_selected htexts hselected hname hget
      have hreport : (report pr cfg' request a).on desk =
          (reportAll pr cfg' request a.ledger names).on desk := by
        rw [report, hselected]
        rfl
      exact ⟨_, _, hreport, (ensures_reportAll pr cfg' request hnames desk _ _ rfl).1⟩

/-- A checkout with one source. -/
def checkout (text : String) : Disk :=
  ⟨[(["p", "build", "compile_commands.json"], .file ("[\x7b\"directory\": \"/p/build\", " ++
      "\"file\": \"/p/src/a.cpp\", \"arguments\": [\"c++\", \"/p/src/a.cpp\"]\x7d]").toUTF8),
    (["p", "src", "a.cpp"], .file text.toUTF8)], ["p"]⟩

/-- A cvar that is defined and not used. -/
def unused : Cpp.Source := sourceOf "vmCvar_t a;\n" (definitionRows 0 1)

/-- The diff that removes it. -/
def unusedDiff : String := "--- /p/src/a.cpp\n+++ /p/src/a.cpp\n@@ -1 +0,0 @@\n-vmCvar_t a;\n"

theorem report_confined_applied :
    ∃ a outcome desk', analyze (fun _ _ => unused.tree) (checkout unused.text) {} []
        ⟨⟨"/p/build"⟩, "", true, false⟩ = .ok a ∧
      (report (.reviewer false) {} ⟨"", false, 3⟩ a).on (.ofInput a.workspace "y\n" (.scripted [])) =
        (outcome, desk') ∧
      Grown (Confined a.sources a.ledger) [] desk'.log ∧ desk'.calls = [⟨unusedDiff, false⟩] := by
  have hcalls : (analyze (fun _ _ => unused.tree) (checkout unused.text) {} []
      ⟨⟨"/p/build"⟩, "", true, false⟩).toOption.map (fun a =>
        ((report (.reviewer false) {} ⟨"", false, 3⟩ a).on
          (.ofInput a.workspace "y\n" (.scripted []))).2.calls) =
      some [⟨unusedDiff, false⟩] := by decide +kernel
  obtain ⟨a, ha, hcalls⟩ := Option.map_eq_some_iff.1 hcalls
  have ha := ok_of_toOption ha
  rcases report_confined ha (.reviewer false) {} ⟨"", false, 3⟩
    (.ofInput a.workspace "y\n" (.scripted [])) with ⟨f, -, hfail⟩ | ⟨outcome, desk', hon, hlog⟩
  · rw [hfail] at hcalls
    cases hcalls
  · rw [hon] at hcalls
    exact ⟨a, outcome, desk', ha, hon, hlog, hcalls⟩

end Review

end Upkeep
