/-
**Printing and reviewing agree.**

Printed patches show what an analysis holds, and reviewed ones are made of the files as they are by then.
Where the files of the analysis stayed as they were, both come to the same texts, so a review in which
every patch is refused when it is shown says what printing says, with questions in between.  Printing and
such a review go on beside each other: each operation of the one has its counterpart in the other, and
only the question and the answer behind a patch have none.

Main definitions:

* `Upkeep.Review.Desk.unprompted` — what is shown without the questions;
* `Upkeep.Review.ReportRequest.Refuses` — answers that refuse patches as soon as they are shown;
* `Upkeep.Review.Refused`, `Upkeep.Review.Beside` — the log of such a review beside that of printing, and
  the desks of both.

Main results:

* `Upkeep.Review.Beside.refuse` — a patch that is printed, and shown and refused;
* `Upkeep.Review.Beside.reportOne`, `Upkeep.Review.Beside.reportAll` — the reports on one cvar and on all;
* `Upkeep.Review.reviewing_prints` — **a review in which every patch is refused says what is printed**.
-/

import Upkeep.Proofs.Cvar.Snapshot
import Upkeep.Proofs.Review.Course

set_option relaxedAutoImplicit false
set_option autoImplicit false

namespace Upkeep

namespace Review

open Cvar Files

/-! ### Texts without questions -/

/-- Whether a question is asked. -/
def Event.isQuestion : Event → Bool
  | asked _ => true
  | _ => false

/-- The text of a log, without the questions. -/
def said (log : List Event) : String :=
  String.join ((log.reverse.filter (!·.isQuestion)).map Event.text)

theorem said_cons (e : Event) (log : List Event) :
    said (e :: log) = said log ++ if e.isQuestion then "" else e.text := by
  rw [said, List.reverse_cons, List.filter_append, List.map_append, String.join_append]
  cases e <;> rfl

/-- All text shown so far, without the questions. -/
def Desk.unprompted (d : Desk) : String := said d.log

/-! ### Refusals -/

namespace ReportRequest

/-- The answer that refuses a patch at the first question about it, which is whether to apply a removal, and
whether to migrate a cvar. -/
def refusal (r : ReportRequest) : String := if r.migrate then "r" else "n"

/-- The first answers, as many as given, refuse patches. -/
def Refuses (r : ReportRequest) (n : Nat) (answers : List String) : Prop :=
  n ≤ answers.length ∧ ∀ line ∈ answers.take n, choiceText line = r.refusal

/-- The number of patches that are offered for a cvar. -/
def patches (r : ReportRequest) (cfg : Settings) (rec : Record) : Nat :=
  if offerFor r.migrate (classify cfg.policy rec) = .nothing then 0 else 1

/-- The number of patches that are offered for some cvars. -/
def patchesAll (r : ReportRequest) (cfg : Settings) (l : Ledger) : List String → Nat
  | [] => 0
  | name :: names => (l.get? name).elim 0 (r.patches cfg) + r.patchesAll cfg l names

/-- The number of patches in a report. -/
def patchesOf (r : ReportRequest) (cfg : Settings) (a : Analysis) : Nat :=
  match a.selected r.filter with
  | .ok names => r.patchesAll cfg a.ledger names
  | .error _ => 0

variable {r : ReportRequest} {answers : List String}

theorem Refuses.split {m n : Nat} (h : r.Refuses (m + n) answers) :
    r.Refuses m answers ∧ r.Refuses n (answers.drop m) := by
  obtain ⟨hlength, hlines⟩ := h
  rw [List.take_add] at hlines
  refine ⟨⟨by omega, fun line hline => hlines line (List.mem_append_left _ hline)⟩, ?_,
    fun line hline => hlines line (List.mem_append_right _ hline)⟩
  rw [List.length_drop]
  omega

theorem Refuses.exists_cons (h : r.Refuses 1 answers) :
    ∃ line rest, answers = line :: rest ∧ choiceText line = r.refusal := by
  obtain ⟨hlength, hlines⟩ := h
  cases answers with
  | nil => cases hlength
  | cons line rest => exact ⟨line, rest, rfl, hlines line (by simp)⟩

end ReportRequest

/-- The log of printing, and beside it that of a review: each patch that is printed is shown, and refused in
the answer to the question behind it. -/
inductive Refused (r : ReportRequest) : List Event → List Event → Prop where
  | nil : Refused r [] []
  | told {printed reviewed : List Event} (h : Refused r printed reviewed) (text : String) :
      Refused r (.told text :: printed) (.told text :: reviewed)
  | patch {printed reviewed : List Event} {line : String} (h : Refused r printed reviewed) (patch : Patch)
      (text question : String) (hline : choiceText line = r.refusal) : Refused r (.told text :: printed)
        (.answered line :: .asked question :: .showed patch text :: reviewed)

variable {r : ReportRequest}

/-- Without the questions such a review says what is printed. -/
theorem Refused.unprompted_eq {printed reviewed : Desk} (h : Refused r printed.log reviewed.log) :
    reviewed.unprompted = printed.output := by
  have hlogs : ∀ {p s : List Event}, Refused r p s → said s = String.join (p.reverse.map Event.text) := by
    intro p s h
    induction h with
    | nil => rfl
    | told _ text ih =>
        rw [said_cons, ih, List.reverse_cons, List.map_append, String.join_append]
        rfl
    | patch _ _ text _ _ ih =>
        rw [said_cons, said_cons, said_cons, ih, List.reverse_cons, List.map_append, String.join_append]
        simp [Event.isQuestion, Event.text]
  exact hlogs h

/-! ### Printing and reviewing -/

/-- The desk of printing, and beside it that of a review which refused all patches so far, both over the files
of a workspace. -/
structure Beside (w : Workspace) (r : ReportRequest) (d d' : Desk) : Prop where
  printing : w.Agrees d.workspace
  reviewing : w.Agrees d'.workspace
  refused : Refused r d.log d'.log

namespace Beside

variable {w : Workspace} {d d' : Desk} {cfg : Settings} {name : String} {rec : Record} {l : Ledger}

/-- The report on a cvar begins. -/
theorem headed (h : Beside w r d d') {w₁ w₂ : Workspace} (h₁ : w.Agrees w₁) (h₂ : w.Agrees w₂) (text : String)
    (v : Verdict) : Beside w r (d.headed w₁ text v) (d'.headed w₂ text v) := by
  refine ⟨h₁, h₂, ?_⟩
  rw [Desk.headed, Desk.headed, heading]
  cases v.banner? with
  | none => exact h.refused.told text
  | some banner => exact (h.refused.told text).told (banner ++ "\n")

/-- The report on a cvar ends. -/
theorem closed (h : Beside w r d d') (ending : Ending) :
    Beside w r (d.closed (.ok ending)) (d'.closed (.ok ending)) :=
  ⟨h.printing, h.reviewing, h.refused.told "\n"⟩

/-- A patch that is printed, and shown and refused. -/
theorem refuse (h : Beside w r d d') (color : Bool) {patch : Patch} (hpatch : patch.Readable w)
    (question : String) (options : List String) {line : String} {rest : List String}
    (hanswers : d'.answers = line :: rest) (hline : choiceText line = r.refusal) :
    ∃ text diff d₁ d₂ d₃, (patch.render (shownStyle color)).Yields w text ∧
      (present color patch).on d' = (.ok diff, d₁) ∧
      (promptChoice color question options).on d₁ = (.ok ⟨⟩, d₂) ∧
      (hear line rest).on d₂ = (.ok ⟨⟩, d₃) ∧ d₃.answers = rest ∧
      ∀ w', w.Agrees w' → Beside w r { d with workspace := w', log := .told text :: d.log } d₃ := by
  have hstart : Underway w color d'.log d'.answers (fun _ _ => False) d' [] :=
    ⟨h.reviewing, rfl, rfl, .nil, by simp [NoSuccess]⟩
  obtain ⟨text, diff, d₁, hpresent, h₁, hanswers₁, -, hshown⟩ := hstart.present hpatch
  obtain ⟨asked, d₂, hprompt, h₂, hanswers₂⟩ := h₁.promptChoice question options
  obtain ⟨d₃, hhear, h₃, hanswers₃⟩ := h₂.hear (hanswers₂.trans (hanswers₁.trans hanswers))
  obtain ⟨text', htext⟩ := hpatch.render (shownStyle color)
  obtain rfl : text' = text := Except.ok.inj (htext.on.symm.trans hshown)
  refine ⟨text', diff, d₁, d₂, d₃, htext, hpresent, hprompt, hhear, hanswers₃,
    fun w' hw' => ⟨hw', h₃.agrees, ?_⟩⟩
  rw [h₃.log_eq]
  exact h.refused.patch patch text' asked hline

/-- A removal that is printed, and refused. -/
theorem removal (h : Beside w r d d') (color : Bool) {patch : Patch} (hpatch : patch.Readable w)
    (hmigrate : r.migrate = false) {line : String} {rest : List String} (hanswers : d'.answers = line :: rest)
    (hline : choiceText line = r.refusal) :
    ∃ d₁ d₂, ((Presenter.printer (shownStyle color)).removal patch).on d = (.ok .skipped, d₁) ∧
      ((Presenter.reviewer color).removal patch).on d' = (.ok .skipped, d₂) ∧
      Beside w r d₁ d₂ ∧ d₂.answers = rest := by
  obtain ⟨text, diff, d₁, d₂, d₃, htext, hpresent, hprompt, hhear, hrest, hbeside⟩ :=
    h.refuse color hpatch "Apply patch?" ["yes", "no", "context++", "edit"] hanswers hline
  obtain ⟨w', hrender, hw'⟩ := htext d.workspace h.printing
  have hchoice : choiceText line = "n" := by rw [hline, ReportRequest.refusal, hmigrate]; rfl
  have hloop : (removalLoop color d'.answers patch).on d' = (.ok (.skipped, patch), d₃) := by
    rw [hanswers, removalLoop, on_bind hpresent, on_bind hprompt]
    dsimp only
    rw [on_bind hhear, hchoice]
    rfl
  exact ⟨_, d₃, on_bind (on_work hrender), on_bind hloop, hbeside w' hw', hrest⟩

/-- A migration that is printed, and refused. -/
theorem migration (h : Beside w r d d') (color : Bool) (cfg : Settings) (context : Nat) {m : Migration}
    (hm : m.record.Readable w) (hmigrate : r.migrate = true) {line : String} {rest : List String}
    (hanswers : d'.answers = line :: rest) (hline : choiceText line = r.refusal) :
    ∃ d₁ d₂, ((Presenter.printer (shownStyle color)).migration cfg context m).on d = (.ok .skipped, d₁) ∧
      ((Presenter.reviewer color).migration cfg context m).on d' = (.ok .skipped, d₂) ∧
      Beside w r d₁ d₂ ∧ d₂.answers = rest := by
  obtain ⟨patch, hmake, hpatch⟩ := m.exists_yields_patch cfg context hm
  obtain ⟨w₀, hon, hw₀⟩ := hmake d'.workspace h.reviewing
  have h₀ : Beside w r d { d' with workspace := w₀ } := ⟨h.printing, hw₀, h.refused⟩
  obtain ⟨text, diff, d₁, d₂, d₃, htext, hpresent, hprompt, hhear, hrest, hbeside⟩ :=
    h₀.refuse color hpatch ("Migrate " ++ m.name ++ " as " ++ m.type.render ++ "?")
      ["accept", "reject", "type override"] hanswers hline
  obtain ⟨w', hrender, hw'⟩ := (hmake.bind (k := (·.render (shownStyle color))) htext) d.workspace h.printing
  have hchoice : choiceText line = "r" := by rw [hline, ReportRequest.refusal, hmigrate]; rfl
  have hchoose : (chooseType color cfg context (d'.answers.length + 1) d'.answers m).on d' =
      (.ok (some .skipped, m, rest), d₃) := by
    rw [chooseType.eq_def]
    dsimp only
    rw [on_bind (on_work hon), on_bind hpresent, on_bind hprompt, hanswers]
    dsimp only
    rw [on_bind hhear, hchoice]
    rfl
  have hreview : (reviewMigration color cfg context m).on d' = (.ok (.skipped, m), d₃) := by
    have hget : (get : Session Desk).on d' = (.ok d', d') := rfl
    rw [reviewMigration.eq_def, on_bind hget]
    dsimp only
    rw [on_bind hchoose]
    rfl
  exact ⟨_, d₃, on_bind (on_work hrender), on_bind hreview, hbeside w' hw', hrest⟩

/-- What is offered for a cvar is printed, and refused. -/
theorem offering (h : Beside w r d d') (color : Bool) (cfg : Settings) (name : String) (hrec : rec.Readable w)
    (hanswers : r.Refuses (r.patches cfg rec) d'.answers) :
    ∃ d₁ d₂, (Review.offering (.printer (shownStyle color)) cfg r name rec).on d = (.ok .skipped, d₁) ∧
      (Review.offering (.reviewer color) cfg r name rec).on d' = (.ok .skipped, d₂) ∧
      Beside w r d₁ d₂ ∧ d₂.answers = d'.answers.drop (r.patches cfg rec) := by
  rw [Review.offering, Review.offering, ReportRequest.patches]
  rw [ReportRequest.patches] at hanswers
  rcases offerFor_cases r (classify cfg.policy rec) with ⟨hoffer, hv⟩ | ⟨hoffer, hv⟩ | ⟨hoffer, -, -⟩
  · rw [hoffer] at hanswers ⊢
    obtain ⟨line, rest, hcons, hline⟩ := hanswers.exists_cons
    obtain ⟨patch, hmake, hpatch⟩ := exists_yields_removal r.context hrec
    obtain ⟨w₁, hon₁, hw₁⟩ := hmake d.workspace h.printing
    obtain ⟨w₂, hon₂, hw₂⟩ := hmake d'.workspace h.reviewing
    have h' : Beside w r { d with workspace := w₁ } { d' with workspace := w₂ } := ⟨hw₁, hw₂, h.refused⟩
    obtain ⟨d₁, d₂, hprint, hreview, hbeside, hrest⟩ := h'.removal color hpatch hv.1 hcons hline
    rw [hcons]
    exact ⟨d₁, d₂, (on_bind (on_work hon₁)).trans hprint, (on_bind (on_work hon₂)).trans hreview,
      hbeside, hrest⟩
  · rw [hoffer] at hanswers ⊢
    obtain ⟨line, rest, hcons, hline⟩ := hanswers.exists_cons
    have hm : (Migration.ofRecord name rec).record.Readable w := hrec
    rw [hcons]
    exact h.migration color cfg r.context hm hv.1 hcons hline
  · rw [hoffer]
    exact ⟨d, d', rfl, rfl, h, rfl⟩

/-- The report on a cvar is printed, and its patch is refused. -/
theorem reportOne (h : Beside w r d d') (color : Bool) (cfg : Settings) (name : String) (hrec : rec.Readable w)
    (hanswers : r.Refuses (r.patches cfg rec) d'.answers) :
    ∃ d₁ d₂, (Review.reportOne (.printer (shownStyle color)) cfg r name rec).on d = (.ok .skipped, d₁) ∧
      (Review.reportOne (.reviewer color) cfg r name rec).on d' = (.ok .skipped, d₂) ∧
      Beside w r d₁ d₂ ∧ d₂.answers = d'.answers.drop (r.patches cfg rec) := by
  obtain ⟨text, htext⟩ := exists_yields_listing name hrec
  obtain ⟨w₁, hlisting₁, hw₁⟩ := htext d.workspace h.printing
  obtain ⟨w₂, hlisting₂, hw₂⟩ := htext d'.workspace h.reviewing
  obtain ⟨d₁, d₂, hprint, hreview, hbeside, hrest⟩ :=
    (h.headed hw₁ hw₂ text (classify cfg.policy rec)).offering color cfg name hrec hanswers
  exact ⟨_, _, on_reportOne hlisting₁ hprint, on_reportOne hlisting₂ hreview, hbeside.closed _, hrest⟩

/-- The reports on cvars are printed, and their patches are refused. -/
theorem reportAll (h : Beside w r d d') (color : Bool) (cfg : Settings) {names : List String}
    (hnames : ∀ name ∈ names, ∃ rec, l.get? name = some rec ∧ rec.Readable w)
    (hanswers : r.Refuses (r.patchesAll cfg l names) d'.answers) :
    ∃ d₁ d₂, (Review.reportAll (.printer (shownStyle color)) cfg r l names).on d = (.ok ⟨⟩, d₁) ∧
      (Review.reportAll (.reviewer color) cfg r l names).on d' = (.ok ⟨⟩, d₂) ∧
      Beside w r d₁ d₂ ∧ d₂.answers = d'.answers.drop (r.patchesAll cfg l names) := by
  induction names generalizing d d' with
  | nil => exact ⟨d, d', rfl, rfl, h, rfl⟩
  | cons name names ih =>
      obtain ⟨⟨rec, hget, hrec⟩, hrest⟩ := List.forall_mem_cons.1 hnames
      have hcount : r.patchesAll cfg l (name :: names) = r.patches cfg rec + r.patchesAll cfg l names := by
        rw [ReportRequest.patchesAll, hget]
        rfl
      rw [hcount] at hanswers ⊢
      obtain ⟨hfirst, hothers⟩ := hanswers.split
      obtain ⟨d₁, d₂, hprint, hreview, hbeside, hleft⟩ := h.reportOne color cfg name hrec hfirst
      rw [← hleft] at hothers
      obtain ⟨d₃, d₄, hprint', hreview', hbeside', hleft'⟩ := ih hbeside hrest hothers
      refine ⟨d₃, d₄, ?_, ?_, hbeside', by rw [hleft', hleft, List.drop_drop]⟩
      · rw [reportAll_cons _ cfg r names hget, on_bind hprint]
        exact hprint'
      · rw [reportAll_cons _ cfg r names hget, on_bind hreview]
        exact hreview'

end Beside

end Review

/-! ### Reports on unchanged files -/

namespace Cvar

/-- The workspace of an analysis over some disk, when its patches compare with the disk or with what is
held. -/
def Analysis.over (a : Analysis) (disk : Files.Disk) (b : Bool) : Files.Workspace :=
  { a.workspace.rereading b with disk := disk }

end Cvar

namespace Review

open Cvar Files

/-- **A review in which every patch is refused says what is printed**: an analysis finds the same whether its
patches compare with the disk or with what is held.  If its files are on the disk as they were, whatever is
asked for, the patches that compare with what is held are printed, and those that compare with the disk are
shown and refused one after the other; and what is shown is what is printed, if the questions are left out. -/
theorem reviewing_prints {grammar : Compile.Grammar} {disk disk' : Disk} {cfg : Settings}
    {ignore : List String} {asked : Request} {a : Analysis}
    (h : analyze grammar disk cfg ignore asked = .ok a) (hdisk : a.Unchanged disk disk') (cfg' : Settings)
    (r : ReportRequest) (color : Bool) {answers : List String}
    (hanswers : r.Refuses (r.patchesOf cfg' a) answers) (unread : List String) (applier applier' : Applier) :
    (∀ b, analyze grammar disk cfg ignore { asked with rereads := b } =
      .ok { a with workspace := a.workspace.rereading b }) ∧
    ∃ printed reviewed,
      (report (.printer (shownStyle color)) cfg' r a).on ⟨a.over disk' false, unread, applier, []⟩ =
        ((a.selected r.filter).map fun _ => ⟨⟩, printed) ∧
      (report (.reviewer color) cfg' r a).on ⟨a.over disk' true, answers, applier', []⟩ =
        ((a.selected r.filter).map fun _ => ⟨⟩, reviewed) ∧
      Refused r printed.log reviewed.log ∧ reviewed.answers = answers.drop (r.patchesOf cfg' a) ∧
      reviewed.unprompted = printed.output := by
  refine ⟨analyze_rereads h, ?_⟩
  rw [report, report]
  rw [ReportRequest.patchesOf] at hanswers ⊢
  cases hselected : a.selected r.filter with
  | error err => exact ⟨_, _, rfl, rfl, .nil, rfl, rfl⟩
  | ok names =>
      rw [hselected] at hanswers
      have hordered := ordered_of_analyze h
      have hknown : ∀ name ∈ names, ∃ rec, a.ledger.get? name = some rec ∧
          rec.Readable (.ofDisk disk' true) := by
        intro name hname
        obtain ⟨rec, hget⟩ := (Analysis.selected_ordered hordered hselected).2 name hname
        have hmem := (Data.lookupBy_eq_some_iff hordered.names).1 hget
        exact ⟨rec, hget, readable_of_unchanged h hdisk hmem⟩
      have hstart : Beside (.ofDisk disk' true) r ⟨a.over disk' false, unread, applier, []⟩
          ⟨a.over disk' true, answers, applier', []⟩ :=
        ⟨agrees_of_unchanged h hdisk false, agrees_of_unchanged h hdisk true, .nil⟩
      obtain ⟨printed, reviewed, hprint, hreview, hbeside, hleft⟩ :=
        hstart.reportAll color cfg' hknown hanswers
      exact ⟨printed, reviewed, hprint, hreview, hbeside.refused, hleft, hbeside.refused.unprompted_eq⟩

/-- Two patches are printed, and refused. -/
theorem reviewing_prints_twoUnused :
    ∃ a, analyze (fun _ _ => twoUnused.tree) (checkout twoUnused.text) {} []
        ⟨⟨"/p/build"⟩, "", true, false⟩ = .ok a ∧
      a.Unchanged (checkout twoUnused.text) (checkout twoUnused.text) ∧
      ReportRequest.Refuses ⟨"", false, 0⟩ (ReportRequest.patchesOf ⟨"", false, 0⟩ {} a) ["n", " N"] ∧
      ∃ printed reviewed,
        (report (.printer .plain) {} ⟨"", false, 0⟩ a).on
          ⟨a.over (checkout twoUnused.text) false, [], .scripted [], []⟩ = (.ok ⟨⟩, printed) ∧
        (report (.reviewer false) {} ⟨"", false, 0⟩ a).on
          ⟨a.over (checkout twoUnused.text) true, ["n", " N"], .scripted [], []⟩ = (.ok ⟨⟩, reviewed) ∧
        reviewed.answers = [] ∧ reviewed.unprompted = printed.output ∧
        printed.output = "a\nDEF /p/src/a.cpp:10 vmCvar_t a;\nUU: yes\n--- /p/src/a.cpp\n" ++
          "+++ /p/src/a.cpp\n@@ -1 +0,0 @@\n-vmCvar_t a;\n\n" ++
          "b\nDEF /p/src/a.cpp:10 vmCvar_t b;\nUU: yes\n--- /p/src/a.cpp\n" ++
          "+++ /p/src/a.cpp\n@@ -2 +1,0 @@\n-vmCvar_t b;\n\n" := by
  have hrun : (analyze (fun _ _ => twoUnused.tree) (checkout twoUnused.text) {} []
      ⟨⟨"/p/build"⟩, "", true, false⟩).toOption.map (fun a => ((a.selected "").toOption,
        ReportRequest.patchesOf ⟨"", false, 0⟩ {} a, ((report (.printer .plain) {} ⟨"", false, 0⟩ a).on
          ⟨a.over (checkout twoUnused.text) false, [], .scripted [], []⟩).2.output)) =
      some (some ["a", "b"], 2, "a\nDEF /p/src/a.cpp:10 vmCvar_t a;\nUU: yes\n--- /p/src/a.cpp\n" ++
          "+++ /p/src/a.cpp\n@@ -1 +0,0 @@\n-vmCvar_t a;\n\n" ++
          "b\nDEF /p/src/a.cpp:10 vmCvar_t b;\nUU: yes\n--- /p/src/a.cpp\n" ++
          "+++ /p/src/a.cpp\n@@ -2 +1,0 @@\n-vmCvar_t b;\n\n") := by decide +kernel
  obtain ⟨a, ha, hrun⟩ := Option.map_eq_some_iff.1 hrun
  rw [Prod.mk.injEq, Prod.mk.injEq] at hrun
  obtain ⟨hselected, hpatches, houtput⟩ := hrun
  have ha := ok_of_toOption ha
  have hselected : a.selected (ReportRequest.filter ⟨"", false, 0⟩) = .ok ["a", "b"] :=
    ok_of_toOption hselected
  have hunchanged : a.Unchanged (checkout twoUnused.text) (checkout twoUnused.text) := fun _ _ => rfl
  have hanswers : ReportRequest.Refuses ⟨"", false, 0⟩ (ReportRequest.patchesOf ⟨"", false, 0⟩ {} a)
      ["n", " N"] := by
    rw [hpatches]
    exact ⟨by decide, by decide +kernel⟩
  obtain ⟨-, printed, reviewed, hprint, hreview, -, hleft, htext⟩ := reviewing_prints ha hunchanged {}
    ⟨"", false, 0⟩ false hanswers [] (.scripted []) (.scripted [])
  rw [hselected] at hprint hreview
  rw [hpatches] at hleft
  rw [show shownStyle false = .plain from rfl] at hprint
  rw [hprint] at houtput
  exact ⟨a, ha, hunchanged, hanswers, printed, reviewed, hprint, hreview, hleft, htext, houtput⟩

end Review

end Upkeep
