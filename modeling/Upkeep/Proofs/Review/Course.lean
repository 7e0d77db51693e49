/-
**The course of a report.**

A report treats the selected cvars one after the other, in the order of their names.  Each of them is
listed first; then what is known of its use is told, and a patch is presented if its verdict asks for
one.  The report goes on as long as the answers of a review do not run out and all files that are needed
can be read, so what was told, shown and handed over is what belongs to the cvars up to that point.

Main definitions:

* `Upkeep.Review.ReportRequest.Removes`, `Upkeep.Review.ReportRequest.Migrates` — the cvars that are
  offered for removal and for migration;
* `Upkeep.Review.Presents`, `Upkeep.Review.Offered` — the event in which a patch is presented, and what
  is offered for a cvar;
* `Upkeep.Review.Part`, `Upkeep.Review.Part.Treated` — the part of a report that is about one cvar;
* `Upkeep.Review.Course` — a report made of parts.

Main results:

* `Upkeep.Review.on_reportOne` — the report on one cvar;
* `Upkeep.Review.offered_offering` — dialogues begin with the patch that they are about;
* `Upkeep.Review.treated_reportOne`, `Upkeep.Review.Course.cons` — one cvar, and one cvar more;
* `Upkeep.Review.report_course` — **the course of every report**.
-/

import Mathlib.Data.String.Basic
import Upkeep.Proofs.Review.Confined
import Upkeep.Proofs.Review.Dialogue

set_option relaxedAutoImplicit false
set_option autoImplicit false

namespace Upkeep

/-! ### Selected cvars -/

namespace Cvar

/-- The names of selected cvars increase, and the ledger knows them. -/
theorem Analysis.selected_ordered {a : Analysis} {filter : String} {names : List String}
    (hordered : a.ledger.Ordered) (h : a.selected filter = .ok names) :
    names.Pairwise (· < ·) ∧ ∀ name ∈ names, ∃ r, a.ledger.get? name = some r := by
  obtain ⟨kept, hkept, h⟩ := Outcome.bind_ok.1 h
  cases h
  obtain ⟨-, rfl⟩ := filterM_ok hkept
  constructor
  · rw [List.pairwise_map]
    exact ((hordered.names.filter _).filter _).imp fun hlt => compare_lt_iff_lt.1 hlt
  · intro name hname
    obtain ⟨s, hs, rfl⟩ := List.mem_map.1 hname
    have hmem := List.mem_of_mem_filter (List.mem_of_mem_filter hs)
    exact ⟨s.2, (Data.lookupBy_eq_some_iff hordered.names).2 hmem⟩

/-- The ledger of an analysis is in order. -/
theorem ordered_of_analyze {grammar : Compile.Grammar} {d : Files.Disk} {cfg : Settings}
    {ignore : List String} {asked : Request} {a : Analysis}
    (h : analyze grammar d cfg ignore asked = .ok a) : a.ledger.Ordered := by
  obtain ⟨db, sources, parsed, -, -, hparsed, h⟩ := analyze_ok_iff.1 h
  obtain ⟨findings, texts, -, hledger, -⟩ :=
    finishedLedger_of_analyzeFiles (distinct_parseProgram hparsed) h
  rw [hledger]
  exact ordered_finishedLedger findings

end Cvar

namespace Review

open Cvar Files

/-! ### Presenting patches -/

namespace Presenter

/-- The style in which patches are printed or shown. -/
def style : Presenter → Diff.Style
  | printer style => style
  | reviewer color => shownStyle color

/-- The event in which a patch is printed or shown. -/
def event : Presenter → Patch → String → Event
  | printer _, _, text => .told text
  | reviewer _, patch, text => .showed patch text

/-- Whether patches are printed. -/
def prints : Presenter → Bool
  | printer _ => true
  | reviewer _ => false

end Presenter

/-- In the event the patch that comes of an operation is printed or shown. -/
def Presents (p : Presenter) (make : Work Patch) (w : Workspace) (e : Event) : Prop :=
  ∃ patch w' text, make.on w = (.ok patch, w') ∧ ((patch.render p.style).on w').1 = .ok text ∧
    e = p.event patch text

/-- At a desk the operation begins with presenting the patch that comes of another one, or fails before
anything happens.  If it prints, then it does nothing else. -/
def Session.Opens {α : Type} (s : Session α) (p : Presenter) (make : Work Patch) (d : Desk) : Prop :=
  (∃ err, (s.on d).1 = .error err ∧ (s.on d).2.log = d.log) ∨
  ∃ e t, Presents p make d.workspace e ∧ (s.on d).2.log = t ++ e :: d.log ∧
    (p.prints = true → t = [])

section Opens

variable {α β : Type} {E : List Event → Event → Prop} {Q : α → Prop} {s : Session α} {d : Desk}
  {files : List Path} {l : Ledger} {patch : Patch} {color : Bool}

theorem Grown.exists_append {old log : List Event} (h : Grown E old log) : ∃ t, log = t ++ old := by
  induction h with
  | start => exact ⟨[], rfl⟩
  | event _ _ ih =>
      obtain ⟨t, rfl⟩ := ih
      exact ⟨_ :: t, rfl⟩

/-- Operations only add to the log. -/
theorem Session.Ensures.exists_append (h : s.Ensures E Q) (d : Desk) :
    ∃ t, (s.on d).2.log = t ++ d.log := (h d _ _ rfl).1.exists_append

namespace Session.Opens

variable {p : Presenter} {make : Work Patch} {m : Migration}

/-- What follows on a patch that is shown only adds to the log. -/
theorem present {k : String → Session α} (hpatch : patch.Within files)
    (hk : ∀ diff, Diff.ShowsWithin files .plain diff → (k diff).Ensures (Confined files l) Q) :
    Session.Opens (present color patch >>= k) (.reviewer color) (pure patch) d := by
  cases hrender : (patch.render (shownStyle color)).on d.workspace with
  | mk result w =>
      cases result with
      | error err =>
          left
          rw [Review.present, bind_assoc, on_bind_eq, on_work_eq, hrender]
          exact ⟨err, rfl, rfl⟩
      | ok text =>
          right
          have hpresents : Presents (.reviewer color) (Pure.pure patch) d.workspace (.showed patch text) :=
            ⟨patch, d.workspace, text, rfl, congrArg Prod.fst hrender, rfl⟩
          have hon : (Review.present color patch).on d = (work (patch.render .plain)).on
              { d with workspace := w, log := .showed patch text :: d.log } := by
            rw [Review.present, on_bind (on_work hrender)]
            rfl
          rw [on_bind_eq, hon, on_work_eq]
          dsimp only
          cases hdiff : (patch.render .plain).on w with
          | mk result w' =>
              cases result with
              | error err => exact ⟨_, [], hpresents, rfl, by simp [Presenter.prints]⟩
              | ok diff =>
                  obtain ⟨t, ht⟩ := (hk diff (hpatch.render .plain _ _ _ hdiff)).exists_append _
                  exact ⟨_, t, hpresents, ht, by simp [Presenter.prints]⟩

/-- The patch is made first. -/
theorem work {k : Patch → Session α} (hk : ∀ patch w, make.on d.workspace = (.ok patch, w) →
      (k patch).Opens p (pure patch) { d with workspace := w }) :
    Session.Opens (work make >>= k) p make d := by
  rw [Session.Opens, on_bind_eq, on_work_eq]
  cases hmake : make.on d.workspace with
  | mk result w =>
      cases result with
      | error err => exact .inl ⟨err, rfl, rfl⟩
      | ok patch =>
          rcases hk patch w hmake with hfail | ⟨e, t, ⟨patch', w', text, hpure, htext, he⟩, hlog, hprints⟩
          · exact .inl hfail
          · cases hpure
            exact .inr ⟨e, t, ⟨patch, w, text, hmake, htext, he⟩, hlog, hprints⟩

/-- What follows on the dialogue only adds to the log. -/
theorem bind {k : α → Session β} (h : s.Opens (.reviewer color) make d)
    (hk : ∀ a d', s.on d = (.ok a, d') → ∃ t, ((k a).on d').2.log = t ++ d'.log) :
    Session.Opens (s >>= k) (.reviewer color) make d := by
  rw [Session.Opens, on_bind_eq]
  cases hon : s.on d with
  | mk result d' =>
      rw [Session.Opens, hon] at h
      cases result with
      | error err =>
          rcases h with ⟨-, -, hlog⟩ | ⟨e, t, he, hlog, hprints⟩
          · exact .inl ⟨err, rfl, hlog⟩
          · exact .inr ⟨e, t, he, hlog, hprints⟩
      | ok a =>
          rcases h with ⟨err, herr, -⟩ | ⟨e, t, he, hlog, hprints⟩
          · cases herr
          · obtain ⟨t', ht'⟩ := hk a d' hon
            refine .inr ⟨e, t' ++ t, he, ?_, by simp [Presenter.prints]⟩
            rw [ht', List.append_assoc]
            exact congrArg _ hlog

/-- A patch is printed, and nothing else. -/
theorem print (make : Work Patch) (style : Diff.Style) (ending : Ending) (d : Desk) : Session.Opens (do
    say (← Review.work do (← make).render style)
    return ending) (.printer style) make d := by
  rw [Session.Opens, on_bind_eq, on_work_eq, Files.on_bind]
  cases hmake : make.on d.workspace with
  | mk result w =>
      cases result with
      | error err => exact .inl ⟨err, rfl, rfl⟩
      | ok patch =>
          dsimp only
          cases hrender : (patch.render style).on w with
          | mk result w' =>
              cases result with
              | error err => exact .inl ⟨err, rfl, rfl⟩
              | ok text =>
                  exact .inr ⟨.told text, [], ⟨patch, w, text, hmake, congrArg Prod.fst hrender, rfl⟩,
                    rfl, fun _ => rfl⟩

/-- The dialogue about a removal begins with its patch. -/
theorem removal (p : Presenter) (patch : Patch) (d : Desk) : (p.removal patch).Opens p (pure patch) d := by
  cases p with
  | printer style => exact print (Pure.pure patch) style .skipped d
  | reviewer color =>
      have hpatch : patch.Within patch.files := fun f hf => Path.isIn_of_mem hf
      obtain ⟨k, heq, hk⟩ := exists_removalLoop_eq (l := .empty) color d.answers hpatch
      have hloop : (removalLoop color d.answers patch).Opens (.reviewer color) (Pure.pure patch) d := by
        rw [heq]
        exact present hpatch hk
      exact hloop.bind fun _ d' _ => ⟨[], rfl⟩

/-- The dialogue about a migration begins with its patch. -/
theorem migration (p : Presenter) (cfg : Settings) (context : Nat) (m : Migration) (d : Desk) :
    (p.migration cfg context m).Opens p (m.patch cfg context) d := by
  cases p with
  | printer style => exact print (m.patch cfg context) style .skipped d
  | reviewer color =>
      let files := m.record.mentions.map fun mention => mention.2.file
      have hm : m.record.Within files := fun mention hmention =>
        Path.isIn_of_mem (List.mem_map_of_mem hmention)
      obtain ⟨k, heq, hk⟩ := exists_chooseType_eq (l := .empty) color cfg context
        (fun answers m' hm' => ensures_chooseType color cfg context d.answers.length answers hm') d.answers hm
      obtain ⟨k', heq', hk'⟩ := exists_reviewMigration_eq (l := .empty) files color cfg context m
      have hchoose : (chooseType color cfg context (d.answers.length + 1) d.answers m).Opens
          (.reviewer color) (m.patch cfg context) d := by
        rw [heq]
        exact work fun patch w hpatch =>
          present (Migration.gives_patch cfg context hm _ _ _ hpatch) fun diff _ => hk patch diff
      have hreview : (reviewMigration color cfg context m).Opens (.reviewer color) (m.patch cfg context) d := by
        rw [heq']
        refine hchoose.bind fun result d' hon => ?_
        have hresult := ((ensures_chooseType (l := .empty) color cfg context _ d.answers hm) d _ _ hon).2 _ rfl
        exact (hk' result hresult).exists_append d'
      exact hreview.bind fun _ d' _ => ⟨[], rfl⟩

end Session.Opens

end Opens

/-! ### What is offered -/

/-- Cvars with the verdict are offered for removal. -/
def ReportRequest.Removes (r : ReportRequest) (v : Verdict) : Prop := r.migrate = false ∧ v = .dead

/-- Cvars with the verdict are offered for migration. -/
def ReportRequest.Migrates (r : ReportRequest) (v : Verdict) : Prop :=
  r.migrate = true ∧ (v = .live ∨ v = .probablyLive)

/-- What is offered for a cvar at a desk: how that ends, the events of it, first one first, and the desk
afterwards.  The dialogue about a removal or a migration begins with its patch, unless this patch or its
text cannot be made. -/
inductive Offered (p : Presenter) (cfg : Settings) (r : ReportRequest) (name : String) (rec : Record)
    (d : Desk) : Outcome Ending → List Event → Desk → Prop where
  | removal {patch : Patch} {w : Workspace} {result : Outcome Ending} {e : Event} {t : List Event}
      {d' : Desk} (h : r.Removes (classify cfg.policy rec))
      (hmake : (Cvar.removal rec r.context).on d.workspace = (.ok patch, w))
      (hrun : (p.removal patch).on { d with workspace := w } = (result, d'))
      (he : Presents p (pure patch) w e) (ht : p.prints = true → t = []) :
      Offered p cfg r name rec d result (e :: t) d'
  | migration {result : Outcome Ending} {e : Event} {t : List Event} {d' : Desk}
      (h : r.Migrates (classify cfg.policy rec))
      (hrun : (p.migration cfg r.context (.ofRecord name rec)).on d = (result, d'))
      (he : Presents p ((Migration.ofRecord name rec).patch cfg r.context) d.workspace e)
      (ht : p.prints = true → t = []) : Offered p cfg r name rec d result (e :: t) d'
  | nothing (hremoves : ¬ r.Removes (classify cfg.policy rec))
      (hmigrates : ¬ r.Migrates (classify cfg.policy rec)) : Offered p cfg r name rec d (.ok .skipped) [] d
  | failed {err : Failure} {d' : Desk}
      (h : r.Removes (classify cfg.policy rec) ∨ r.Migrates (classify cfg.policy rec)) :
      Offered p cfg r name rec d (.error err) [] d'

/-- What is offered for a cvar. -/
def offering (p : Presenter) (cfg : Settings) (r : ReportRequest) (name : String) (rec : Record) :
    Session Ending :=
  match offerFor r.migrate (classify cfg.policy rec) with
  | .removal => do p.removal (← work (Cvar.removal rec r.context))
  | .migration => p.migration cfg r.context (.ofRecord name rec)
  | .nothing => pure .skipped

/-- The events with which the report on a cvar begins, first one first. -/
def heading (text : String) (v : Verdict) : List Event :=
  .told text :: (v.banner?.map fun banner => .told (banner ++ "\n")).toList

/-- A desk at which the report on a cvar has begun. -/
def Desk.headed (d : Desk) (w : Workspace) (text : String) (v : Verdict) : Desk :=
  { d with workspace := w, log := (heading text v).reverse ++ d.log }

/-- The event with which the report on a cvar ends, unless it fails. -/
def closing : Outcome Ending → List Event
  | .ok _ => [.told "\n"]
  | .error _ => []

/-- A desk at which the report on a cvar has ended. -/
def Desk.closed (d : Desk) (result : Outcome Ending) : Desk := { d with log := closing result ++ d.log }

section Report

variable {p : Presenter} {cfg : Settings} {r : ReportRequest} {name : String} {rec : Record} {d d' : Desk}
  {w : Workspace}

/-- The report on a cvar: once it is listed, everything else depends on what is offered. -/
theorem on_reportOne {text : String} {result : Outcome Ending}
    (hlisting : (listing name rec).on d.workspace = (.ok text, w))
    (hrun : (offering p cfg r name rec).on (d.headed w text (classify cfg.policy rec)) = (result, d')) :
    (reportOne p cfg r name rec).on d = (result, d'.closed result) := by
  have hend : Session.on (do let ending ← offering p cfg r name rec; say "\n"; return ending)
      (d.headed w text (classify cfg.policy rec)) = (result, d'.closed result) := by
    rw [on_bind_eq, hrun]
    cases result <;> rfl
  rw [reportOne, on_bind (on_work hlisting), ← hend]
  cases hbanner : (classify cfg.policy rec).banner? with
  | none =>
      simp only [hbanner, Desk.headed, heading, offering]
      cases offerFor r.migrate (classify cfg.policy rec) <;> first | rfl | simp only [bind_assoc]; rfl
  | some banner =>
      simp only [hbanner, Desk.headed, heading, offering]
      cases offerFor r.migrate (classify cfg.policy rec) <;> first | rfl | simp only [bind_assoc]; rfl

/-- What is offered for a verdict. -/
theorem offerFor_cases (r : ReportRequest) (v : Verdict) :
    (offerFor r.migrate v = .removal ∧ r.Removes v) ∨ (offerFor r.migrate v = .migration ∧ r.Migrates v) ∨
      (offerFor r.migrate v = .nothing ∧ ¬ r.Removes v ∧ ¬ r.Migrates v) := by
  rw [ReportRequest.Removes, ReportRequest.Migrates]
  cases r.migrate <;> cases v <;> simp [offerFor]

/-- Dialogues begin with the patch that they are about. -/
theorem offered_offering (p : Presenter) (cfg : Settings) (r : ReportRequest) (name : String) (rec : Record)
    (d : Desk) : ∃ result t d', (offering p cfg r name rec).on d = (result, d') ∧
      d'.log = t.reverse ++ d.log ∧ Offered p cfg r name rec d result t d' := by
  rw [offering]
  rcases offerFor_cases r (classify cfg.policy rec) with ⟨hoffer, h⟩ | ⟨hoffer, h⟩ | ⟨hoffer, h, h'⟩
  · rw [hoffer]
    dsimp only
    rw [on_bind_eq, on_work_eq]
    cases hmake : (Cvar.removal rec r.context).on d.workspace with
    | mk result w =>
        cases result with
        | error err => exact ⟨.error err, [], _, rfl, rfl, .failed (.inl h)⟩
        | ok patch =>
            dsimp only
            cases hrun : (p.removal patch).on { d with workspace := w } with
            | mk result d' =>
                have hopens := Session.Opens.removal p patch { d with workspace := w }
                rw [Session.Opens, hrun] at hopens
                rcases hopens with ⟨err, rfl, hlog⟩ | ⟨e, t, he, hlog, ht⟩
                · exact ⟨_, [], d', rfl, hlog, .failed (.inl h)⟩
                · exact ⟨result, e :: t.reverse, d', rfl, by simpa using hlog,
                    .removal h hmake hrun he fun hprints => by simp [ht hprints]⟩
  · rw [hoffer]
    dsimp only
    cases hrun : (p.migration cfg r.context (.ofRecord name rec)).on d with
    | mk result d' =>
        have hopens := Session.Opens.migration p cfg r.context (.ofRecord name rec) d
        rw [Session.Opens, hrun] at hopens
        rcases hopens with ⟨err, rfl, hlog⟩ | ⟨e, t, he, hlog, ht⟩
        · exact ⟨_, [], d', rfl, hlog, .failed (.inr h)⟩
        · exact ⟨result, e :: t.reverse, d', rfl, by simpa using hlog,
            .migration h hrun he fun hprints => by simp [ht hprints]⟩
  · rw [hoffer]
    exact ⟨.ok .skipped, [], d, rfl, rfl, .nothing h h'⟩

/-- Over readable files, what is offered for a cvar comes to an end. -/
theorem exists_ok_offering (p : Presenter) (cfg : Settings) (r : ReportRequest) (name : String)
    (h : rec.Readable d.workspace) : ∃ ending d', (offering p cfg r name rec).on d = (.ok ending, d') := by
  have hend : ∀ {s : Session Ending}, (∃ ending, (s.on d).1 = .ok ending) →
      ∃ ending d', s.on d = (.ok ending, d') := fun ⟨ending, hok⟩ => ⟨ending, _, Prod.ext hok rfl⟩
  rw [offering]
  rcases offerFor_cases r (classify cfg.policy rec) with ⟨hoffer, -⟩ | ⟨hoffer, -⟩ | ⟨hoffer, -, -⟩
  · rw [hoffer]
    obtain ⟨patch, hpatch, hreadable⟩ := exists_yields_removal r.context h
    obtain ⟨w, hmake, hagrees⟩ := hpatch d.workspace (.refl _)
    dsimp only
    rw [on_bind (on_work hmake)]
    cases p with
    | printer style =>
        obtain ⟨text, htext⟩ := hreadable.render style
        obtain ⟨w', hrender, -⟩ := htext w hagrees
        exact ⟨.skipped, _, on_bind (on_work hrender)⟩
    | reviewer color =>
        have hreadable' : patch.Readable ({ d with workspace := w } : Desk).workspace :=
          fun f hf => (hreadable f hf).mono hagrees
        obtain ⟨ending, d', t, hon, -⟩ := over_reviewRemoval color hreadable'
        exact ⟨ending, d', on_bind hon⟩
  · rw [hoffer]
    have hm : (Migration.ofRecord name rec).record.Readable d.workspace := h
    cases p with
    | printer style =>
        obtain ⟨patch, hpatch, hreadable⟩ := (Migration.ofRecord name rec).exists_yields_patch cfg r.context hm
        obtain ⟨text, htext⟩ := hreadable.render style
        obtain ⟨w', hrender, -⟩ := (hpatch.bind (k := (·.render style)) htext) d.workspace (.refl _)
        exact ⟨.skipped, _, on_bind (on_work hrender)⟩
    | reviewer color =>
        obtain ⟨ending, m', d', t, hon, -⟩ := over_reviewMigration color cfg r.context hm
        exact ⟨ending, d', on_bind hon⟩
  · rw [hoffer]
    exact ⟨.skipped, d, rfl⟩

end Report

/-! ### Parts -/

/-- The part of a report that is about one cvar: the desk before it, its events, first one first, how it
ends, and the desk after it. -/
structure Part where
  name : String
  record : Record
  before : Desk
  events : List Event
  result : Outcome Ending
  after : Desk

namespace Part

/-- The report goes on behind the part: it did not fail, and there was an answer to every question. -/
def GoesOn (x : Part) : Prop := ∃ ending, x.result = .ok ending ∧ ending ≠ .quit

/-- How a cvar is treated: it is listed first, then what is known of its use is told, and what is offered
for it follows.  Nothing happens if it cannot be listed; and if its files are readable, then all of it
succeeds. -/
structure Treated (x : Part) (p : Presenter) (cfg : Settings) (r : ReportRequest) (l : Ledger) : Prop where
  record_eq : l.get? x.name = some x.record
  log_eq : x.after.log = x.events.reverse ++ x.before.log
  shape : (∃ err, ((listing x.name x.record).on x.before.workspace).1 = .error err ∧
      x.result = .error err ∧ x.events = []) ∨
    ∃ text w t d, (listing x.name x.record).on x.before.workspace = (.ok text, w) ∧
      Offered p cfg r x.name x.record (x.before.headed w text (classify cfg.policy x.record)) x.result t d ∧
      x.events = heading text (classify cfg.policy x.record) ++ t ++ closing x.result ∧
      x.after = d.closed x.result
  ends : x.record.Readable x.before.workspace → ∃ ending, x.result = .ok ending

end Part

section Report

variable {p : Presenter} {cfg : Settings} {r : ReportRequest} {l : Ledger} {name : String} {rec : Record}
  {d d' : Desk} {names left : List String} {parts : List Part} {outcome : Outcome PUnit}

/-- The report on one cvar is such a part. -/
theorem treated_reportOne (p : Presenter) (cfg : Settings) (r : ReportRequest) (hget : l.get? name = some rec)
    (d : Desk) : ∃ x : Part, x.name = name ∧ x.before = d ∧
      (reportOne p cfg r name rec).on d = (x.result, x.after) ∧ x.Treated p cfg r l := by
  cases hlisting : (listing name rec).on d.workspace with
  | mk result w =>
      cases result with
      | error err =>
          refine ⟨⟨name, rec, d, [], .error err, { d with workspace := w }⟩, rfl, rfl, ?_, hget, rfl,
            .inl ⟨err, congrArg Prod.fst hlisting, rfl, rfl⟩, ?_⟩
          · rw [reportOne, on_bind_eq, on_work_eq, hlisting]
          · intro h
            obtain ⟨text, htext⟩ := exists_yields_listing name h
            have hok := htext.on
            rw [hlisting] at hok
            cases hok
      | ok text =>
          obtain ⟨result, t, d', hrun, hlog, hoffered⟩ :=
            offered_offering p cfg r name rec (d.headed w text (classify cfg.policy rec))
          refine ⟨⟨name, rec, d, heading text (classify cfg.policy rec) ++ t ++ closing result, result,
            d'.closed result⟩, rfl, rfl, on_reportOne hlisting hrun, hget, ?_,
            .inr ⟨text, w, t, d', hlisting, hoffered, rfl, rfl⟩, ?_⟩
          · have hclosing : (closing result).reverse = closing result := by cases result <;> rfl
            simp only [Desk.closed, hlog, Desk.headed, List.reverse_append, hclosing, List.append_assoc]
          · intro h
            obtain ⟨text', htext⟩ := exists_yields_listing name h
            obtain ⟨w', hon, hagrees⟩ := htext d.workspace (.refl _)
            rw [hlisting] at hon
            cases hon
            obtain ⟨ending, d'', hok⟩ := exists_ok_offering p cfg r name
              (d := d.headed w text (classify cfg.policy rec)) (h.mono hagrees)
            rw [hrun] at hok
            exact ⟨ending, congrArg Prod.fst hok⟩

/-! ### Reports made of parts -/

/-- A report on cvars that is made of parts: they come in the order of the names, the desk after one is the
desk before the next one, and what happens is what happens in them.  Names are left over only behind a part
behind which the report does not go on, and there is no part behind such a one. -/
structure Course (p : Presenter) (cfg : Settings) (r : ReportRequest) (l : Ledger) (names : List String)
    (d : Desk) (outcome : Outcome PUnit) (d' : Desk) (parts : List Part) (left : List String) : Prop where
  names_eq : names = parts.map Part.name ++ left
  chained : parts.map Part.before ++ [d'] = d :: parts.map Part.after
  log_eq : d'.log = (parts.flatMap Part.events).reverse ++ d.log
  treated : ∀ x ∈ parts, x.Treated p cfg r l
  goesOn : ∀ x ∈ parts.dropLast, x.GoesOn
  stops : left ≠ [] → ∃ x, parts.getLast? = some x ∧ ¬ x.GoesOn
  outcome_eq : outcome = match parts.getLast? with
    | some x => x.result.map fun _ => ⟨⟩
    | none => .ok ⟨⟩

namespace Course

theorem nil (d : Desk) : Course p cfg r l [] d (.ok ⟨⟩) d [] [] :=
  ⟨rfl, rfl, rfl, by simp, by simp, by simp, rfl⟩

/-- The last part. -/
theorem last {x : Part} (h : x.Treated p cfg r l) (hends : left ≠ [] → ¬ x.GoesOn) :
    Course p cfg r l (x.name :: left) x.before (x.result.map fun _ => ⟨⟩) x.after [x] left := by
  refine ⟨rfl, rfl, ?_, by simpa using h, by simp, fun hleft => ⟨x, rfl, hends hleft⟩, rfl⟩
  rw [h.log_eq, List.flatMap_singleton]

/-- A part behind which the report goes on. -/
theorem cons {x : Part} (hx : x.Treated p cfg r l) (hgoesOn : x.GoesOn)
    (h : Course p cfg r l names x.after outcome d' parts left) :
    Course p cfg r l (x.name :: names) x.before outcome d' (x :: parts) left := by
  refine ⟨?_, ?_, ?_, List.forall_mem_cons.2 ⟨hx, h.treated⟩, ?_, ?_, ?_⟩
  · rw [h.names_eq, List.map_cons, List.cons_append]
  · rw [List.map_cons, List.cons_append, h.chained, List.map_cons]
  · rw [h.log_eq, hx.log_eq, List.flatMap_cons, List.reverse_append, List.append_assoc]
  · intro y hy
    cases parts with
    | nil => cases hy
    | cons z parts =>
        rcases List.mem_cons.1 hy with rfl | hy
        · exact hgoesOn
        · exact h.goesOn y hy
  · intro hleft
    obtain ⟨y, hy, hstops⟩ := h.stops hleft
    exact ⟨y, by rw [List.getLast?_cons, hy]; rfl, hstops⟩
  · have houtcome := h.outcome_eq
    cases parts with
    | nil =>
        obtain ⟨ending, hresult, -⟩ := hgoesOn
        rw [houtcome]
        simp [hresult, Except.map]
    | cons z parts => rwa [List.getLast?_cons_cons]

end Course

/-- The reports on cvars go on behind the first one if there was an answer to every question. -/
theorem reportAll_cons (p : Presenter) (cfg : Settings) (r : ReportRequest) (names : List String)
    (hget : l.get? name = some rec) : reportAll p cfg r l (name :: names) = (do
      if (← reportOne p cfg r name rec) != .quit then reportAll p cfg r l names) := by
  rw [reportAll]
  simp only [hget]

/-- The reports on known cvars, one after the other. -/
theorem course_reportAll (p : Presenter) (cfg : Settings) (r : ReportRequest)
    (hnames : ∀ name ∈ names, ∃ rec, l.get? name = some rec) (d : Desk) :
    ∃ outcome d' parts left, (reportAll p cfg r l names).on d = (outcome, d') ∧
      Course p cfg r l names d outcome d' parts left := by
  induction names generalizing d with
  | nil => exact ⟨_, d, [], [], rfl, .nil d⟩
  | cons name names ih =>
      obtain ⟨⟨rec, hget⟩, hrest⟩ := List.forall_mem_cons.1 hnames
      obtain ⟨x, rfl, rfl, hon, hx⟩ := treated_reportOne p cfg r hget d
      rw [reportAll_cons p cfg r names hget, on_bind_eq, hon]
      have hlast : ¬ x.GoesOn → Course p cfg r l (x.name :: names) x.before (x.result.map fun _ => ⟨⟩)
          x.after [x] names := fun hstops => .last hx fun _ => hstops
      cases hresult : x.result with
      | error err =>
          rw [hresult] at hlast
          refine ⟨_, _, [x], names, rfl, hlast ?_⟩
          rintro ⟨ending, hok, -⟩
          rw [hresult] at hok
          cases hok
      | ok ending =>
          by_cases hquit : ending = .quit
          · subst hquit
            rw [hresult] at hlast
            refine ⟨_, _, [x], names, rfl, hlast ?_⟩
            rintro ⟨ending, hok, hne⟩
            rw [hresult] at hok
            cases hok
            exact hne rfl
          · obtain ⟨outcome, d', parts, left, hrun, hcourse⟩ := ih hrest x.after
            refine ⟨outcome, d', x :: parts, left, ?_, hcourse.cons hx ⟨ending, hresult, hquit⟩⟩
            rw [← hrun]
            simp [hquit]

end Report

/-- **The course of every report**: of every analysis, whatever is asked for, wherever patches go and
whatever is answered, the report fails before anything happens, because the cvars cannot be selected; or
it treats the selected cvars one after the other, whose names increase, so each of them once.  Every one is
listed first; a removal is offered exactly for dead ones if cvars are not migrated, and a migration exactly
for those that are live or probably live if they are.  Behind the first cvar at which the answers run out,
or whose files cannot be read, nothing more happens; only such a cvar leaves others over. -/
theorem report_course {grammar : Compile.Grammar} {disk : Disk} {cfg : Settings} {ignore : List String}
    {asked : Request} {a : Analysis} (h : analyze grammar disk cfg ignore asked = .ok a) (p : Presenter)
    (cfg' : Settings) (r : ReportRequest) (d : Desk) :
    (∃ err, a.selected r.filter = .error err ∧ (report p cfg' r a).on d = (.error err, d)) ∨
    ∃ names outcome d' parts left, a.selected r.filter = .ok names ∧ names.Pairwise (· < ·) ∧
      (report p cfg' r a).on d = (outcome, d') ∧
      Course p cfg' r a.ledger names d outcome d' parts left := by
  cases hselected : a.selected r.filter with
  | error err =>
      refine .inl ⟨err, rfl, ?_⟩
      rw [report, hselected]
      rfl
  | ok names =>
      obtain ⟨hincreasing, hknown⟩ := Analysis.selected_ordered (ordered_of_analyze h) hselected
      obtain ⟨outcome, d', parts, left, hon, hcourse⟩ := course_reportAll p cfg' r hknown d
      refine .inr ⟨names, outcome, d', parts, left, rfl, hincreasing, ?_, hcourse⟩
      rw [report, hselected]
      exact hon

/-! ### Reports at work -/

/-- Two cvars that are defined and not used. -/
def twoUnused : Cpp.Source :=
  sourceOf "vmCvar_t a;\nvmCvar_t b;\n" (definitionRows 0 1 ++ definitionRows 12 1)

/-- With nothing to read a review is left at the first of two patches, and the second cvar is not listed. -/
theorem report_course_quit :
    ∃ a, analyze (fun _ _ => twoUnused.tree) (checkout twoUnused.text) {} []
        ⟨⟨"/p/build"⟩, "", true, false⟩ = .ok a ∧
      ∃ outcome desk parts left,
        (report (.reviewer false) {} ⟨"", false, 3⟩ a).on (.ofInput a.workspace "" (.scripted [])) =
          (outcome, desk) ∧
        Course (.reviewer false) {} ⟨"", false, 3⟩ a.ledger ["a", "b"]
          (.ofInput a.workspace "" (.scripted [])) outcome desk parts left ∧
        desk.output = "a\nDEF /p/src/a.cpp:10 vmCvar_t a;\nUU: yes\n--- /p/src/a.cpp\n" ++
          "+++ /p/src/a.cpp\n@@ -1,2 +1 @@\n-vmCvar_t a;\n vmCvar_t b;\n" ++
          "Apply patch? [y]es, [n]o, [c]ontext++, [e]dit \n" := by
  have hrun : (analyze (fun _ _ => twoUnused.tree) (checkout twoUnused.text) {} []
      ⟨⟨"/p/build"⟩, "", true, false⟩).toOption.map (fun a => ((a.selected "").toOption,
        ((report (.reviewer false) {} ⟨"", false, 3⟩ a).on
          (.ofInput a.workspace "" (.scripted []))).2.output)) =
      some (some ["a", "b"], "a\nDEF /p/src/a.cpp:10 vmCvar_t a;\nUU: yes\n--- /p/src/a.cpp\n" ++
        "+++ /p/src/a.cpp\n@@ -1,2 +1 @@\n-vmCvar_t a;\n vmCvar_t b;\n" ++
        "Apply patch? [y]es, [n]o, [c]ontext++, [e]dit \n") := by decide +kernel
  obtain ⟨a, ha, hrun⟩ := Option.map_eq_some_iff.1 hrun
  rw [Prod.mk.injEq] at hrun
  have ha := ok_of_toOption ha
  have hselected := ok_of_toOption hrun.1
  rcases report_course ha (.reviewer false) {} ⟨"", false, 3⟩
    (.ofInput a.workspace "" (.scripted [])) with
      ⟨err, hfail, -⟩ | ⟨names, outcome, desk, parts, left, hnames, -, hon, hcourse⟩
  · rw [hselected] at hfail
    cases hfail
  · rw [hselected] at hnames
    cases hnames
    have houtput := hrun.2
    rw [hon] at houtput
    exact ⟨a, ha, outcome, desk, parts, left, hon, hcourse, houtput⟩

end Review

end Upkeep
