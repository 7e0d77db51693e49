/-
**The log of a review.**

A review only adds to the log.  What must hold of it is said of the events before each call of the
applier: which patch was shown last, and whether a call has succeeded.  Every operation at the desk
keeps this, and it says how a review ends.

Main definitions:

* `Upkeep.Review.lastShown?`, `Upkeep.Review.lastResult?`, `Upkeep.Review.heard` — the patch that was
  shown last, the result of the last call, and the lines that were read;
* `Upkeep.Review.Faithful` — what is shown is the text of its patch, what is handed over is what was shown
  last, and nothing is after a success;
* `Upkeep.Review.Underway`, `Upkeep.Review.Over` — reviews that go on, and reviews at their end;
* `Upkeep.Review.Reviewed` — what a review did.

Main results:

* `Upkeep.Review.Underway.present`, `Upkeep.Review.Underway.prompt`, `Upkeep.Review.Underway.hear`,
  `Upkeep.Review.Underway.apply` — **what the operations at a desk keep**;
* `Upkeep.Review.Over.applied_iff`, `Upkeep.Review.Over.quit_iff` — **how a review ended can be seen
  from the log**.
-/

import Upkeep.Proofs.Patch.Reading
import Upkeep.Review.Dialogue

set_option relaxedAutoImplicit false
set_option autoImplicit false

namespace Upkeep

namespace Review

open Files

/-! ### Operations at a desk -/

section On

variable {α β : Type} {d d' : Desk}

/-- Of an operation made of two the second one goes on where the first one succeeds. -/
theorem on_bind_eq (s : Session α) (k : α → Session β) (d : Desk) :
    (s >>= k).on d =
      match s.on d with
      | (.ok a, d') => (k a).on d'
      | (.error e, d') => (.error e, d') := by
  simp only [Session.on, ExceptT.run_bind, StateT.run_bind]
  rcases hs : StateT.run (ExceptT.run s) d with ⟨a | a, d'⟩ <;> rfl

theorem on_bind {s : Session α} {k : α → Session β} {a : α} (h : s.on d = (.ok a, d')) :
    (s >>= k).on d = (k a).on d' := by
  rw [on_bind_eq, h]

/-- An operation on the workspace changes nothing else. -/
theorem on_work_eq (m : Work α) (d : Desk) :
    (work m).on d = ((m.on d.workspace).1, { d with workspace := (m.on d.workspace).2 }) := by
  change Session.on (do
    set { d with workspace := (m.on d.workspace).2 }
    liftM (n := Session) (m := Except Failure) (m.on d.workspace).1) d = _
  cases (m.on d.workspace).1 <;> rfl

/-- An operation on the workspace that succeeds. -/
theorem on_work {m : Work α} {a : α} {w : Workspace} (h : m.on d.workspace = (.ok a, w)) :
    (work m).on d = (.ok a, { d with workspace := w }) := by
  rw [on_work_eq, h]

end On

/-! ### What a log tells -/

/-- The patch that was shown last. -/
def lastShown? (log : List Event) : Option Patch := log.findSome? Event.patch?

/-- The result of the last call of the applier. -/
def lastResult? (log : List Event) : Option (Option ApplyFailure) :=
  log.findSome? fun
    | .called _ f => some f
    | _ => none

/-- The lines that were read, latest first. -/
def heard (log : List Event) : List String := log.filterMap Event.answer?

/-- No call of the applier has succeeded. -/
def NoSuccess (log : List Event) : Prop := ∀ c, Event.called c none ∉ log

/-- What is shown of a patch is its text in the style of the review.  What is handed to the applier is the
plain text of the patch that was shown last, and this patch stands after the events before; and no call
follows one that succeeded. -/
structure Faithful (w : Workspace) (color : Bool) (Stands : List Event → Patch → Prop)
    (log : List Event) : Prop where
  displayed : ∀ q text, .showed q text ∈ log → ((q.render (shownStyle color)).on w).1 = .ok text
  handed : ∀ c f before, .called c f :: before <:+ log → ∃ q, lastShown? before = some q ∧
    Stands before q ∧ ((q.render .plain).on w).1 = .ok c.diff
  once : ∀ c f before, .called c f :: before <:+ log → NoSuccess before

variable {w : Workspace} {color : Bool} {Stands Stands' : List Event → Patch → Prop}
  {log old t : List Event} {e : Event} {input rest : List String} {d d' : Desk}

theorem NoSuccess.cons (h : NoSuccess log) (he : ∀ c, e ≠ .called c none) : NoSuccess (e :: log) := by
  intro c hc
  rcases List.mem_cons.1 hc with rfl | hc
  · exact he c rfl
  · exact h c hc

/-- The last call failed, if none has succeeded. -/
theorem NoSuccess.lastResult?_ne (h : NoSuccess log) : lastResult? log ≠ some none := by
  intro hlast
  obtain ⟨e, he, hresult⟩ := List.exists_of_findSome?_eq_some hlast
  cases e with
  | called c f =>
      cases hresult
      exact h c he
  | _ => cases hresult

namespace Faithful

theorem nil : Faithful w color Stands [] :=
  ⟨fun _ _ h => absurd h List.not_mem_nil,
    fun _ _ _ h => absurd (List.suffix_nil.1 h) (List.cons_ne_nil _ _),
    fun _ _ _ h => absurd (List.suffix_nil.1 h) (List.cons_ne_nil _ _)⟩

/-- Where no patch stands there are no calls, so nothing depends on what stands. -/
theorem of_false (h : Faithful w color (fun _ _ => False) log) : Faithful w color Stands log := by
  refine ⟨h.displayed, ?_, h.once⟩
  intro c f before hc
  obtain ⟨q, -, hq, -⟩ := h.handed c f before hc
  cases hq

/-- An event that is not a call; if it shows a patch, it shows its text. -/
theorem cons (h : Faithful w color Stands log) (he : e.call? = none)
    (hshows : ∀ q text, e = .showed q text → ((q.render (shownStyle color)).on w).1 = .ok text) :
    Faithful w color Stands (e :: log) := by
  have hsuffix : ∀ {c f before}, .called c f :: before <:+ e :: log → .called c f :: before <:+ log := by
    intro c f before hc
    rcases List.suffix_cons_iff.1 hc with heq | hc
    · rw [List.cons.injEq] at heq
      rw [← heq.1] at he
      cases he
    · exact hc
  refine ⟨fun q text hq => ?_, fun c f before hc => h.handed c f before (hsuffix hc),
    fun c f before hc => h.once c f before (hsuffix hc)⟩
  rcases List.mem_cons.1 hq with heq | hq
  · exact hshows q text heq.symm
  · exact h.displayed q text hq

/-- A call with the plain text of the patch that was shown last. -/
theorem call (h : Faithful w color Stands log) (hopen : NoSuccess log) {c : Call} {q : Patch}
    (hshown : lastShown? log = some q) (hstands : Stands log q)
    (hdiff : ((q.render .plain).on w).1 = .ok c.diff) (f : Option ApplyFailure) :
    Faithful w color Stands (.called c f :: log) := by
  refine ⟨fun q text hq => ?_, ?_, ?_⟩
  · rcases List.mem_cons.1 hq with heq | hq
    · cases heq
    · exact h.displayed q text hq
  · intro c' f' before hc
    rcases List.suffix_cons_iff.1 hc with heq | hc
    · cases heq
      exact ⟨q, hshown, hstands, hdiff⟩
    · exact h.handed c' f' before hc
  · intro c' f' before hc
    rcases List.suffix_cons_iff.1 hc with heq | hc
    · cases heq
      exact hopen
    · exact h.once c' f' before hc

end Faithful

/-! ### Reviews that go on -/

/-- A review that goes on: `t` are its events so far, and `input` is what there was to read. -/
structure Underway (w : Workspace) (color : Bool) (old : List Event) (input : List String)
    (Stands : List Event → Patch → Prop) (d : Desk) (t : List Event) : Prop where
  agrees : w.Agrees d.workspace
  log_eq : d.log = t ++ old
  input_eq : input = (heard t).reverse ++ d.answers
  faithful : Faithful w color Stands t
  noSuccess : NoSuccess t

namespace Underway

/-- A review begins. -/
theorem start (d : Desk) : Underway d.workspace color d.log d.answers Stands d [] :=
  ⟨.refl _, rfl, rfl, .nil, by simp [NoSuccess]⟩

/-- A text, a patch or a question is shown. -/
theorem note (h : Underway w color old input Stands d t) (hcall : e.call? = none)
    (hanswer : e.answer? = none)
    (hshows : ∀ q text, e = .showed q text → ((q.render (shownStyle color)).on w).1 = .ok text) :
    Underway w color old input Stands { d with log := e :: d.log } (e :: t) := by
  refine ⟨h.agrees, by rw [h.log_eq]; rfl, ?_, h.faithful.cons hcall hshows, h.noSuccess.cons ?_⟩
  · rw [heard, List.filterMap_cons_none hanswer]
    exact h.input_eq
  · rintro c rfl
    cases hcall

/-- A text is shown. -/
theorem say (h : Underway w color old input Stands d t) (text : String) :
    ∃ d', (Review.say text).on d = (.ok ⟨⟩, d') ∧
      Underway w color old input Stands d' (.told text :: t) ∧ d'.answers = d.answers :=
  ⟨_, rfl, h.note rfl rfl (by simp), rfl⟩

/-- A question is asked. -/
theorem prompt (h : Underway w color old input Stands d t) (question : String) :
    ∃ text d', (Review.prompt color question).on d = (.ok ⟨⟩, d') ∧
      Underway w color old input Stands d' (.asked text :: t) ∧ d'.answers = d.answers :=
  ⟨_, _, rfl, h.note rfl rfl (by simp), rfl⟩

/-- A question with options is asked. -/
theorem promptChoice (h : Underway w color old input Stands d t) (question : String)
    (options : List String) :
    ∃ text d', (Review.promptChoice color question options).on d = (.ok ⟨⟩, d') ∧
      Underway w color old input Stands d' (.asked text :: t) ∧ d'.answers = d.answers :=
  h.prompt _

/-- A line is read. -/
theorem hear (h : Underway w color old input Stands d t) {line : String} (hline : d.answers = line :: rest) :
    ∃ d', (Review.hear line rest).on d = (.ok ⟨⟩, d') ∧
      Underway w color old input Stands d' (.answered line :: t) ∧ d'.answers = rest := by
  refine ⟨_, rfl, ⟨h.agrees, congrArg (List.cons _) h.log_eq, ?_, h.faithful.cons rfl (by simp),
    h.noSuccess.cons (by simp)⟩, rfl⟩
  have hheard : heard (.answered line :: t) = line :: heard t := rfl
  rw [hheard, List.reverse_cons, List.append_assoc, h.input_eq, hline]
  rfl

/-- An operation on the workspace that only reads. -/
theorem work (h : Underway w color old input Stands d t) {α : Type} {m : Work α} {a : α}
    (hm : m.Yields w a) : ∃ d', (Review.work m).on d = (.ok a, d') ∧
      Underway w color old input Stands d' t ∧ d'.answers = d.answers := by
  obtain ⟨w', hon, hagrees⟩ := hm d.workspace h.agrees
  exact ⟨_, on_work hon, ⟨hagrees, h.log_eq, h.input_eq, h.faithful, h.noSuccess⟩, rfl⟩

/-- A patch of readable files is shown, and its plain text comes back. -/
theorem present (h : Underway w color old input Stands d t) {p : Patch} (hp : p.Readable w) :
    ∃ text diff d', (Review.present color p).on d = (.ok diff, d') ∧
      Underway w color old input Stands d' (.showed p text :: t) ∧ d'.answers = d.answers ∧
      ((p.render .plain).on w).1 = .ok diff ∧ ((p.render (shownStyle color)).on w).1 = .ok text := by
  obtain ⟨text, htext⟩ := hp.render (shownStyle color)
  obtain ⟨diff, hdiff⟩ := hp.render .plain
  obtain ⟨d₁, hon₁, h₁, hanswers₁⟩ := h.work htext
  have hshows : ∀ q text', Event.showed p text = .showed q text' →
      ((q.render (shownStyle color)).on w).1 = .ok text' := by
    rintro _ _ ⟨⟩
    exact htext.on
  obtain ⟨d₂, hon₂, h₂, hanswers₂⟩ := (h₁.note rfl rfl hshows).work hdiff
  refine ⟨text, diff, d₂, ?_, h₂, hanswers₂.trans hanswers₁, hdiff.on, htext.on⟩
  rw [Review.present, on_bind hon₁]
  exact hon₂

end Underway

/-! ### Reviews at their end -/

/-- A review at its end: `ending` is how it ended. -/
structure Over (w : Workspace) (color : Bool) (old : List Event) (input : List String)
    (Stands : List Event → Patch → Prop) (ending : Ending) (d : Desk) (t : List Event) : Prop where
  log_eq : d.log = t ++ old
  input_eq : input = (heard t).reverse ++ d.answers
  faithful : Faithful w color Stands t
  closes : match ending with
    | .applied => ∃ c before, t = .called c none :: before
    | .skipped => NoSuccess t ∧ ∃ line before, t = .answered line :: before
    | .quit => NoSuccess t ∧ d.answers = [] ∧ ∃ text before, t = .asked text :: before

namespace Over

variable {ending : Ending}

/-- The review ended with success when the last call succeeded. -/
theorem applied_iff (h : Over w color old input Stands ending d t) :
    ending = .applied ↔ lastResult? t = some none := by
  have hcloses := h.closes
  cases ending with
  | applied =>
      obtain ⟨c, before, rfl⟩ := hcloses
      exact iff_of_true rfl rfl
  | skipped => exact iff_of_false (by simp) hcloses.1.lastResult?_ne
  | quit => exact iff_of_false (by simp) hcloses.1.lastResult?_ne

/-- The review was left when there was nothing to read after a question. -/
theorem quit_iff (h : Over w color old input Stands ending d t) :
    ending = .quit ↔ d.answers = [] ∧ ∃ text, t.head? = some (.asked text) := by
  have hcloses := h.closes
  cases ending with
  | applied =>
      obtain ⟨c, before, rfl⟩ := hcloses
      simp
  | skipped =>
      obtain ⟨-, line, before, rfl⟩ := hcloses
      simp
  | quit =>
      obtain ⟨-, hanswers, text, before, rfl⟩ := hcloses
      exact iff_of_true rfl ⟨hanswers, text, rfl⟩

/-- Without success no call has succeeded. -/
theorem noSuccess (h : Over w color old input Stands ending d t) (hending : ending ≠ .applied) :
    NoSuccess t := by
  have hcloses := h.closes
  cases ending with
  | applied => exact absurd rfl hending
  | skipped => exact hcloses.1
  | quit => exact hcloses.1

end Over

/-- What a review did between two desks: `t` are its events, `ending` is how it ended, and `Stands`
tells which patch stands after some events. -/
structure Reviewed (color : Bool) (Stands : List Event → Patch → Prop) (ending : Ending) (d d' : Desk)
    (t : List Event) : Prop where
  log_eq : d'.log = t ++ d.log
  input_eq : d.answers = (heard t).reverse ++ d'.answers
  displayed : ∀ q text, .showed q text ∈ t → ((q.render (shownStyle color)).on d.workspace).1 = .ok text
  handed : ∀ c f before, .called c f :: before <:+ t → ∃ q, lastShown? before = some q ∧
    Stands before q ∧ ((q.render .plain).on d.workspace).1 = .ok c.diff
  once : ∀ c f before, .called c f :: before <:+ t → NoSuccess before
  applied_iff : ending = .applied ↔ lastResult? t = some none
  quit_iff : ending = .quit ↔ d'.answers = [] ∧ ∃ text, t.head? = some (.asked text)
  noSuccess : ending ≠ .applied → NoSuccess t

theorem Over.reviewed {ending : Ending}
    (h : Over d.workspace color d.log d.answers Stands ending d' t) : Reviewed color Stands ending d d' t :=
  ⟨h.log_eq, h.input_eq, h.faithful.displayed, h.faithful.handed, h.faithful.once, h.applied_iff,
    h.quit_iff, h.noSuccess⟩

namespace Underway

/-- The review ends at a question. -/
theorem quit (h : Underway w color old input Stands d t) (hanswers : d.answers = [])
    (ht : ∃ text before, t = .asked text :: before) : Over w color old input Stands .quit d t :=
  ⟨h.log_eq, h.input_eq, h.faithful, h.noSuccess, hanswers, ht⟩

/-- The review ends at an answer. -/
theorem skipped (h : Underway w color old input Stands d t)
    (ht : ∃ line before, t = .answered line :: before) : Over w color old input Stands .skipped d t :=
  ⟨h.log_eq, h.input_eq, h.faithful, h.noSuccess, ht⟩

/-- A call that fails leaves the disk alone. -/
theorem disk_of_answer {a a' : Applier} {disk disk' : Disk} {c : Call} {f : ApplyFailure}
    (h : a.answer disk c = (some f, a', disk')) : disk' = disk := by
  cases a with
  | scripted answers =>
      cases answers with
      | nil => cases h
      | cons r answers =>
          cases h
          rfl
  | onDisk editor status =>
      rw [Applier.answer] at h
      split at h
      · cases h
        rfl
      · split at h
        · cases h
        · cases h
          rfl

/-- The patch that was shown last is handed over: the review ends with success, or goes on. -/
theorem apply (h : Underway w color old input Stands d t) {diff : String} (edit : Bool) {q : Patch}
    (hshown : lastShown? t = some q) (hstands : Stands t q)
    (hdiff : ((q.render .plain).on w).1 = .ok diff) :
    (∃ d' t', (Review.apply diff edit).on d = (.ok true, d') ∧
      Over w color old input Stands .applied d' t' ∧ heard t' = heard t) ∨
    ∃ d' t', (Review.apply diff edit).on d = (.ok false, d') ∧
      Underway w color old input Stands d' t' ∧ d'.answers = d.answers ∧ heard t' = heard t ∧
      lastShown? t' = some q := by
  rcases hanswer : d.applier.answer d.workspace.disk ⟨diff, edit⟩ with ⟨failure, applier, disk⟩
  have hget : (get : Session Desk).on d = (.ok d, d) := rfl
  have hfaithful := h.faithful.call h.noSuccess (c := ⟨diff, edit⟩) hshown hstands hdiff failure
  let d₁ : Desk := ⟨{ d.workspace with disk := disk }, d.answers, applier,
    .called ⟨diff, edit⟩ failure :: d.log⟩
  have hlog : d₁.log = (.called ⟨diff, edit⟩ failure :: t) ++ old :=
    congrArg (List.cons _) h.log_eq
  cases failure with
  | none =>
      left
      refine ⟨d₁, .called ⟨diff, edit⟩ none :: t, ?_, ⟨hlog, h.input_eq, hfaithful, _, _, rfl⟩, rfl⟩
      rw [Review.apply, on_bind hget, hanswer]
      rfl
  | some f =>
      right
      have hdisk := disk_of_answer hanswer
      have h₁ : Underway w color old input Stands d₁ (.called ⟨diff, edit⟩ (some f) :: t) := by
        refine ⟨?_, hlog, h.input_eq, hfaithful, h.noSuccess.cons (by simp)⟩
        have hworkspace : d₁.workspace = d.workspace := by
          change { d.workspace with disk := disk } = d.workspace
          rw [hdisk]
        rw [hworkspace]
        exact h.agrees
      have h₂ := h₁.note (e := .told (f.message ++ "\n")) rfl rfl (by simp)
      refine ⟨_, _, ?_, h₂, rfl, rfl, hshown⟩
      rw [Review.apply, on_bind hget, hanswer]
      rfl

end Underway

end Review

end Upkeep
