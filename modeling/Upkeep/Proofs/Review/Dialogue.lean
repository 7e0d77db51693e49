/-
**Reviews do what was shown.**

Both dialogues are loops over the answers.  Every round keeps the review faithful: what goes to the
applier is what was shown last, and after a success there is no further round.  A removal can be shown
with more and more context, and the context in force goes along; of a migration the type and the
description are settled before anything is handed over.

Main definitions:

* `Upkeep.Review.widened` — a patch with as much context as was asked for.

Main results:

* `Upkeep.Review.over_removalLoop`, `Upkeep.Review.over_reviewRemoval` — the dialogue about a removal;
* `Upkeep.Review.over_reviewMigration` — the dialogue about a migration;
* `Upkeep.Review.reviews_faithful` — **reviews end, hand over what was shown last, and end as their last
  call did**.
-/

import Upkeep.Proofs.Cvar.Analysis
import Upkeep.Proofs.Cvar.MigrationReads
import Upkeep.Proofs.Review.Transcript

set_option relaxedAutoImplicit false
set_option autoImplicit false

namespace Upkeep

namespace Review

open Cvar Files

variable {w : Workspace} {old t : List Event} {input : List String} {d : Desk}
  {Stands : List Event → Patch → Prop}

/-! ### Removals -/

/-- How often more context was asked for. -/
def widenings (log : List Event) : Nat := (heard log).countP (choiceText · == "c")

/-- The patch with as much context as was asked for. -/
def widened (p : Patch) (log : List Event) : Patch := { p with context := p.context + widenings log }

theorem widened_congr (p : Patch) {log log' : List Event} (h : heard log' = heard log) :
    widened p log' = widened p log := by
  rw [widened, widened, widenings, widenings, h]

/-- An answer that does not ask for more context. -/
theorem widened_answered (p : Patch) {line : String} (h : choiceText line ≠ "c") (log : List Event) :
    widened p (.answered line :: log) = widened p log := by
  have hheard : heard (.answered line :: log) = line :: heard log := rfl
  rw [widened, widened, widenings, widenings, hheard, List.countP_cons_of_neg (by simpa using h)]

/-- An answer that asks for more context. -/
theorem widened_context (p : Patch) {line : String} (h : choiceText line = "c") (log : List Event) :
    widened p (.answered line :: log) =
      { widened p log with context := (widened p log).context + 1 } := by
  have hheard : heard (.answered line :: log) = line :: heard log := rfl
  rw [widened, widened, widenings, widenings, hheard, List.countP_cons_of_pos (by simpa using h)]
  rfl

/-- The dialogue about a removal. -/
theorem over_removalLoop (color : Bool) {p₀ : Patch} (hp₀ : p₀.Readable w) {answers : List String}
    (h : Underway w color old input (fun before q => q = widened p₀ before) d t)
    (hanswers : d.answers = answers) :
    ∃ ending d' t', (removalLoop color answers (widened p₀ t)).on d =
        (.ok (ending, widened p₀ t'), d') ∧
      Over w color old input (fun before q => q = widened p₀ before) ending d' t' := by
  induction answers generalizing d t with
  | nil =>
      obtain ⟨text, diff, d₁, hpresent, h₁, hanswers₁, -⟩ := h.present (p := widened p₀ t) hp₀
      obtain ⟨question, d₂, hprompt, h₂, hanswers₂⟩ := h₁.promptChoice "Apply patch?"
        ["yes", "no", "context++", "edit"]
      have hempty := hanswers₂.trans (hanswers₁.trans hanswers)
      refine ⟨.quit, d₂, _, ?_, h₂.quit hempty ⟨_, _, rfl⟩⟩
      rw [removalLoop, on_bind hpresent, on_bind hprompt]
      rfl
  | cons a rest ih =>
      obtain ⟨text, diff, d₁, hpresent, h₁, hanswers₁, hdiff, -⟩ :=
        h.present (p := widened p₀ t) hp₀
      obtain ⟨question, d₂, hprompt, h₂, hanswers₂⟩ := h₁.promptChoice "Apply patch?"
        ["yes", "no", "context++", "edit"]
      obtain ⟨d₃, hhear, h₃, hanswers₃⟩ := h₂.hear (hanswers₂.trans (hanswers₁.trans hanswers))
      -- Whatever is not asked of the context leaves the patch as it is.
      have hsame : choiceText a ≠ "c" →
          widened p₀ (.answered a :: .asked question :: .showed (widened p₀ t) text :: t) =
            widened p₀ t := fun hne => widened_answered p₀ hne _
      have happly : choiceText a ≠ "c" → ∀ edit : Bool, ∃ ending d' t',
          Session.on (do
            if ← apply diff edit then return (.applied, widened p₀ t)
            else removalLoop color rest (widened p₀ t)) d₃ = (.ok (ending, widened p₀ t'), d') ∧
          Over w color old input (fun before q => q = widened p₀ before) ending d' t' := by
        intro hne edit
        rcases h₃.apply edit rfl (hsame hne).symm hdiff with
          ⟨d', t', hon, hover, hheard⟩ | ⟨d', t', hon, hunder, hanswers', hheard, -⟩
        · refine ⟨.applied, d', t', ?_, hover⟩
          rw [on_bind hon, widened_congr p₀ hheard, hsame hne]
          rfl
        · obtain ⟨ending, d'', t'', hrun, hover⟩ := ih hunder (hanswers'.trans hanswers₃)
          rw [widened_congr p₀ hheard, hsame hne] at hrun
          refine ⟨ending, d'', t'', ?_, hover⟩
          rw [on_bind hon]
          exact hrun
      rw [removalLoop, on_bind hpresent, on_bind hprompt]
      dsimp only
      rw [on_bind hhear]
      -- What is left to do depends on the answer.
      split
      · rename_i hchoice
        exact happly (by simp [hchoice]) false
      · rename_i hchoice
        exact happly (by simp [hchoice]) true
      · rename_i hchoice
        refine ⟨.skipped, d₃, _, ?_, h₃.skipped ⟨_, _, rfl⟩⟩
        rw [hsame (by simp [hchoice])]
        rfl
      · rename_i hchoice
        have hrun := ih h₃ hanswers₃
        rwa [widened_context p₀ hchoice] at hrun
      · rename_i hchoice
        have hrun := ih h₃ hanswers₃
        rwa [hsame hchoice] at hrun

/-! ### Types -/

theorem ofChoice_ne_nothing (choice : String) (bounds : Option Bounds) :
    TypeAnswer.ofChoice choice bounds ≠ .nothing := by
  rw [TypeAnswer.ofChoice]
  split <;> simp

/-- The question about the type.  No type comes back only where there was nothing to read. -/
theorem underway_askType (color : Bool) (h : Underway w color old input Stands d t)
    {answers : List String} (hanswers : d.answers = answers) :
    ∃ r rest d' t', (askType color answers).on d = (.ok (r, rest), d') ∧
      Underway w color old input Stands d' t' ∧ d'.answers = rest ∧ rest.length ≤ answers.length ∧
      (r = .nothing → rest = [] ∧ ∃ text before, t' = .asked text :: before) := by
  obtain ⟨question, d₁, hprompt, h₁, hanswers₁⟩ := h.prompt
    "Type [bool, int, float, string, range-int, range-float]:"
  rw [hanswers] at hanswers₁
  cases answers with
  | nil =>
      refine ⟨.nothing, [], d₁, _, ?_, h₁, hanswers₁, Nat.le_refl _, fun _ => ⟨rfl, _, _, rfl⟩⟩
      rw [askType.eq_def, on_bind hprompt]
      rfl
  | cons a rest =>
      obtain ⟨d₂, hhear, h₂, hanswers₂⟩ := h₁.hear hanswers₁
      rw [askType.eq_def, on_bind hprompt]
      dsimp only
      rw [on_bind hhear]
      split
      · -- A ranged type needs two more answers.
        obtain ⟨question₃, d₃, hprompt₃, h₃, hanswers₃⟩ := h₂.prompt "Min:"
        rw [hanswers₂] at hanswers₃
        rw [on_bind hprompt₃]
        cases rest with
        | nil =>
            exact ⟨.nothing, [], d₃, _, rfl, h₃, hanswers₃, Nat.zero_le _,
              fun _ => ⟨rfl, _, _, rfl⟩⟩
        | cons lo rest =>
            obtain ⟨d₄, hhear₄, h₄, hanswers₄⟩ := h₃.hear hanswers₃
            obtain ⟨question₅, d₅, hprompt₅, h₅, hanswers₅⟩ := h₄.prompt "Max:"
            rw [hanswers₄] at hanswers₅
            dsimp only
            rw [on_bind hhear₄, on_bind hprompt₅]
            cases rest with
            | nil =>
                exact ⟨.nothing, [], d₅, _, rfl, h₅, hanswers₅, Nat.zero_le _,
                  fun _ => ⟨rfl, _, _, rfl⟩⟩
            | cons hi rest =>
                obtain ⟨d₆, hhear₆, h₆, hanswers₆⟩ := h₅.hear hanswers₅
                dsimp only
                rw [on_bind hhear₆]
                exact ⟨_, rest, d₆, _, rfl, h₆, hanswers₆, by simp only [List.length_cons]; omega,
                  fun hnothing => absurd hnothing (ofChoice_ne_nothing _ _)⟩
      · exact ⟨_, rest, d₂, _, rfl, h₂, hanswers₂, Nat.le_succ _,
          fun hnothing => absurd hnothing (ofChoice_ne_nothing _ _)⟩

/-- The dialogue about the type of a migration, in which nothing is handed over. -/
theorem over_chooseType (color : Bool) (cfg : Settings) (context : Nat) {budget : Nat}
    {answers : List String} {m : Migration}
    (h : Underway w color old input (fun _ _ => False) d t) (hanswers : d.answers = answers)
    (hbudget : answers.length < budget) (hm : m.record.Readable w) :
    ∃ o m' rest d' t', (chooseType color cfg context budget answers m).on d =
        (.ok (o, m', rest), d') ∧
      m'.name = m.name ∧ m'.record = m.record ∧
      match o with
      | none => Underway w color old input (fun _ _ => False) d' t' ∧ d'.answers = rest
      | some ending => Over w color old input (fun _ _ => False) ending d' t' := by
  induction budget generalizing answers m d t with
  | zero => omega
  | succ budget ih =>
      obtain ⟨p, hpatch, hp⟩ := m.exists_yields_patch cfg context hm
      obtain ⟨d₁, hwork, h₁, hanswers₁⟩ := h.work hpatch
      obtain ⟨text, diff, d₂, hpresent, h₂, hanswers₂, -⟩ := h₁.present hp
      obtain ⟨question, d₃, hprompt, h₃, hanswers₃⟩ := h₂.promptChoice
        ("Migrate " ++ m.name ++ " as " ++ m.type.render ++ "?")
        ["accept", "reject", "type override"]
      rw [hanswers₂, hanswers₁, hanswers] at hanswers₃
      rw [chooseType.eq_def]
      dsimp only
      rw [on_bind hwork, on_bind hpresent, on_bind hprompt]
      cases answers with
      | nil =>
          exact ⟨some .quit, m, [], d₃, _, rfl, rfl, rfl, h₃.quit hanswers₃ ⟨_, _, rfl⟩⟩
      | cons a rest =>
          obtain ⟨d₄, hhear, h₄, hanswers₄⟩ := h₃.hear hanswers₃
          rw [List.length_cons] at hbudget
          dsimp only
          rw [on_bind hhear]
          split
          · exact ⟨none, m, rest, d₄, _, rfl, rfl, rfl, h₄, hanswers₄⟩
          · exact ⟨some .skipped, m, rest, d₄, _, rfl, rfl, rfl, h₄.skipped ⟨_, _, rfl⟩⟩
          · obtain ⟨r, rest', d₅, t₅, hask, h₅, hanswers₅, hlength, hnothing⟩ :=
              underway_askType color h₄ hanswers₄
            rw [on_bind hask]
            cases r with
            | type type => exact ih (m := { m with type := type }) h₅ hanswers₅ (by omega) hm
            | unknown =>
                obtain ⟨d₆, hsay, h₆, hanswers₆⟩ := h₅.say "unknown type\n"
                dsimp only
                rw [on_bind hsay]
                exact ih h₆ (hanswers₆.trans hanswers₅) (by omega) hm
            | nothing =>
                obtain ⟨rfl, hasked⟩ := hnothing rfl
                exact ⟨some .quit, m, [], d₅, t₅, rfl, rfl, rfl, h₅.quit hanswers₅ hasked⟩
          · exact ih h₄ hanswers₄ (by omega) hm

/-! ### Applying a migration -/

section Offer

variable {q : Patch} {diff : String}

/-- After a failure the same patch can be handed over again. -/
theorem over_retry (color : Bool) {answers : List String} (h : Underway w color old input Stands d t)
    (hanswers : d.answers = answers) (hshown : lastShown? t = some q)
    (hstands : ∀ before, Stands before q) (hdiff : ((q.render .plain).on w).1 = .ok diff) :
    ∃ ending d' t', (retry color diff answers).on d = (.ok ending, d') ∧
      Over w color old input Stands ending d' t' := by
  induction answers generalizing d t with
  | nil =>
      obtain ⟨question, d₁, hprompt, h₁, hanswers₁⟩ := h.promptChoice "Patch failed."
        ["edit again", "abandon"]
      refine ⟨.quit, d₁, _, ?_, h₁.quit (hanswers₁.trans hanswers) ⟨_, _, rfl⟩⟩
      rw [retry, on_bind hprompt]
      rfl
  | cons a rest ih =>
      obtain ⟨question, d₁, hprompt, h₁, hanswers₁⟩ := h.promptChoice "Patch failed."
        ["edit again", "abandon"]
      obtain ⟨d₂, hhear, h₂, hanswers₂⟩ := h₁.hear (hanswers₁.trans hanswers)
      rw [retry, on_bind hprompt, on_bind hhear]
      split
      · rcases h₂.apply true hshown (hstands _) hdiff with
          ⟨d₃, t₃, hon, hover, -⟩ | ⟨d₃, t₃, hon, h₃, hanswers₃, -, hshown₃⟩
        · rw [on_bind hon]
          exact ⟨.applied, d₃, t₃, rfl, hover⟩
        · rw [on_bind hon]
          exact ih h₃ (hanswers₃.trans hanswers₂) hshown₃
      · exact ⟨.skipped, d₂, _, rfl, h₂.skipped ⟨_, _, rfl⟩⟩
      · exact ih h₂ hanswers₂ hshown

/-- The patch that was shown is handed over, and after a failure again. -/
theorem over_offer (color : Bool) {answers : List String} (h : Underway w color old input Stands d t)
    (hanswers : d.answers = answers) (hshown : lastShown? t = some q)
    (hstands : ∀ before, Stands before q) (hdiff : ((q.render .plain).on w).1 = .ok diff) :
    ∃ ending d' t', (offer color diff answers).on d = (.ok ending, d') ∧
      Over w color old input Stands ending d' t' := by
  induction answers generalizing d t with
  | nil =>
      obtain ⟨question, d₁, hprompt, h₁, hanswers₁⟩ := h.promptChoice "Apply patch?"
        ["yes", "edit", "no"]
      refine ⟨.quit, d₁, _, ?_, h₁.quit (hanswers₁.trans hanswers) ⟨_, _, rfl⟩⟩
      rw [offer, on_bind hprompt]
      rfl
  | cons a rest ih =>
      obtain ⟨question, d₁, hprompt, h₁, hanswers₁⟩ := h.promptChoice "Apply patch?"
        ["yes", "edit", "no"]
      obtain ⟨d₂, hhear, h₂, hanswers₂⟩ := h₁.hear (hanswers₁.trans hanswers)
      have happly : ∀ edit : Bool, ∃ ending d' t', Session.on (do
          if ← apply diff edit then return .applied else retry color diff rest) d₂ =
            (.ok ending, d') ∧ Over w color old input Stands ending d' t' := by
        intro edit
        rcases h₂.apply edit hshown (hstands _) hdiff with
          ⟨d₃, t₃, hon, hover, -⟩ | ⟨d₃, t₃, hon, h₃, hanswers₃, -, hshown₃⟩
        · rw [on_bind hon]
          exact ⟨.applied, d₃, t₃, rfl, hover⟩
        · rw [on_bind hon]
          exact over_retry color h₃ (hanswers₃.trans hanswers₂) hshown₃ hstands hdiff
      rw [offer, on_bind hprompt, on_bind hhear]
      split
      · exact happly false
      · exact happly true
      · exact ⟨.skipped, d₂, _, rfl, h₂.skipped ⟨_, _, rfl⟩⟩
      · exact ih h₂ hanswers₂ hshown

end Offer

/-- The dialogue about a migration: what is handed over is the patch of the migration as it ended up. -/
theorem over_reviewMigration (color : Bool) (cfg : Settings) (context : Nat) {m : Migration}
    (hm : m.record.Readable d.workspace) :
    ∃ ending m' d' t, (reviewMigration color cfg context m).on d = (.ok (ending, m'), d') ∧
      m'.name = m.name ∧ m'.record = m.record ∧
      Over d.workspace color d.log d.answers
        (fun _ q => ((m'.patch cfg context).on d.workspace).1 = .ok q) ending d' t := by
  have hget : (get : Session Desk).on d = (.ok d, d) := rfl
  obtain ⟨o, m₁, rest, d₁, t₁, hchoose, hname, hrecord, hstate⟩ :=
    over_chooseType color cfg context (.start d) rfl (Nat.lt_succ_self _) hm
  rw [reviewMigration.eq_def, on_bind hget]
  dsimp only
  rw [on_bind hchoose]
  cases o with
  | some ending =>
      exact ⟨ending, m₁, d₁, t₁, rfl, hname, hrecord, hstate.log_eq, hstate.input_eq,
        hstate.faithful.of_false, hstate.closes⟩
  | none =>
      obtain ⟨h₁, hanswers₁⟩ := hstate
      obtain ⟨question, d₂, hprompt, h₂, hanswers₂⟩ := h₁.prompt "Description:"
      rw [hanswers₁] at hanswers₂
      dsimp only
      rw [on_bind hprompt]
      cases rest with
      | nil =>
          have hquit := h₂.quit hanswers₂ ⟨_, _, rfl⟩
          exact ⟨.quit, m₁, d₂, _, rfl, hname, hrecord, hquit.log_eq, hquit.input_eq,
            hquit.faithful.of_false, hquit.closes⟩
      | cons line rest =>
          obtain ⟨d₃, hhear, h₃, hanswers₃⟩ := h₂.hear hanswers₂
          -- Type and description are settled, and so is the patch.
          let m₂ : Migration := { m₁ with description := answerText line }
          have hm₂ : m₂.record.Readable d.workspace := by
            rw [show m₂.record = m.record from hrecord]
            exact hm
          obtain ⟨p, hpatch, hp⟩ := m₂.exists_yields_patch cfg context hm₂
          have h₃' : Underway d.workspace color d.log d.answers
              (fun _ q => ((m₂.patch cfg context).on d.workspace).1 = .ok q) d₃ _ :=
            ⟨h₃.agrees, h₃.log_eq, h₃.input_eq, h₃.faithful.of_false, h₃.noSuccess⟩
          obtain ⟨d₄, hwork, h₄, hanswers₄⟩ := h₃'.work hpatch
          obtain ⟨text, diff, d₅, hpresent, h₅, hanswers₅, hdiff, -⟩ := h₄.present hp
          obtain ⟨ending, d₆, t₆, hoffer, hover⟩ := over_offer color h₅
            (hanswers₅.trans (hanswers₄.trans hanswers₃)) rfl (fun _ => hpatch.on) hdiff
          refine ⟨ending, m₂, d₆, t₆, ?_, hname, hrecord, hover⟩
          dsimp only
          rw [on_bind hhear, on_bind hwork, on_bind hpresent, on_bind hoffer]
          rfl

/-- The dialogue about a removal from its beginning: what is handed over is the patch with as much context
as was asked for until then. -/
theorem over_reviewRemoval (color : Bool) {p : Patch} (hp : p.Readable d.workspace) :
    ∃ ending d' t, (reviewRemoval color p).on d = (.ok (ending, widened p t), d') ∧
      Over d.workspace color d.log d.answers (fun before q => q = widened p before) ending d' t := by
  have hget : (get : Session Desk).on d = (.ok d, d) := rfl
  rw [reviewRemoval, on_bind hget]
  exact over_removalLoop color hp (.start d) rfl

end Review

end Upkeep
