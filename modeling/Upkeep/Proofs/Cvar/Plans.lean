/-
**What a migration plans for a line.**

The plan of a line is put together from the mentions on it, in their order.  A declaration or a
definition gives the line a new text, a registration latches it or deletes it, and so on; what is read
and written there only counts when nothing of this kind happens.

Main definitions:

* `Upkeep.Cvar.Migration.planIn` — what a mention adds to the plan of its line, given the line;
* `Upkeep.Cvar.Migration.planOf` — the plan of a line with its mentions;
* `Upkeep.Cvar.Record.mentionsAt` — the mentions on a line;
* `Upkeep.Cvar.Migration.hides`, `Upkeep.Cvar.Migration.marks` — mentions that put something else in
  the place of the line, and mentions that are left for manual work;
* `Upkeep.Cvar.Migration.wholeOf?`, `Upkeep.Cvar.Migration.latchOf?` — the lines that come for a line.

Main results:

* `Upkeep.Cvar.Migration.plans_ok` — **the plans are those of the lines**;
* `Upkeep.Cvar.Migration.planOf_replaces`, `Upkeep.Cvar.Migration.planOf_mark`,
  `Upkeep.Cvar.Migration.planOf_migrateReads`, `Upkeep.Cvar.Migration.planOf_calls` — what is in a
  plan;
* `Upkeep.Cvar.Migration.planOf_whole`, `Upkeep.Cvar.Migration.planOf_latch` — the lines that a plan
  generates.
-/

import Upkeep.Cvar.Migration
import Upkeep.Proofs.Cvar.Record
import Upkeep.Proofs.Cvar.RemovalCount
import Upkeep.Proofs.Data.Ordered
import Upkeep.Proofs.Files.Workspace

set_option relaxedAutoImplicit false
set_option autoImplicit false

namespace Upkeep

namespace Cvar

open Files

variable {w w' : Workspace} {m : Migration} {file : Path} {n : Nat} {line : String}
  {ms : List Mention} {a : Mention}

/-! ### Mentions on a line -/

/-- The line of a mention. -/
def Mention.key (a : Mention) : LineKey := (a.2.file, a.2.line)

/-- Whether a mention stands on a line. -/
def Mention.standsAt (k : LineKey) (a : Mention) : Bool := LineKey.order k a.key == .eq

theorem LineKey.order_eq_iff {k k' : LineKey} :
    LineKey.order k k' = .eq ↔ k.1.same k'.1 = true ∧ k.2 = k'.2 := by
  rw [LineKey.order, Ordering.then_eq_eq, Path.compare_eq_eq_iff,
    Std.LawfulEqCmp.compare_eq_iff_eq]

/-- The mentions of a cvar on a line. -/
def Record.mentionsAt (r : Record) (k : LineKey) : List Mention := r.mentions.filter (·.standsAt k)

/-- The text of a line, or nothing. -/
def textAt (w : Workspace) (k : LineKey) : String := (w.lineAt? k.1 k.2).getD ""

theorem textAt_congr {k k' : LineKey} (h : LineKey.order k k' = .eq) (w : Workspace) :
    textAt w k = textAt w k' := by
  obtain ⟨hfile, hline⟩ := LineKey.order_eq_iff.1 h
  rw [textAt, textAt, lineAt?_congr w hfile, hline]

/-! ### The plan of a line -/

/-- Whether something else comes for a line, or nothing at all. -/
def LinePlan.replaces (plan : LinePlan) : Bool :=
  plan.whole.isSome || plan.latch.isSome || plan.delete

namespace Migration

/-- What a mention adds to the plan of its line. -/
def planIn (m : Migration) (line : String) (plan : LinePlan) (a : Mention) : LinePlan :=
  match a.1 with
  | .decl => { plan with whole := some (m.declaration (indentOf line)) }
  | .define =>
    let isStatic := "static ".toList.isPrefixOf (Text.trimStart line.toList)
    { plan with whole := some (m.definition (indentOf line) isStatic) }
  | .set =>
    match m.record.writeAt? a.2 with
    | some site => { plan with calls := plan.calls ++ [(site.call, m.writeCall site.value)] }
    | none => { plan with mark := true }
  | .int | .float | .string => { plan with migrateReads := true }
  | .get =>
    if latches m.record.flags then { plan with latch := some (m.latchCall (indentOf line)) }
    else { plan with delete := true }
  | .table => { plan with delete := true }
  | .range => if m.type.isRanged then { plan with delete := true } else { plan with mark := true }
  | .other | .text => { plan with mark := true }

/-- The plan of a line with some mentions. -/
def planOf (m : Migration) (line : String) (ms : List Mention) : LinePlan :=
  ms.foldl (m.planIn line) .none

/-- Whether what a mention adds to a plan depends on the text of the line. -/
def looks (m : Migration) (a : Mention) : Bool :=
  match a.1 with
  | .decl | .define => true
  | .get => latches m.record.flags
  | _ => false

/-- The text of the line is looked up when it is needed. -/
theorem planMention_eq (m : Migration) (plan : LinePlan) (a : Mention) (line : String) :
    m.planMention plan a =
      if m.looks a then do
        let found ← heldLine a.2.file a.2.line
        return m.planIn (found.getD "") plan a
      else return m.planIn line plan a := by
  obtain ⟨role, o⟩ := a
  cases role with
  | get => cases hlatch : latches m.record.flags <;> simp [planMention, looks, planIn, hlatch]
  | set => cases hsite : m.record.writeAt? o <;> simp [planMention, looks, planIn, hsite]
  | range => cases hranged : m.type.isRanged <;> simp [planMention, looks, planIn, hranged]
  | _ => rfl

/-- What a mention adds to a plan stays what it is. -/
theorem planMention_ok {plan plan' : LinePlan} (h : (m.planMention plan a).on w = (.ok plan', w')) :
    w.Extends w' ∧ ∀ w₁, w'.Extends w₁ → plan' = m.planIn (textAt w₁ a.key) plan a := by
  cases hlooks : m.looks a with
  | true =>
      rw [m.planMention_eq plan a "", hlooks, if_pos rfl] at h
      obtain ⟨found, w₂, hfound, hpure⟩ := on_bind_ok.1 h
      cases hpure
      obtain ⟨hext, hheld, hat⟩ := heldLine_ok hfound
      refine ⟨hext, ?_⟩
      intro w₁ hw₁
      rw [textAt, Mention.key, Workspace.lineAt?_extends hheld hw₁, hat]
  | false =>
      have hpure := fun line => m.planMention_eq plan a line
      simp only [hlooks, Bool.false_eq_true, if_false] at hpure
      constructor
      · rw [hpure ""] at h
        cases h
        exact .refl w
      · intro w₁ _
        rw [hpure (textAt w₁ a.key)] at h
        cases h
        rfl

/-! ### The plans of all lines -/

/-- The plans of lines after some mentions. -/
structure Planned (m : Migration) (w : Workspace) (done : List Mention)
    (plans : List (LineKey × LinePlan)) : Prop where
  increasing : Data.Increasing LineKey.order plans
  planned : ∀ k, (Data.lookupBy LineKey.order k plans).getD .none =
    m.planOf (textAt w k) (done.filter (·.standsAt k))

theorem planned_nil (m : Migration) (w : Workspace) : m.Planned w [] [] :=
  ⟨Data.increasing_nil, fun _ => rfl⟩

/-- One more mention is planned for. -/
theorem Planned.add {done : List Mention} {plans : List (LineKey × LinePlan)}
    (h : m.Planned w done plans) (a : Mention) :
    m.Planned w (done ++ [a]) (Data.upsertBy LineKey.order a.key (fun _ =>
      m.planIn (textAt w a.key) ((Data.lookupBy LineKey.order a.key plans).getD .none) a) plans) := by
  refine ⟨h.increasing.upsertBy _ _, ?_⟩
  intro k
  -- A key that names the line otherwise finds the same plan, and picks the same mentions.
  rw [Data.lookupBy_upsertBy h.increasing, List.filter_append, planOf, List.foldl_append]
  split
  · rename_i hk
    have hat : a.standsAt k = true := beq_iff_eq.2 hk
    have hsame : (done.filter (·.standsAt a.key)) = done.filter (·.standsAt k) := by
      apply List.filter_congr
      intro b _
      rw [Mention.standsAt, Mention.standsAt, Std.TransCmp.congr_left hk]
    rw [Option.getD_some, h.planned, hsame, textAt_congr hk]
    simp [hat, planOf]
  · rename_i hk
    have hat : a.standsAt k = false := by
      rw [Mention.standsAt, beq_eq_false_iff_ne]
      exact hk
    rw [h.planned]
    simp [hat, planOf]

/-- Mentions are planned for one after the other. -/
theorem planned_foldlM {plans plans' : List (LineKey × LinePlan)} {done : List Mention}
    (h : ∀ w₁, w.Extends w₁ → m.Planned w₁ done plans)
    (hrun : (ms.foldlM m.addMention plans).on w = (.ok plans', w')) :
    w.Extends w' ∧ ∀ w₁, w'.Extends w₁ → m.Planned w₁ (done ++ ms) plans' := by
  -- The plans are right in every later workspace, where all texts that were looked up are held.
  induction ms generalizing w plans done with
  | nil =>
      cases hrun
      refine ⟨.refl w', ?_⟩
      rwa [List.append_nil]
  | cons a ms ih =>
      rw [List.foldlM_cons, on_bind_ok] at hrun
      obtain ⟨plans₁, w₁, hadd, hrun⟩ := hrun
      obtain ⟨plan, w₂, hplan, hpure⟩ := on_bind_ok.1 hadd
      cases hpure
      obtain ⟨hext, hplan⟩ := planMention_ok hplan
      have hadded : ∀ w₂, w₁.Extends w₂ → m.Planned w₂ (done ++ [a])
          (Data.upsertBy LineKey.order a.key (fun _ => plan) plans) := by
        intro w₂ hw₂
        rw [hplan w₂ hw₂]
        exact (h w₂ (hext.trans hw₂)).add a
      obtain ⟨hext', hrest⟩ := ih hadded hrun
      rw [List.append_assoc] at hrest
      exact ⟨hext.trans hext', hrest⟩

/-- **The plans are those of the lines**, in order. -/
theorem plans_ok {plans : List (LineKey × LinePlan)} (hrun : m.plans.on w = (.ok plans, w')) :
    w.Extends w' ∧ ∀ w₁, w'.Extends w₁ → m.Planned w₁ m.record.mentions plans :=
  planned_foldlM (fun w₁ _ => m.planned_nil w₁) hrun

/-! ### What is in a plan -/

/-- Whether a mention puts something else in the place of its line. -/
def hides (m : Migration) (a : Mention) : Bool :=
  match a.1 with
  | .decl | .define | .get | .table => true
  | .range => m.type.isRanged
  | _ => false

/-- Whether a mention is left for manual work. -/
def marks (m : Migration) (a : Mention) : Bool :=
  match a.1 with
  | .set => (m.record.writeAt? a.2).isNone
  | .range => !m.type.isRanged
  | .other | .text => true
  | _ => false

/-- The call of a write, and what it becomes. -/
def call? (m : Migration) (a : Mention) : Option (String × String) :=
  match a.1 with
  | .set => (m.record.writeAt? a.2).map fun site => (site.call, m.writeCall site.value)
  | _ => none

/-- What a mention adds to each part of a plan. -/
theorem planIn_adds (m : Migration) (line : String) (plan : LinePlan) (a : Mention) :
    (m.planIn line plan a).replaces = (plan.replaces || m.hides a) ∧
    (m.planIn line plan a).mark = (plan.mark || m.marks a) ∧
    (m.planIn line plan a).migrateReads = (plan.migrateReads || a.1.isTypedRead) ∧
    (m.planIn line plan a).calls = plan.calls ++ (m.call? a).toList := by
  obtain ⟨role, o⟩ := a
  cases role with
  | get =>
      cases hlatch : latches m.record.flags <;>
        simp [planIn, LinePlan.replaces, hides, marks, call?, Role.isTypedRead, hlatch]
  | set =>
      cases hsite : m.record.writeAt? o <;>
        simp [planIn, LinePlan.replaces, hides, marks, call?, Role.isTypedRead, hsite]
  | range =>
      cases hranged : m.type.isRanged <;>
        simp [planIn, LinePlan.replaces, hides, marks, call?, Role.isTypedRead, hranged]
  | _ => simp [planIn, LinePlan.replaces, hides, marks, call?, Role.isTypedRead]

/-- A line settles what one of its mentions does. -/
theorem planOf_any {g : LinePlan → Bool} {h : Mention → Bool}
    (hnone : g .none = false)
    (hadd : ∀ plan a, g (m.planIn line plan a) = (g plan || h a))
    (ms : List Mention) : g (m.planOf line ms) = ms.any h := by
  have hfold : ∀ plan, g (ms.foldl (m.planIn line) plan) = (g plan || ms.any h) := by
    induction ms with
    | nil => simp
    | cons a ms ih =>
        intro plan
        rw [List.foldl_cons, ih, hadd, List.any_cons, Bool.or_assoc]
  rw [planOf, hfold, hnone, Bool.false_or]

theorem planOf_replaces (m : Migration) (line : String) (ms : List Mention) :
    (m.planOf line ms).replaces = ms.any m.hides :=
  planOf_any (g := LinePlan.replaces) rfl (fun plan a => (m.planIn_adds line plan a).1) ms

theorem planOf_mark (m : Migration) (line : String) (ms : List Mention) :
    (m.planOf line ms).mark = ms.any m.marks :=
  planOf_any (g := LinePlan.mark) rfl (fun plan a => (m.planIn_adds line plan a).2.1) ms

theorem planOf_migrateReads (m : Migration) (line : String) (ms : List Mention) :
    (m.planOf line ms).migrateReads = ms.any (·.1.isTypedRead) :=
  planOf_any (g := LinePlan.migrateReads) rfl
    (fun plan a => (m.planIn_adds line plan a).2.2.1) ms

theorem planOf_calls (m : Migration) (line : String) (ms : List Mention) :
    (m.planOf line ms).calls = ms.filterMap m.call? := by
  have hfold : ∀ plan, (ms.foldl (m.planIn line) plan).calls =
      plan.calls ++ ms.filterMap m.call? := by
    induction ms with
    | nil => simp
    | cons a ms ih =>
        intro plan
        rw [List.foldl_cons, ih, (m.planIn_adds line plan a).2.2.2, List.append_assoc,
          List.filterMap_cons]
        cases m.call? a <;> rfl
  rw [planOf, hfold]
  rfl

/-! ### Generated lines -/

/-- The definition that comes for a line. -/
def definedAs (m : Migration) (line : String) : String :=
  m.definition (indentOf line) ("static ".toList.isPrefixOf (Text.trimStart line.toList))

/-- The declaration that comes for a line. -/
def declaredAs (m : Migration) (line : String) : String := m.declaration (indentOf line)

/-- The call that comes for a line with a registration. -/
def latchedAs (m : Migration) (line : String) : String := m.latchCall (indentOf line)

/-- The definition or the declaration that comes for a line with some mentions; a definition wins. -/
def wholeOf? (m : Migration) (line : String) (ms : List Mention) : Option String :=
  if ms.any (·.1 == .define) then some (m.definedAs line)
  else if ms.any (·.1 == .decl) then some (m.declaredAs line) else none

/-- The call that latches the cvar, if its flags say so and a line with some mentions registers it. -/
def latchOf? (m : Migration) (line : String) (ms : List Mention) : Option String :=
  if latches m.record.flags && ms.any (·.1 == .get) then some (m.latchedAs line) else none

/-- Nothing but definitions and declarations gives a line a new text. -/
theorem planIn_whole (m : Migration) (line : String) (plan : LinePlan) (a : Mention) :
    (m.planIn line plan a).whole = (m.wholeOf? line [a]).or plan.whole := by
  obtain ⟨role, o⟩ := a
  cases role with
  | get => cases hlatch : latches m.record.flags <;> simp [planIn, wholeOf?, hlatch]
  | set => cases hsite : m.record.writeAt? o <;> simp [planIn, wholeOf?, hsite]
  | range => cases hranged : m.type.isRanged <;> simp [planIn, wholeOf?, hranged]
  | define => simp [planIn, wholeOf?, definedAs]
  | decl => simp [planIn, wholeOf?, declaredAs]
  | _ => simp [planIn, wholeOf?]

/-- Nothing but registrations latches. -/
theorem planIn_latch (m : Migration) (line : String) (plan : LinePlan) (a : Mention) :
    (m.planIn line plan a).latch = (m.latchOf? line [a]).or plan.latch := by
  obtain ⟨role, o⟩ := a
  cases role with
  | get => cases hlatch : latches m.record.flags <;> simp [planIn, latchOf?, latchedAs, hlatch]
  | set => cases hsite : m.record.writeAt? o <;> simp [planIn, latchOf?, hsite]
  | range => cases hranged : m.type.isRanged <;> simp [planIn, latchOf?, hranged]
  | _ => simp [planIn, latchOf?]

/-- In a record with its roles in order, declarations come before definitions. -/
theorem declared_first {r : Record} (h : r.Ordered) (k : LineKey) :
    (r.mentionsAt k).Pairwise fun a b => a.1 = .define → b.1 ≠ .decl := by
  refine (h.pairwise_mentions.imp fun {a b} hle hdefine hdecl => ?_).filter _
  rw [hdefine, hdecl] at hle
  exact absurd hle (by decide)

/-- Where no declaration follows a definition, the plan of a line has what comes for it. -/
theorem planOf_whole (m : Migration) (line : String) {ms : List Mention}
    (hms : ms.Pairwise fun a b => a.1 = .define → b.1 ≠ .decl) :
    (m.planOf line ms).whole = m.wholeOf? line ms := by
  have hfold : ∀ plan, (ms.foldl (m.planIn line) plan).whole =
      (m.wholeOf? line ms).or plan.whole := by
    induction ms with
    | nil => exact fun plan => rfl
    | cons a ms ih =>
        intro plan
        obtain ⟨ha, hms⟩ := List.pairwise_cons.1 hms
        rw [List.foldl_cons, ih hms, planIn_whole, ← Option.or_assoc]
        congr 1
        -- What comes last wins, and behind a definition this is no declaration.
        have hdecl : a.1 = .define → ms.any (·.1 == .decl) = false := by
          intro hdefine
          rw [List.any_eq_false]
          intro b hb
          simpa using ha b hb hdefine
        rcases Bool.eq_false_or_eq_true (ms.any (·.1 == .define)) with hdefines | hdefines
        · simp [wholeOf?, hdefines]
        · rcases Bool.eq_false_or_eq_true (ms.any (·.1 == .decl)) with hdeclares | hdeclares
          · have hnot : (a.1 == .define) = false := by
              rw [beq_eq_false_iff_ne]
              intro hdefine
              rw [hdecl hdefine] at hdeclares
              cases hdeclares
            simp [wholeOf?, hdefines, hdeclares, hnot]
          · simp [wholeOf?, hdefines, hdeclares]
  rw [planOf, hfold]
  exact Option.or_none

theorem planOf_latch (m : Migration) (line : String) (ms : List Mention) :
    (m.planOf line ms).latch = m.latchOf? line ms := by
  have hfold : ∀ plan, (ms.foldl (m.planIn line) plan).latch =
      (m.latchOf? line ms).or plan.latch := by
    induction ms with
    | nil =>
        intro plan
        simp [latchOf?]
    | cons a ms ih =>
        intro plan
        rw [List.foldl_cons, ih, planIn_latch, ← Option.or_assoc]
        congr 1
        rcases Bool.eq_false_or_eq_true (ms.any (·.1 == .get)) with hget | hget <;>
          rcases Bool.eq_false_or_eq_true (a.1 == .get) with ha | ha <;>
          simp [latchOf?, hget, ha]
  rw [planOf, hfold]
  exact Option.or_none

end Migration

end Cvar

end Upkeep
