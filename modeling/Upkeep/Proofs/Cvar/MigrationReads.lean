/-
**Patches for a cvar can be made.**

A listing shows the lines with mentions of its cvar, a removal deletes them, and a migration looks them
up and edits them.  So when the files of all mentions are readable, all of these can be made, and stay
the same as long as the disk does.

Main definitions:

* `Upkeep.Cvar.Record.Readable` — cvars with mentions in readable files.

Main results:

* `Upkeep.Cvar.exists_yields_listing`, `Upkeep.Cvar.exists_yields_removal` — the listing and the removal
  of a cvar in readable files;
* `Upkeep.Cvar.Migration.exists_yields_plans` — what happens to the lines is settled;
* `Upkeep.Cvar.Migration.exists_yields_patch` — **the patch of a migration of readable files**.
-/

import Upkeep.Cvar.Listing
import Upkeep.Cvar.Migration
import Upkeep.Proofs.Cvar.Removal
import Upkeep.Proofs.Data.Ordered
import Upkeep.Proofs.Patch.Reading

set_option relaxedAutoImplicit false
set_option autoImplicit false

namespace Upkeep

namespace Cvar

open Files

/-- The files of all mentions of a cvar are readable. -/
def Record.Readable (w : Workspace) (r : Record) : Prop := ∀ m ∈ r.mentions, w.Readable m.2.file

variable {w : Workspace}

theorem Record.Readable.mono {w' : Workspace} {r : Record} (h : r.Readable w) (hw : w.Agrees w') :
    r.Readable w' := fun m hm => (h m hm).mono hw

/-- The listing of a cvar in readable files can be made. -/
theorem exists_yields_listing (name : String) {r : Record} (h : r.Readable w) :
    ∃ text, (listing name r).Yields w text := by
  have hlines : ∀ m ∈ r.mentions, ∃ line, Work.Yields (do
      return mentionLine m ((← heldLine m.2.file m.2.line).getD "")) w line := by
    intro m hm
    obtain ⟨found, hfound⟩ := yields_heldLine (h m hm) m.2.line
    exact ⟨_, hfound.bind (.pure w _)⟩
  obtain ⟨body, hbody⟩ := Work.Yields.mapM hlines
  exact ⟨_, hbody.bind (.pure w _)⟩

/-- The removal of a cvar in readable files can be made, and touches readable files. -/
theorem exists_yields_removal {r : Record} (context : Nat) (h : r.Readable w) :
    ∃ p, (removal r context).Yields w p ∧ p.Readable w := by
  refine Work.Yields.foldlM (Patch.readable_empty w context) ?_
  rintro p hp ⟨file, line⟩ hline
  obtain ⟨mention, hmention, hkey⟩ := exists_of_mem_linesOf hline
  cases hkey
  obtain ⟨edited, hedit, hedited⟩ := hp.edit (h mention hmention) mention.2.line .delete
  exact ⟨_, hedit.bind (.pure w _), hedited⟩

namespace Migration

/-- A mention in a readable file is planned for. -/
theorem exists_yields_planMention (m : Migration) (plan : LinePlan) {mention : Mention}
    (h : w.Readable mention.2.file) : ∃ plan', (m.planMention plan mention).Yields w plan' := by
  obtain ⟨role, o⟩ := mention
  obtain ⟨found, hfound⟩ := yields_heldLine h o.line
  cases role with
  | decl => exact ⟨_, hfound.bind (.pure w _)⟩
  | define => exact ⟨_, hfound.bind (.pure w _)⟩
  | get =>
      cases hlatch : latches m.record.flags with
      | true =>
          simp only [planMention, hlatch]
          exact ⟨_, hfound.bind (.pure w _)⟩
      | false =>
          simp only [planMention, hlatch]
          exact ⟨_, .pure w _⟩
  | set =>
      simp only [planMention]
      cases m.record.writeAt? o with
      | none => exact ⟨_, .pure w _⟩
      | some site => exact ⟨_, .pure w _⟩
  | range =>
      cases hranged : m.type.isRanged with
      | true =>
          simp only [planMention, hranged]
          exact ⟨_, .pure w _⟩
      | false =>
          simp only [planMention, hranged]
          exact ⟨_, .pure w _⟩
  | _ => exact ⟨_, .pure w _⟩

/-- What happens to the lines is settled, and they lie in readable files. -/
theorem exists_yields_plans (m : Migration) (h : m.record.Readable w) :
    ∃ plans, m.plans.Yields w plans ∧ ∀ e ∈ plans, w.Readable e.1.1 := by
  refine Work.Yields.foldlM (P := fun plans : List (LineKey × LinePlan) =>
    ∀ e ∈ plans, w.Readable e.1.1) (by simp) ?_
  intro plans hplans mention hmention
  obtain ⟨plan, hplan⟩ := m.exists_yields_planMention
    ((Data.lookupBy LineKey.order (mention.2.file, mention.2.line) plans).getD .none)
    (h mention hmention)
  refine ⟨_, hplan.bind (.pure w _), ?_⟩
  refine Data.forall_mem_upsertBy hplans (h mention hmention) ?_
  intro k v hk _
  exact hk

/-- The plan of a line of a readable file is carried out. -/
theorem exists_yields_applyPlan (m : Migration) (cfg : Settings) {p : Patch} (hp : p.Readable w)
    {entry : LineKey × LinePlan} (h : w.Readable entry.1.1) :
    ∃ p', (m.applyPlan cfg p entry).Yields w p' ∧ p'.Readable w := by
  obtain ⟨⟨file, n⟩, plan⟩ := entry
  rw [applyPlan]
  split
  · obtain ⟨r, hr, hp'⟩ := hp.edit h n .delete
    exact ⟨r.2, hr.bind (.pure w _), hp'⟩
  · obtain ⟨found, hfound⟩ := yields_heldLine h n
    cases found with
    | none => exact ⟨p, hfound.bind (.pure w _), hp⟩
    | some held =>
        cases he : m.editOf cfg plan held with
        | none =>
            refine ⟨p, hfound.bind ?_, hp⟩
            simp only [he]
            exact .pure w p
        | some e =>
            obtain ⟨r, hr, hp'⟩ := hp.edit h n e
            refine ⟨r.2, hfound.bind ?_, hp'⟩
            simp only [he]
            exact hr.bind (.pure w _)

/-- **The patch of a migration of readable files** can be made, and touches readable files. -/
theorem exists_yields_patch (m : Migration) (cfg : Settings) (context : Nat)
    (h : m.record.Readable w) :
    ∃ p, (m.patch cfg context).Yields w p ∧ p.Readable w := by
  obtain ⟨plans, hplans, hreadable⟩ := m.exists_yields_plans h
  obtain ⟨p, hp, hp'⟩ := Work.Yields.foldlM (k := m.applyPlan cfg)
    (Patch.readable_empty w context) fun p hp entry hentry =>
      m.exists_yields_applyPlan cfg hp (hreadable entry hentry)
  exact ⟨p, hplans.bind hp, hp'⟩

end Migration

end Cvar

end Upkeep
