/-
**What is changed in a line.**

Where no mention puts something else in the place of a line, two things are changed in it: the calls that
write the cvar, and after them the reads that fit its type.  All that is between them stays.  The line is
marked if a call or a read is left, or if a mention is left for manual work.

Main definitions:

* `Upkeep.Cvar.Migration.ReadBecomes` — what the text of a read becomes.

Main results:

* `Upkeep.Cvar.Migration.swaps_migrateReads` — only the reads that fit are changed when reads are
  migrated;
* `Upkeep.Cvar.Migration.outcome_changes` — **what is changed in a line**.
-/

import Upkeep.Proofs.Cvar.Reads
import Upkeep.Proofs.Cvar.Uses

set_option relaxedAutoImplicit false
set_option autoImplicit false

namespace Upkeep

namespace Cvar

namespace Migration

variable {m : Migration} {cfg : Settings} {ms : List Mention} {before : Option Char} {s : List Char}
  {ps : List Piece}

/-- What the text of a read becomes, if the read fits. -/
def ReadBecomes (m : Migration) (cfg : Settings) (before : Option Char) (old : List Char)
    (after : Option Char) (new : List Char) : Prop :=
  ∃ q : ReadParts, old = q.text m.name ∧ q.Fits m.name (fieldNames cfg) before after ∧
    ∃ t, m.migrateRead? cfg q.field = some t ∧ new = t.toList

/-- Only the reads that fit are swapped. -/
theorem swaps_of_cut (h : Cut m.name (fieldNames cfg) before s ps) :
    Swaps (m.ReadBecomes cfg) before s (ps.flatMap fun piece => (m.migratePiece cfg piece).1) := by
  induction h with
  | nil before => exact .nil before
  | plain hnone hrest ih => exact .keep ih
  | @read before q s ps hfits hrest ih =>
      rw [List.flatMap_cons, migratePiece]
      cases ht : m.migrateRead? cfg q.field with
      | none => exact .keepAll _ ih
      | some t => exact .swap ⟨q, rfl, hfits, t, ht, rfl⟩ ih

theorem swaps_migrateReads (m : Migration) (cfg : Settings) (text : List Char) :
    Swaps (m.ReadBecomes cfg) none text (m.migrateReads cfg text).1 := by
  have hswaps := m.swaps_of_cut (cut_pieces m.name (fieldNames cfg) text)
  rwa [← List.flatMap_map (m.migratePiece cfg) Prod.fst] at hswaps

/-- **What is changed in a line** for which nothing else comes: the calls where they first stood, and
then the reads that fit.  It is marked if a call was missing or a mention is left for manual work, and
where it is not marked all reads were migrated. -/
theorem outcome_changes (m : Migration) (cfg : Settings) (line : String)
    (h : ms.any m.hides = false) :
    ∃ called missing new marked,
      m.outcome cfg ms line = [if marked then Diff.mark ++ new else new] ∧
      CallsTried (ms.filterMap m.call?) line.toList called missing ∧
      (if ms.any (·.1.isTypedRead) then Swaps (m.ReadBecomes cfg) none called new.toList
        else new.toList = called) ∧
      (ms.any (·.1.isTypedRead) = false → marked = (missing || ms.any m.marks)) ∧
      (missing = true ∨ ms.any m.marks = true → marked = true) ∧
      (marked = false → ms.any (·.1.isTypedRead) = true → m.ReadsMade cfg called new.toList) := by
  refine ⟨_, _, _, _, m.outcome_of_not_hides cfg line h, callsTried _ _, ?_⟩
  simp only [migrateLine, m.planOf_calls, m.planOf_migrateReads]
  generalize migrateCalls line.toList (ms.filterMap m.call?) = tried
  obtain ⟨called, missing⟩ := tried
  cases hread : ms.any (·.1.isTypedRead) with
  | false => simp
  | true =>
      simp only [if_true, String.toList_ofList]
      refine ⟨m.swaps_migrateReads cfg called, by simp, ?_, ?_⟩
      · rintro (rfl | hmarks)
        · rfl
        · rw [hmarks, Bool.or_true]
      · intro hmarked _
        rw [Bool.or_eq_false_iff, Bool.or_eq_false_iff] at hmarked
        exact readsMade (Prod.ext rfl hmarked.1.2)

end Migration

end Cvar

end Upkeep
