/-
**What a verdict says.**

The rules for verdicts are tried in order, and each asks for something that a record or a policy holds.
With more mentions, more flags or more that counts, a rule that applied gives way only to one that speaks
for a use more strongly.

Main definitions:

* `Upkeep.Cvar.Role.bookkeeping`, `Upkeep.Cvar.Role.uses` — the two kinds of roles;
* `Upkeep.Cvar.Record.Below`, `Upkeep.Cvar.Policy.Below` — records and policies that hold no more than
  others.

Main results:

* `Upkeep.Cvar.classify_eq_dead_iff` — what makes a cvar dead;
* `Upkeep.Cvar.dead_named_on_own_lines` — **a dead cvar is named on lines of its own alone**;
* `Upkeep.Cvar.rank_classify_mono` — no verdict falls when more is held;
* `Upkeep.Cvar.verdict_monotone` — **more evidence never speaks against a use**.
-/

import Upkeep.Cvar.Verdict
import Upkeep.Proofs.Cvar.Facts

set_option relaxedAutoImplicit false
set_option autoImplicit false

namespace Upkeep

namespace Cvar

/-! ### Roles -/

namespace Role

/-- The roles of mentions that a cvar needs to be there at all, whether or not it is used. -/
def bookkeeping : List Role := [decl, define, get, table, set, range]

/-- The roles of mentions that show a use. -/
def uses : List Role := [int, float, string, other, text]

theorem mem_bookkeeping_of_not_mem_uses {role : Role} (h : role ∉ uses) : role ∈ bookkeeping := by
  cases role <;> simp_all [uses, bookkeeping]

end Role

/-! ### The dead -/

theorem Record.has_eq_false_iff {r : Record} {role : Role} :
    r.has role = false ↔ r.places role = [] := by simp [Record.has]

/-- A cvar is dead when it is defined and nothing shows a use of it. -/
theorem classify_eq_dead_iff {p : Policy} {r : Record} :
    classify p r = .dead ↔ r.places .define ≠ [] ∧ ∀ role ∈ Role.uses, r.places role = [] := by
  have hlive : r.has .text = false → p.textInLiveDir r = false := by
    intro h
    rw [Policy.textInLiveDir, Record.has_eq_false_iff.1 h, List.any_nil]
  simp only [Role.uses, List.forall_mem_cons, ← Record.has_eq_false_iff, ne_eq, Bool.not_eq_false]
  rw [classify]
  cases r.has .define with
  | false => simp
  | true =>
      cases htext : r.has .text with
      | false => simp [hlive htext, and_assoc]
      | true =>
          simp only [Bool.not_true, Bool.false_eq_true, if_false, if_true]
          split
          · simp
          · split <;> simp

/-- A word that is represented in the record of a dead cvar is so by a mention of its own: the cvar
has no others. -/
theorem Record.Shows.of_dead {p : Policy} {r : Record} {dedup : Dedup} {o : Occurrence}
    (h : r.Shows dedup o) (hdead : classify p r = .dead) :
    r.onTableLine o = true ∨
      ∃ role ∈ Role.bookkeeping, ∃ q ∈ r.places role, dedup.covers o q = true := by
  obtain ⟨-, hunused⟩ := classify_eq_dead_iff.1 hdead
  rcases h with htable | ⟨q, hq, -⟩ | ⟨role, -, q, hq, hcovers⟩
  · exact .inl htable
  · rw [hunused .text (by simp [Role.uses])] at hq
    simp at hq
  · have hbook : role ∈ Role.bookkeeping := by
      apply Role.mem_bookkeeping_of_not_mem_uses
      intro huse
      rw [hunused role huse] at hq
      simp at hq
    exact .inr ⟨role, hbook, q, hq, hcovers⟩

/-- **A dead cvar is named on lines of its own alone**: it has no mention that shows a use, and every
word of any text that names it stands on a line where it is declared, defined, registered, written or
checked. -/
theorem dead_named_on_own_lines {findings : List Finding} {dedup : Dedup}
    {texts : List (Path × List String)} {p : Policy} {name : String} {r : Record}
    (hget : (finishedLedger findings dedup texts).get? name = some r)
    (hdead : classify p r = .dead) :
    (∀ role ∈ Role.uses, r.places role = []) ∧
      ∀ file lines, (file, lines) ∈ texts → ∀ i line, lines[i]? = some line →
        ∀ w, Text.WholeWord line w →
          (finishedLedger findings dedup texts).textKeys.find? (Text.lower w.text) = some name →
          ∃ role ∈ Role.bookkeeping, ∃ o ∈ r.places role,
            Occurrence.sameLine ⟨file, i + 1, w.offset + 1⟩ o = true := by
  refine ⟨(classify_eq_dead_iff.1 hdead).2, ?_⟩
  intro file lines htexts i line hline w hw hkey
  have hshows := shows_finishedLedger hget htexts hline hw hkey
  rcases hshows.of_dead hdead with htable | ⟨role, hbook, o, ho, hcovers⟩
  · obtain ⟨o, ho, hsame⟩ := Record.onTableLine_iff.1 htable
    exact ⟨.table, by simp [Role.bookkeeping], o, ho, hsame⟩
  · exact ⟨role, hbook, o, ho, Dedup.sameLine_of_covers hcovers⟩

/-- The findings of a cvar with a table entry, from which its address is taken. -/
def tabledFindings : List Finding :=
  [⟨.declaration "cg_old" false, ⟨⟨"a.cpp"⟩, 1, 17⟩⟩, ⟨.declaration "cg_old" true, ⟨⟨"a.cpp"⟩, 2, 10⟩⟩,
    ⟨.addressOf "cg_old", ⟨⟨"a.cpp"⟩, 3, 3⟩⟩,
    ⟨.tableEntry "cg_old" ⟨some "cg_Old", some "\"0\"", []⟩, ⟨⟨"a.cpp"⟩, 3, 2⟩⟩]

def tabledTexts : List (Path × List String) :=
  [(⟨"a.cpp"⟩, ["extern vmCvar_t cg_old;", "vmCvar_t cg_old;", " &cg_old, \"cg_Old\", \"0\","])]

def tabledRecord : Record :=
  ⟨[(.decl, [⟨⟨"a.cpp"⟩, 1, 17⟩]), (.define, [⟨⟨"a.cpp"⟩, 2, 10⟩]), (.table, [⟨⟨"a.cpp"⟩, 3, 2⟩]),
    (.other, [])], ["cg_Old"], [], [], ["\"0\""], []⟩

theorem dead_named_on_own_lines_tabled :
    (finishedLedger tabledFindings .line tabledTexts).get? "cg_old" = some tabledRecord ∧
      classify ⟨[], []⟩ tabledRecord = .dead ∧
      (∀ role ∈ Role.uses, tabledRecord.places role = []) ∧
      ∀ file lines, (file, lines) ∈ tabledTexts → ∀ i line, lines[i]? = some line →
        ∀ w, Text.WholeWord line w →
          (finishedLedger tabledFindings .line tabledTexts).textKeys.find? (Text.lower w.text) =
            some "cg_old" →
          ∃ role ∈ Role.bookkeeping, ∃ o ∈ tabledRecord.places role,
            Occurrence.sameLine ⟨file, i + 1, w.offset + 1⟩ o = true :=
  have hget : (finishedLedger tabledFindings .line tabledTexts).get? "cg_old" =
      some tabledRecord := by decide +kernel
  have hdead : classify ⟨[], []⟩ tabledRecord = .dead := by decide +kernel
  ⟨hget, hdead, dead_named_on_own_lines hget hdead⟩

/-! ### More evidence -/

/-- Every mention and every flag of a record is one of the other. -/
structure Record.Below (r r' : Record) : Prop where
  places : ∀ role, r.places role ⊆ r'.places role
  flags : r.flags ⊆ r'.flags

/-- Every flag and every directory that counts for a policy counts for the other. -/
structure Policy.Below (p p' : Policy) : Prop where
  flags : p.liveFlags ⊆ p'.liveFlags
  dirs : p.liveTextDirs ⊆ p'.liveTextDirs

section Evidence

variable {p p' : Policy} {r r' : Record} {role : Role}

theorem Record.Below.refl (r : Record) : r.Below r :=
  ⟨fun _ => List.Subset.refl _, List.Subset.refl _⟩

theorem Policy.Below.refl (p : Policy) : p.Below p := ⟨List.Subset.refl _, List.Subset.refl _⟩

theorem Record.below_add (h : r.Ordered) (role : Role) (o : Occurrence) : r.Below (r.add role o) :=
  ⟨fun _ _ => Record.mem_places_add h, List.Subset.refl _⟩

theorem Record.below_note (r : Record) (data : Registration) : r.Below (r.note data) :=
  ⟨fun _ => List.Subset.refl _, fun _ hflag => Record.mem_addAllNew.2 (.inl hflag)⟩

theorem Record.Below.has (h : r.Below r') (hrole : r.has role = true) : r'.has role = true := by
  rw [← Bool.not_eq_false, Record.has_eq_false_iff] at hrole ⊢
  intro hnil
  have hsub := h.places role
  rw [hnil] at hsub
  exact hrole (List.eq_nil_of_subset_nil hsub)

theorem Policy.Below.flagged (hp : p.Below p') (hr : r.Below r') (h : p.flagged r = true) :
    p'.flagged r' = true := by
  obtain ⟨flag, hflag, hhas⟩ := List.any_eq_true.1 h
  rw [Record.hasFlag, List.contains_iff_mem] at hhas
  exact List.any_eq_true.2 ⟨flag, hp.flags hflag, List.contains_iff_mem.2 (hr.flags hhas)⟩

theorem Policy.Below.inAnyDirectory (hp : p.Below p') {file : Path}
    (h : file.inAnyDirectory p.liveTextDirs = true) : file.inAnyDirectory p'.liveTextDirs = true := by
  obtain ⟨dir, hdir, hin⟩ := List.any_eq_true.1 h
  exact List.any_eq_true.2 ⟨dir, hp.dirs hdir, hin⟩

theorem Policy.Below.textInLiveDir (hp : p.Below p') (hr : r.Below r')
    (h : p.textInLiveDir r = true) : p'.textInLiveDir r' = true := by
  obtain ⟨o, ho, hin⟩ := List.any_eq_true.1 h
  exact List.any_eq_true.2 ⟨o, hr.places .text ho, hp.inAnyDirectory hin⟩

theorem classify_eq_noDefinition_iff : classify p r = .noDefinition ↔ r.has .define = false := by
  rw [classify]
  cases r.has .define with
  | false => simp
  | true =>
      simp only [Bool.not_true, Bool.false_eq_true, if_false]
      split
      · simp
      · split
        · simp
        · split <;> simp

/-- A cvar is live when it is defined, and it is read, its address is taken, or it is mentioned in a text
where its flags make this a use. -/
theorem classify_eq_live_iff : classify p r = .live ↔ r.has .define = true ∧
    ((∃ role ∈ [Role.int, .float, .string, .other], r.has role = true) ∨
      p.flagged r = true ∧ p.textInLiveDir r = true) := by
  have hread : (∃ role ∈ [Role.int, .float, .string, .other], r.has role = true) ↔
      (r.has .int || r.has .float || r.has .string || r.has .other) = true := by simp [or_assoc]
  rw [hread, ← Bool.and_eq_true, ← Bool.or_eq_true, classify]
  cases r.has .define with
  | false => simp
  | true =>
      simp only [Bool.not_true, Bool.false_eq_true, if_false, true_and]
      split
      · rename_i h
        simp [h]
      · rename_i h
        rw [Bool.not_eq_true] at h
        rw [h, Bool.false_or]
        split
        · rename_i hcounts
          simp [hcounts]
        · rename_i hcounts
          split <;> simp [hcounts]

theorem Verdict.rank_le_two {v : Verdict} (h : v ≠ .live) : v.rank ≤ 2 := by
  cases v <;> simp_all [Verdict.rank]

/-- **No verdict falls when more is held.** -/
theorem rank_classify_mono (hp : p.Below p') (hr : r.Below r') :
    (classify p r).rank ≤ (classify p' r').rank := by
  cases hv : classify p' r' with
  | noDefinition =>
      have hundef := classify_eq_noDefinition_iff.1 hv
      have hnone : r.has .define = false := by
        rw [← Bool.not_eq_true] at hundef ⊢
        exact mt hr.has hundef
      rw [classify_eq_noDefinition_iff.2 hnone]
  | dead =>
      obtain ⟨-, hunused⟩ := classify_eq_dead_iff.1 hv
      cases hdef : r.has .define with
      | false =>
          rw [classify_eq_noDefinition_iff.2 hdef]
          exact Nat.zero_le _
      | true =>
          have hdead : classify p r = .dead := by
            rw [classify_eq_dead_iff, ne_eq, ← Record.has_eq_false_iff, hdef]
            refine ⟨Bool.noConfusion, fun role hrole => List.eq_nil_of_subset_nil ?_⟩
            rw [← hunused role hrole]
            exact hr.places role
          rw [hdead]
  | probablyLive =>
      refine Verdict.rank_le_two ?_
      intro hlive
      obtain ⟨hdef, hshown⟩ := classify_eq_live_iff.1 hlive
      have hlive' : classify p' r' = .live := by
        refine classify_eq_live_iff.2 ⟨hr.has hdef, ?_⟩
        rcases hshown with ⟨role, hrole, hhas⟩ | ⟨hflagged, htext⟩
        · exact .inl ⟨role, hrole, hr.has hhas⟩
        · exact .inr ⟨hp.flagged hr hflagged, hp.textInLiveDir hr htext⟩
      rw [hlive'] at hv
      cases hv
  | live => cases classify p r <;> decide

/-- **More evidence never speaks against a use.**  With one more mention of any role, with what one more
registration says, with more flags, or with more flags and directories that count, the verdict on a
defined cvar is not lower than before; and the lowest verdict is that on cvars without a mention that
shows a use. -/
theorem verdict_monotone (h : r.Ordered) (hdef : r.has .define = true) :
    (∀ role o, (classify p r).rank ≤ (classify p (r.add role o)).rank) ∧
    (∀ data, (classify p r).rank ≤ (classify p (r.note data)).rank) ∧
    (∀ flags, r.flags ⊆ flags → (classify p r).rank ≤ (classify p { r with flags := flags }).rank) ∧
    (∀ p', p.Below p' → (classify p r).rank ≤ (classify p' r).rank) ∧
    classify p r ≠ .noDefinition ∧
    (classify p r = .dead ↔ ∀ role ∈ Role.uses, r.places role = []) := by
  have hdefined : r.places .define ≠ [] := by
    rw [ne_eq, ← Record.has_eq_false_iff, hdef]
    exact Bool.noConfusion
  refine ⟨?_, ?_, ?_, ?_, ?_, ?_⟩
  · exact fun role o => rank_classify_mono (.refl p) (Record.below_add h role o)
  · exact fun data => rank_classify_mono (.refl p) (Record.below_note r data)
  · exact fun flags hflags => rank_classify_mono (.refl p) ⟨fun _ => List.Subset.refl _, hflags⟩
  · exact fun p' hp => rank_classify_mono hp (.refl r)
  · rw [ne_eq, classify_eq_noDefinition_iff, hdef]
    exact Bool.noConfusion
  · rw [classify_eq_dead_iff, and_iff_right hdefined]

/-- A cvar that is mentioned in a game directory: registered for the server to see, it is live. -/
def mentionedRecord : Record :=
  (Record.empty.add .define ⟨⟨"/u/src/cgame/cg_main.cpp"⟩, 3, 10⟩).add .text
    ⟨⟨"/u/src/sgame/sg_main.cpp"⟩, 9, 4⟩

def gamePolicy : Policy := ⟨["CVAR_SERVERINFO"], ["src/sgame/"]⟩

theorem verdict_monotone_mentioned :
    mentionedRecord.Ordered ∧ mentionedRecord.has .define = true ∧
      classify gamePolicy mentionedRecord = .probablyLive ∧
      classify gamePolicy (mentionedRecord.note ⟨none, none, ["CVAR_SERVERINFO"]⟩) = .live ∧
      ∀ data, (classify gamePolicy mentionedRecord).rank ≤
        (classify gamePolicy (mentionedRecord.note data)).rank :=
  have hordered : mentionedRecord.Ordered :=
    (Record.ordered_empty.add .define _).add .text _
  have hdef : mentionedRecord.has .define = true := by decide +kernel
  ⟨hordered, hdef, by decide +kernel, by decide +kernel,
    (verdict_monotone hordered hdef).2.1⟩

end Evidence

end Cvar

end Upkeep
