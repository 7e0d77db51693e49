/-
**Writes and their sites.**

A write is kept twice in a record: as a mention, and with the source of its call.  Both are put there
when the write finds its cvar, and both go when a table entry accounts for them, for a mention on the
line of a table entry goes whatever its role.  No other step touches either.

Main definitions:

* `Upkeep.Cvar.Record.InStep` — records with a site for every write, and for nothing else;
* `Upkeep.Cvar.Ledger.Reachable` — the ledgers that recording, attaching, searching and clearing
  lead to, in any order.

Main results:

* `Upkeep.Cvar.Record.InStep.write`, `Upkeep.Cvar.Record.InStep.scrub` — the steps that touch writes;
* `Upkeep.Cvar.Ledger.reachable_of_analyzeFiles` — the ledger of an analysis is reachable;
* `Upkeep.Cvar.Ledger.writes_are_sets` — **the writes with a site are the mentions that are writes**.
-/

import Upkeep.Cvar.Migration
import Upkeep.Proofs.Cvar.Analysis

set_option relaxedAutoImplicit false
set_option autoImplicit false

namespace Upkeep

namespace Cvar

open Files

/-! ### One record -/

namespace Record

variable {r : Record}

/-- The roles are in order, and the places of the writes with a site are those of the mentions that
are writes, written alike. -/
structure InStep (r : Record) : Prop where
  ordered : r.Ordered
  writes : r.writes.map Prod.fst = r.places .set

theorem inStep_empty : empty.InStep := ⟨ordered_empty, rfl⟩

/-- A mention that is no write. -/
theorem InStep.add (h : r.InStep) {role : Role} (hrole : role ≠ .set) (o : Occurrence) :
    (r.add role o).InStep := by
  refine ⟨h.ordered.add role o, ?_⟩
  rw [places_add_of_ne hrole.symm]
  exact h.writes

theorem InStep.note (h : r.InStep) (data : Registration) : (r.note data).InStep :=
  ⟨h.ordered.note data, h.writes⟩

theorem InStep.noteBounds (h : r.InStep) (b : Bounds) : (r.noteBounds b).InStep :=
  ⟨h.ordered.noteBounds b, h.writes⟩

/-- A write comes with its site, and one at the same place takes its place in both. -/
theorem InStep.write (h : r.InStep) (o : Occurrence) (site : WriteSite) :
    ((r.add .set o).noteWrite o site).InStep := by
  refine ⟨(h.ordered.add .set o).noteWrite o site, ?_⟩
  rw [places_noteWrite, places_add_self h.ordered, Places.insert, ← h.writes]
  exact Data.map_fst_upsertBy o (fun _ => site) r.writes

/-- What the clearing of table lines takes at the place of a write is on such a line. -/
theorem any_tableNoise_iff (h : r.InStep) {o : Occurrence} (ho : o ∈ r.places .set) :
    r.tableNoise.any (o.same ·.2) = r.onTableLine o := by
  rw [Bool.eq_iff_iff, List.any_eq_true]
  constructor
  · rintro ⟨⟨role, p⟩, hp, hsame⟩
    obtain ⟨-, hnoise⟩ := List.mem_filter.1 hp
    obtain ⟨t, ht, hline⟩ := onTableLine_iff.1 (Bool.and_eq_true_iff.1 hnoise).2
    exact onTableLine_iff.2
      ⟨t, ht, Occurrence.sameLine_trans (Occurrence.sameLine_of_same hsame) hline⟩
  · intro hline
    refine ⟨(.set, o), List.mem_filter.2 ⟨(mem_mentions h.ordered).2 ho, ?_⟩, o.same_self⟩
    rw [hline]
    rfl

/-- The clearing of table lines takes a write and its site together. -/
theorem InStep.scrub (h : r.InStep) : r.scrub.InStep := by
  refine ⟨h.ordered.scrub, ?_⟩
  -- The sites are cleared by the mentions taken, the mentions by their lines.
  have hkept : ∀ w ∈ r.writes,
      (!r.tableNoise.any (w.1.same ·.2)) = !r.onTableLine w.1 := by
    intro w hw
    have hset : w.1 ∈ r.places .set := by
      rw [← h.writes]
      exact List.mem_map_of_mem hw
    rw [any_tableNoise_iff h hset]
  calc r.scrub.writes.map Prod.fst
      = (r.writes.filter fun w => !r.onTableLine w.1).map Prod.fst := by
        rw [Record.scrub, List.filter_congr hkept]
    _ = (r.writes.map Prod.fst).filter (!r.onTableLine ·) := by
        rw [List.filter_map]
        rfl
    _ = r.scrub.places .set := by
        rw [h.writes, places_scrub, if_neg (by decide)]

/-- A mention that is a write has a site. -/
theorem InStep.exists_writeAt? (h : r.InStep) {o : Occurrence} (ho : o ∈ r.places .set) :
    ∃ site, r.writeAt? o = some site := by
  rw [← h.writes] at ho
  obtain ⟨w, hw, rfl⟩ := List.mem_map.1 ho
  rw [writeAt?, Data.lookupBy, ← Option.isSome_iff_exists, Option.isSome_map,
    List.find?_isSome]
  exact ⟨w, hw, by simp [Occurrence.order_eq_iff]⟩

end Record

/-! ### Reachable ledgers -/

namespace Ledger

variable {l l' : Ledger}

/-- The ledgers to which findings, the attaching of writes, searches in texts and the clearing of
table lines lead from the ledger of nothing, in any number and order. -/
inductive Reachable : Ledger → Prop where
  | empty : Reachable .empty
  | record {l : Ledger} (h : Reachable l) (f : Finding) : Reachable (l.record f)
  | resolveWrites {l : Ledger} (h : Reachable l) : Reachable l.resolveWrites
  | textScan {l l' : Ledger} {dedup : Dedup} {files : List Path} {n : Nat} {w w' : Workspace}
      (h : Reachable l) (hscan : (l.textScan dedup files).on w = (.ok (l', n), w')) : Reachable l'
  | scrub {l : Ledger} (h : Reachable l) : Reachable l.scrub

theorem Reachable.recordAll (h : l.Reachable) (fs : List Finding) :
    (l.recordAll fs).Reachable := by
  induction fs generalizing l with
  | nil => exact h
  | cons f fs ih => exact ih (h.record f)

/-- The ledger of an analysis is reachable. -/
theorem reachable_of_analyzeFiles {d : Disk} {cfg : Settings} {request : Request}
    {sources : List Path} {files : List Cpp.Source} {a : Analysis}
    (h : analyzeFiles d cfg request sources files = .ok a) : a.ledger.Reachable := by
  obtain ⟨findings, -, hfinish, -⟩ := analyzeFiles_ok h
  have hledger := (Reachable.empty.recordAll findings).resolveWrites
  rw [finish] at hfinish
  split at hfinish
  · obtain ⟨⟨l', n⟩, w', hscan, hpure⟩ := on_bind_ok.1 hfinish
    rw [← Except.ok.inj (Prod.mk.inj hpure).1]
    exact (hledger.textScan hscan).scrub
  · rw [← Except.ok.inj (Prod.mk.inj hfinish).1]
    exact hledger.scrub

/-! ### All records -/

theorem kept_inStep : Kept Record.InStep (fun _ => True) fun _ => True where
  empty := Record.inStep_empty
  add _ hrole _ h := h.add hrole _
  note data h := h.note data
  noteBounds b h := h.noteBounds b
  write _ _ h := h.write _ _

theorem inStep_textScan {dedup : Dedup} {files : List Path} {n : Nat} {w w' : Workspace}
    (h : ∀ s ∈ l.symbols, s.2.InStep)
    (hscan : (l.textScan dedup files).on w = (.ok (l', n), w')) :
    ∀ s ∈ l'.symbols, s.2.InStep := by
  obtain ⟨texts, w₁, -, hpure⟩ := on_bind_ok.1 hscan
  cases hpure
  exact forall_scanTexts Record.inStep_empty h fun hit _ r hr => hr.add (by decide) hit.2

/-- Every step keeps writes and sites in step. -/
theorem Reachable.inStep (h : l.Reachable) : ∀ s ∈ l.symbols, s.2.InStep := by
  induction h with
  | empty => simp [Ledger.empty]
  | record h f ih => exact kept_inStep.record ih ⟨⟩
  | resolveWrites h ih => exact kept_inStep.resolveWrites ih fun _ _ => ⟨⟨⟩, ⟨⟩⟩
  | textScan h hscan ih => exact inStep_textScan ih hscan
  | scrub h ih =>
      intro s hs
      obtain ⟨s₀, hs₀, rfl⟩ := List.mem_map.1 hs
      exact (ih s₀ hs₀).scrub

/-- **The writes with a site are the mentions that are writes**: in every ledger that recording,
attaching, searching and clearing lead to, the writes of every record with a site are, place by place,
its mentions that are writes.  So a migration has a call for every write, and never marks the line of a
write for want of one.  The ledgers of analyses are among them. -/
theorem writes_are_sets :
    (∀ l : Ledger, l.Reachable → ∀ s ∈ l.symbols,
      s.2.writes.map Prod.fst = s.2.places .set ∧
        ∀ m : Migration, m.record = s.2 → ∀ o ∈ s.2.places .set,
          ∃ site, s.2.writeAt? o = some site ∧
            ∀ (plan : LinePlan) (w : Workspace), (m.planMention plan (.set, o)).on w =
              (.ok { plan with calls := plan.calls ++ [(site.call, m.writeCall site.value)] }, w)) ∧
    ∀ (d : Disk) (cfg : Settings) (request : Request) (sources : List Path)
      (files : List Cpp.Source) (a : Analysis),
      analyzeFiles d cfg request sources files = .ok a → a.ledger.Reachable := by
  refine ⟨?_, fun d cfg request sources files a ha => reachable_of_analyzeFiles ha⟩
  intro l hl s hs
  have hstep := hl.inStep s hs
  refine ⟨hstep.writes, ?_⟩
  intro m hm o ho
  obtain ⟨site, hsite⟩ := hstep.exists_writeAt? ho
  refine ⟨site, hsite, ?_⟩
  intro plan w
  rw [← hm] at hsite
  simp only [Migration.planMention, hsite]
  rfl

/-- A cvar that is written twice, once on the line of its table entry and before it is known. -/
def writtenFindings : List Finding :=
  [⟨.setCall "cg_fov" "\"90\"" "Cvar_Set(\"cg_fov\", \"90\")", ⟨⟨"a.cpp"⟩, 1, 30⟩⟩,
    ⟨.tableEntry "cg_fov" ⟨some "cg_fov", some "\"80\"", []⟩, ⟨⟨"a.cpp"⟩, 1, 2⟩⟩,
    ⟨.setCall "cg_fov" "\"70\"" "Cvar_Set(\"cg_fov\", \"70\")", ⟨⟨"a.cpp"⟩, 4, 3⟩⟩]

/-- Its record once the line of the table entry is cleared. -/
def writtenRecord : Record :=
  ⟨[(.table, [⟨⟨"a.cpp"⟩, 1, 2⟩]), (.set, [⟨⟨"a.cpp"⟩, 4, 3⟩])], ["cg_fov"], [], [], ["\"80\""],
    [(⟨⟨"a.cpp"⟩, 4, 3⟩, ⟨"\"70\"", "Cvar_Set(\"cg_fov\", \"70\")"⟩)]⟩

theorem writes_are_sets_written :
    (ledgerOf writtenFindings).scrub.symbols = [("cg_fov", writtenRecord)] ∧
      (∃ site, writtenRecord.writeAt? ⟨⟨"a.cpp"⟩, 4, 3⟩ = some site ∧
        ∀ (plan : LinePlan) (w : Workspace),
          ((Migration.ofRecord "cg_fov" writtenRecord).planMention plan
            (.set, ⟨⟨"a.cpp"⟩, 4, 3⟩)).on w =
          (.ok { plan with calls := plan.calls ++
            [(site.call, (Migration.ofRecord "cg_fov" writtenRecord).writeCall site.value)] }, w)) ∧
      ∃ a, analyzeFiles ⟨[], []⟩ {} searching [⟨"a.cpp"⟩]
          [sourceOf "vmCvar_t a;\nint y = a;\n" (definitionRows 0 1 ++ useRows 12 1)] = .ok a ∧
        a.ledger.Reachable := by
  have hsymbols : (ledgerOf writtenFindings).scrub.symbols = [("cg_fov", writtenRecord)] := by
    decide +kernel
  have hreachable : (ledgerOf writtenFindings).scrub.Reachable :=
    (Reachable.empty.recordAll writtenFindings).resolveWrites.scrub
  obtain ⟨hsets, hanalyses⟩ := writes_are_sets
  obtain ⟨-, hcalls⟩ := hsets _ hreachable ("cg_fov", writtenRecord) (by simp [hsymbols])
  refine ⟨hsymbols, hcalls (.ofRecord "cg_fov" writtenRecord) rfl _ (by decide +kernel), ?_⟩
  have hok : (analyzeFiles ⟨[], []⟩ {} searching [⟨"a.cpp"⟩]
      [sourceOf "vmCvar_t a;\nint y = a;\n"
        (definitionRows 0 1 ++ useRows 12 1)]).toOption.isSome = true := by decide +kernel
  obtain ⟨a, ha⟩ := Option.isSome_iff_exists.1 hok
  have ha := ok_of_toOption ha
  exact ⟨a, ha, hanalyses _ _ _ _ _ a ha⟩

end Ledger

end Cvar

end Upkeep
