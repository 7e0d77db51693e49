/-
**Clearing the lines of tables, and searching the texts.**

The clearing takes the mentions that are on a line with a table entry of their cvar; the search adds the
words that no parsed mention accounts for.  Each may take away what the other one looks at.  But the
places of table entries always stay, so a second clearing finds nothing; and mentions in texts account
for no word, so a second search finds what the first one found.  Where a parsed mention accounts for all
words on its line, what the clearing takes is replaced by the table entry itself: the search finds the
same words before the clearing and after it, and none of them on a line of a table.

Main results:

* `Upkeep.Cvar.Record.scrub_scrub`, `Upkeep.Cvar.Ledger.scrub_scrub` — a second clearing;
* `Upkeep.Cvar.hits_scanTexts`, `Upkeep.Cvar.hits_scrub` — what is found after a search, and after a
  clearing;
* `Upkeep.Cvar.Ledger.scanTexts_scanTexts` — a second search;
* `Upkeep.Cvar.Ledger.scrub_scanTexts` — the clearing before the search and after it;
* `Upkeep.Cvar.clearing_and_search` — **what the clearing takes, and that it and the search can be
  repeated and exchanged**.
-/

import Upkeep.Proofs.Cvar.RecordingOrder

set_option relaxedAutoImplicit false
set_option autoImplicit false

namespace Upkeep

namespace Cvar

open Files

/-! ### One record -/

namespace Record

variable {r : Record} {o : Occurrence} {os : List Occurrence}

theorem onTableLine_congr_places {r' : Record} (h : r.places .table = r'.places .table) :
    r.onTableLine = r'.onTableLine := by
  funext o
  rw [onTableLine, onTableLine, h]

@[simp] theorem onTableLine_scrub (r : Record) : r.scrub.onTableLine = r.onTableLine :=
  onTableLine_congr_places (places_scrub_table r)

theorem onTableLine_addText (r : Record) (o : Occurrence) :
    (r.add .text o).onTableLine = r.onTableLine :=
  onTableLine_congr_places (places_add_of_ne (by decide) r o)

theorem roles_add (r : Record) (role : Role) (o : Occurrence) : (r.add role o).roles =
    Data.upsertBy Role.order role (fun ps => Places.insert (ps.getD []) o) r.roles := rfl

/-- The roles after the clearing. -/
theorem roles_scrub (r : Record) : r.scrub.roles = r.roles.map fun e =>
    (e.1, if e.1 = .table then e.2 else e.2.filter (!r.onTableLine ·)) := by
  simp [scrub]

theorem writes_scrub (r : Record) :
    r.scrub.writes = r.writes.filter fun w => !r.tableNoise.any (w.1.same ·.2) := rfl

/-- The mentions that the clearing leaves. -/
theorem mem_mentions_scrub {m : Mention} :
    m ∈ r.scrub.mentions ↔ m ∈ r.mentions ∧ (m.1 = .table ∨ r.onTableLine m.2 = false) := by
  obtain ⟨role, o⟩ := m
  simp only [mentions, roles_scrub, List.flatMap_map, List.mem_flatMap, List.mem_map, Prod.mk.injEq]
  constructor
  · rintro ⟨e, he, o', ho, rfl, rfl⟩
    split at ho
    · rename_i hrole
      exact ⟨⟨e, he, o', ho, rfl, rfl⟩, .inl hrole⟩
    · obtain ⟨ho, hline⟩ := List.mem_filter.1 ho
      exact ⟨⟨e, he, o', ho, rfl, rfl⟩, .inr (by simpa using hline)⟩
  · rintro ⟨⟨e, he, o', ho, rfl, rfl⟩, hkept⟩
    refine ⟨e, he, o', ?_, rfl, rfl⟩
    split
    · exact ho
    · rename_i hrole
      have hline := hkept.resolve_left hrole
      exact List.mem_filter.2 ⟨ho, by simp [hline]⟩

/-- A cleared record has nothing left to clear. -/
theorem tableNoise_scrub (r : Record) : r.scrub.tableNoise = [] := by
  rw [tableNoise, List.filter_eq_nil_iff]
  intro m hm
  rw [onTableLine_scrub]
  rcases (mem_mentions_scrub.1 hm).2 with htable | hline
  · simp [htable]
  · simp [hline]

/-- **A second clearing** changes nothing. -/
theorem scrub_scrub (r : Record) : r.scrub.scrub = r.scrub := by
  have hroles : r.scrub.scrub.roles = r.scrub.roles := by
    rw [roles_scrub r.scrub, onTableLine_scrub, roles_scrub, List.map_map]
    refine List.map_congr_left fun e _ => ?_
    by_cases hrole : e.1 = .table
    · simp [hrole]
    · simp [hrole, List.filter_filter]
  have hwrites : r.scrub.scrub.writes = r.scrub.writes := by
    rw [writes_scrub r.scrub, tableNoise_scrub]
    exact List.filter_eq_self.2 fun _ _ => rfl
  calc r.scrub.scrub
      = { r.scrub with roles := r.scrub.scrub.roles, writes := r.scrub.scrub.writes } := rfl
    _ = r.scrub := by rw [hroles, hwrites]

/-- What is cleared away does not grow by a mention in a text off the lines of tables. -/
theorem any_tableNoise_addText (h : r.Ordered) (ho : r.onTableLine o = false) (p : Occurrence) :
    (r.add .text o).tableNoise.any (p.same ·.2) = r.tableNoise.any (p.same ·.2) := by
  have hline : ∀ k, (r.add .text o).TableLine k ↔ r.TableLine k := by
    intro k
    simp [TableLine, tells_add h]
  rw [Bool.eq_iff_iff, any_tableNoise_iff_tells (h.add .text o), any_tableNoise_iff_tells h]
  constructor
  · rintro ⟨role, hrole, htells, htable⟩
    rw [hline] at htable
    rcases (tells_add h .text o).1 htells with htells | heq
    · exact ⟨role, hrole, htells, htable⟩
    · obtain ⟨-, hkey⟩ := Fact.mention.inj heq
      rw [hkey, ← onTableLine_iff_tableLine, ho] at htable
      cases htable
  · rintro ⟨role, hrole, htells, htable⟩
    exact ⟨role, hrole, (tells_add h .text o).2 (.inl htells), (hline _).2 htable⟩

/-- A mention in a text off the lines of tables can be added before the clearing or after it. -/
theorem scrub_addText (h : r.Ordered) (hplaces : Data.Ascending Occurrence.order (r.places .text))
    (ho : r.onTableLine o = false) : (r.add .text o).scrub = r.scrub.add .text o := by
  have hsame : ∀ p, o.order p = .eq → (!r.onTableLine p) = true := by
    intro p hp
    have hline := Occurrence.sameLine_of_same (Occurrence.same_of_order hp)
    rw [Bool.not_eq_true', ← Bool.not_eq_true, onTableLine_iff]
    rintro ⟨t, ht, hpt⟩
    rw [onTableLine_iff.2 ⟨t, ht, Occurrence.sameLine_trans hline hpt⟩] at ho
    cases ho
  have hroles : (r.add .text o).scrub.roles = (r.scrub.add .text o).roles := by
    rw [roles_scrub, onTableLine_addText, roles_add, roles_add, roles_scrub]
    refine Data.upsertBy_map (g := fun (role : Role) (ps : Places) =>
      if role = .table then ps else ps.filter (!r.onTableLine ·)) ?_ ?_
    · simp [ho]
    · intro e he hrole
      obtain ⟨role, ps⟩ := e
      obtain rfl : .text = role := Std.LawfulEqCmp.eq_of_compare hrole
      have hps : r.places .text = ps := by rw [places, (Data.lookupBy_eq_some_iff h).2 he]; rfl
      rw [hps] at hplaces
      exact hplaces.filter_insertBy (by simp [ho]) hsame
  have hwrites : (r.add .text o).scrub.writes = (r.scrub.add .text o).writes :=
    List.filter_congr fun w _ => by rw [any_tableNoise_addText h ho]
  calc (r.add .text o).scrub
      = { r with roles := (r.add .text o).scrub.roles, writes := (r.add .text o).scrub.writes } := rfl
    _ = r.scrub.add .text o := by rw [hroles, hwrites]; rfl

/-- A mention that is there adds nothing. -/
theorem add_eq_self (h : r.Ordered) {role : Role}
    (hplaces : Data.Ascending Occurrence.order (r.places role)) {p : Occurrence}
    (hp : p ∈ r.places role) (hsame : o.same p = true) : r.add role o = r := by
  obtain ⟨ps, hps⟩ : ∃ ps, Data.lookupBy Role.order role r.roles = some ps := by
    rw [places] at hp
    cases hfound : Data.lookupBy Role.order role r.roles with
    | none => simp [hfound] at hp
    | some ps => exact ⟨ps, rfl⟩
  have heq : r.places role = ps := by rw [places, hps, Option.getD_some]
  rw [heq] at hp hplaces
  have hinsert : Places.insert ps o = ps :=
    hplaces.insertBy_eq_self hp (Occurrence.order_eq_iff.2 hsame)
  have hroles : (r.add role o).roles = r.roles := by
    simpa [roles_add] using Data.map_upsertBy (g := id) h hps (by simp [hinsert])
  calc r.add role o
      = { r with roles := (r.add role o).roles } := rfl
    _ = r := by rw [hroles]

/-- Mentions in texts account for no words. -/
theorem accountsFor_addTexts (h : r.Ordered) (dedup : Dedup) (o : Occurrence) :
    (r.addTexts os).accountsFor dedup o = r.accountsFor dedup o := by
  have hplaces : ∀ role : Role, role.isParsed = true →
      (r.addTexts os).places role = r.places role := by
    intro role hparsed
    refine places_addTexts_of_ne ?_ r os
    rintro rfl
    simp [Role.isParsed] at hparsed
  rw [Bool.eq_iff_iff, accountsFor_iff (h.addTexts os), accountsFor_iff h]
  constructor
  · rintro ⟨role, hparsed, p, hp, hcovers⟩
    exact ⟨role, hparsed, p, hplaces role hparsed ▸ hp, hcovers⟩
  · rintro ⟨role, hparsed, p, hp, hcovers⟩
    exact ⟨role, hparsed, p, (hplaces role hparsed).symm ▸ hp, hcovers⟩

/-- Line by line the table entries account for the words that the mentions they replace accounted for. -/
theorem accountsFor_scrub (h : r.Ordered) (o : Occurrence) :
    r.scrub.accountsFor .line o = r.accountsFor .line o := by
  rw [Bool.eq_iff_iff, accountsFor_iff h.scrub, accountsFor_iff h]
  constructor
  · rintro ⟨role, hparsed, p, hp, hcovers⟩
    rw [← mem_mentions h.scrub, mem_mentions_scrub, mem_mentions h] at hp
    exact ⟨role, hparsed, p, hp.1, hcovers⟩
  · rintro ⟨role, hparsed, p, hp, hline⟩
    cases htable : r.onTableLine p with
    | false => exact ⟨role, hparsed, p, mem_places_scrub hp htable, hline⟩
    | true =>
        obtain ⟨t, ht, hpt⟩ := onTableLine_iff.1 htable
        refine ⟨.table, rfl, t, ?_, Occurrence.sameLine_trans hline hpt⟩
        rwa [places_scrub_table]

/-- A word on the line of a table entry is accounted for, line by line. -/
theorem onTableLine_eq_false (h : r.Ordered) (ho : r.accountsFor .line o = false) :
    r.onTableLine o = false := by
  rw [← Bool.not_eq_true, onTableLine_iff]
  rintro ⟨t, ht, hline⟩
  have hcovers : Dedup.line.covers o t = true := hline
  rw [(accountsFor_iff h).2 ⟨.table, rfl, t, ht, hcovers⟩] at ho
  cases ho

end Record

/-! ### The ledger -/

namespace Ledger

variable {l l' : Ledger} {name : String} {r : Record} {hit : Hit} {hs : List Hit} {dedup : Dedup}
  {texts : List (Path × List String)}

/-- The names of the cvars are in order, and so are the roles and the places of every record. -/
structure Sorted (l : Ledger) : Prop extends l.Ordered where
  places : ∀ s ∈ l.symbols, ∀ role, Data.Ascending Occurrence.order (s.2.places role)

theorem Tidy.sorted (h : l.Tidy) : l.Sorted := ⟨h.ordered, fun s hs => (h.records s hs).places⟩

theorem Sorted.addHit (h : l.Sorted) (hit : Hit) : (l.addHit hit).Sorted := by
  let Sets (r : Record) : Prop := r.Ordered ∧ ∀ role, Data.Ascending Occurrence.order (r.places role)
  have hadd : ∀ r, Sets r → Sets (r.add .text hit.2) := by
    rintro r ⟨hr, hplaces⟩
    refine ⟨hr.add .text hit.2, ?_⟩
    intro role
    by_cases hrole : role = .text
    · rw [hrole, Record.places_add_self hr]
      exact (hplaces .text).insertBy hit.2
    · rw [Record.places_add_of_ne hrole]
      exact hplaces role
  have hall : ∀ s ∈ (l.addHit hit).symbols, Sets s.2 :=
    forall_modify ⟨Record.ordered_empty, fun _ => .nil⟩
      (fun s hs => ⟨h.records s hs, h.places s hs⟩) hit.1 hadd
  exact ⟨h.toOrdered.addHit hit, fun s hs => (hall s hs).2⟩

/-- The words that are found depend on the names in texts, and on the words that every record accounts
for. -/
theorem hits_congr (h : l.Ordered) (hkeys : l'.textKeys = l.textKeys)
    (hrecords : ∀ name r, l.get? name = some r → ∃ r', l'.get? name = some r' ∧
      ∀ o, r'.accountsFor dedup o = r.accountsFor dedup o) :
    hits l' dedup texts = hits l dedup texts := by
  rw [hits, hits, hkeys]
  refine List.flatMap_congr fun t _ => List.filter_congr fun hit hmem => ?_
  obtain ⟨name, o⟩ := hit
  obtain ⟨_, _, _, _, _, hkey, _⟩ := mem_namedInLines.1 hmem
  obtain ⟨r, hget⟩ := get?_of_textKeys h hkey
  obtain ⟨r', hget', hsame⟩ := hrecords name r hget
  rw [isNews, isNews, hget, hget', Option.any_some, Option.any_some, hsame]

/-! ### A second clearing -/

/-- **A second clearing** changes nothing in any record. -/
theorem scrub_scrub (l : Ledger) : l.scrub.scrub = l.scrub := by
  simp [scrub, Record.scrub_scrub]

/-! ### A second search -/

/-- A search finds what the one before it found. -/
theorem hits_scanTexts (h : l.Ordered) :
    hits (l.scanTexts dedup texts) dedup texts = hits l dedup texts := by
  refine hits_congr h (textKeys_scanTexts h) ?_
  intro name r hget
  exact ⟨_, get?_scanTexts h hget, Record.accountsFor_addTexts (h.of_get? hget) dedup⟩

/-- A hit that is there adds nothing. -/
theorem addHit_eq_self (h : l.Sorted) (hget : l.get? hit.1 = some r) {p : Occurrence}
    (hp : p ∈ r.places .text) (hsame : hit.2.same p = true) : l.addHit hit = l := by
  have hplaces := h.places _ (Data.mem_of_lookupBy hget) .text
  have hadd : r.add .text hit.2 = r :=
    Record.add_eq_self (h.toOrdered.of_get? hget) hplaces hp hsame
  have hsymbols : (l.addHit hit).symbols = l.symbols := by
    simpa [addHit, modify] using Data.map_upsertBy (g := id) h.names hget (by simp [hadd])
  calc l.addHit hit
      = { l with symbols := (l.addHit hit).symbols } := rfl
    _ = l := by rw [hsymbols]

/-- **A second search** changes nothing. -/
theorem scanTexts_scanTexts (h : l.Sorted) :
    (l.scanTexts dedup texts).scanTexts dedup texts = l.scanTexts dedup texts := by
  have hsorted : (l.scanTexts dedup texts).Sorted :=
    List.foldlRecOn _ _ h fun _ hl hit _ => hl.addHit hit
  rw [scanTexts, hits_scanTexts h.toOrdered]
  refine List.foldlRecOn (motive := fun l' => l' = l.scanTexts dedup texts) _ _ rfl ?_
  intro l' hl' hit hhit
  obtain ⟨r, hget⟩ := known_of_mem_hits h.toOrdered hhit
  have hmem : hit.2 ∈ hitsOn hit.1 (hits l dedup texts) :=
    List.mem_map_of_mem (List.mem_filter.2 ⟨hhit, by simp⟩)
  obtain ⟨p, hp, hsame⟩ := Record.exists_same_mem_addTexts (h.toOrdered.of_get? hget) hmem
  rw [hl']
  exact addHit_eq_self hsorted (get?_scanTexts h.toOrdered hget) hp hsame

/-! ### The clearing before the search -/

/-- Line by line, the search finds the same words before the clearing and after it. -/
theorem hits_scrub (h : l.Ordered) : hits l.scrub .line texts = hits l .line texts := by
  refine hits_congr h (textKeys_scrub l) ?_
  intro name r hget
  refine ⟨r.scrub, ?_, Record.accountsFor_scrub (h.of_get? hget)⟩
  rw [get?_scrub, hget, Option.map_some]

/-- The hit is on no line with a table entry of the cvar that it names. -/
def OffTables (l : Ledger) (hit : Hit) : Prop :=
  ∀ s ∈ l.symbols, s.1 = hit.1 → s.2.onTableLine hit.2 = false

/-- Line by line, no word is found on a line with a table entry of its cvar. -/
theorem offTables_of_mem_hits (h : l.Ordered) (hhit : hit ∈ hits l .line texts) :
    l.OffTables hit := by
  intro s hs hname
  obtain ⟨t, -, hhit⟩ := List.mem_flatMap.1 hhit
  have hnews := (List.mem_filter.1 hhit).2
  have hget : l.get? hit.1 = some s.2 := by
    rw [← hname]
    exact (Data.lookupBy_eq_some_iff h.names).2 hs
  rw [isNews, hget, Option.any_some, Bool.not_eq_true'] at hnews
  exact Record.onTableLine_eq_false (h.records s hs) hnews

theorem OffTables.addHit (h : l.OffTables hit) (hit' : Hit) : (l.addHit hit').OffTables hit := by
  refine Data.forall_mem_upsertBy (P := fun s : String × Record =>
    s.1 = hit.1 → s.2.onTableLine hit.2 = false) h ?_ ?_
  · intro _
    rw [Option.getD_none, Record.onTableLine_addText]
    rfl
  · intro _ r hr _ hname
    rw [Option.getD_some, Record.onTableLine_addText]
    exact hr hname

/-- One hit off the lines of tables can be added before the clearing or after it. -/
theorem scrub_addHit (h : l.Sorted) (hoff : l.OffTables hit) :
    (l.addHit hit).scrub = l.scrub.addHit hit := by
  have hsymbols : (l.addHit hit).scrub.symbols = (l.scrub.addHit hit).symbols := by
    refine Data.upsertBy_map (g := fun _ => Record.scrub) ?_ ?_
    · exact Record.scrub_addText Record.ordered_empty .nil rfl
    · intro s hs hname
      exact Record.scrub_addText (h.records s hs) (h.places s hs .text)
        (hoff s hs (Std.LawfulEqCmp.eq_of_compare hname).symm)
  calc (l.addHit hit).scrub
      = { l with symbols := (l.addHit hit).scrub.symbols } := rfl
    _ = l.scrub.addHit hit := by rw [hsymbols]; rfl

theorem scrub_addHits (h : l.Sorted) (hoff : ∀ hit ∈ hs, l.OffTables hit) :
    (hs.foldl addHit l).scrub = hs.foldl addHit l.scrub := by
  induction hs generalizing l with
  | nil => rfl
  | cons hit hs ih =>
      obtain ⟨hhit, hoff⟩ := List.forall_mem_cons.1 hoff
      rw [List.foldl_cons, List.foldl_cons, ← scrub_addHit h hhit]
      exact ih (h.addHit hit) fun hit' hmem => (hoff hit' hmem).addHit hit

/-- **The clearing and the search can be exchanged**, line by line. -/
theorem scrub_scanTexts (h : l.Sorted) :
    (l.scanTexts .line texts).scrub = l.scrub.scanTexts .line texts := by
  rw [scanTexts, scanTexts, hits_scrub h.toOrdered]
  exact scrub_addHits h fun _ => offTables_of_mem_hits h.toOrdered

end Ledger

/-! ### Reading twice -/

/-- Texts that are held are not read again. -/
theorem heldTexts_of_held {w : Workspace} {texts : List (Path × List String)}
    (h : ∀ t ∈ texts, w.held? t.1 = some t.2) :
    Work.on ((texts.map Prod.fst).mapM fun f => do return (f, ← heldLines f)) w = (.ok texts, w) := by
  induction texts with
  | nil => rfl
  | cons t texts ih =>
      obtain ⟨ht, h⟩ := List.forall_mem_cons.1 h
      rw [List.map_cons, List.mapM_cons, on_bind_ok]
      refine ⟨t, w, on_bind_ok.2 ⟨t.2, w, heldLines_of_held? ht, rfl⟩, ?_⟩
      exact on_bind_ok.2 ⟨texts, w, ih h, rfl⟩

/-- A second reading of the same texts gives them as they are. -/
theorem heldTexts_twice {α : Type} (files : List Path)
    (k : List (Path × List String) → List (Path × List String) → Work α) :
    (do
      let texts ← files.mapM fun f => do return (f, ← heldLines f)
      let again ← files.mapM fun f => do return (f, ← heldLines f)
      k texts again) = (do
      let texts ← files.mapM fun f => do return (f, ← heldLines f)
      k texts texts : Work α) := by
  funext w
  change Work.on _ w = Work.on _ w
  rw [on_bind, on_bind]
  rcases hread : Work.on (files.mapM fun f => do return (f, ← heldLines f)) w with ⟨e | texts, w'⟩
  · rfl
  · obtain ⟨-, hfiles, hheld⟩ := heldTexts_ok hread
    have hagain := heldTexts_of_held hheld
    rw [hfiles] at hagain
    dsimp only
    rw [on_bind, hagain]

/-! ### The clearing and the search -/

/-- **What the clearing takes, and that it and the search can be repeated and exchanged.**  Of a ledger
whose names, roles and places are in order, the clearing leaves, for every cvar, the mentions that are
table entries and those on lines without a table entry of the cvar, and no others; a second clearing
changes nothing.  A second search in the same files changes nothing, however words are accounted for.
And where mentions account for words line by line, the search after the clearing gives the same ledger
as the clearing after the search, and finds as many words. -/
theorem clearing_and_search {l : Ledger} (hl : l.Sorted) :
    (l.scrub.symbols.map Prod.fst = l.symbols.map Prod.fst ∧
      ∀ name r, l.get? name = some r → ∃ r', l.scrub.get? name = some r' ∧
        ∀ m : Mention, m ∈ r'.mentions ↔ m ∈ r.mentions ∧
          (m.1 = .table ∨ ∀ t, (.table, t) ∈ r.mentions → m.2.sameLine t = false)) ∧
    l.scrub.scrub = l.scrub ∧
    (∀ (dedup : Dedup) (files : List Path),
      (do
        let (l', _) ← l.textScan dedup files
        l'.textScan dedup files) = l.textScan dedup files) ∧
    ∀ files : List Path,
      (do
        let (l', n) ← l.textScan .line files
        return (l'.scrub, n)) = l.scrub.textScan .line files := by
  refine ⟨⟨?_, ?_⟩, l.scrub_scrub, ?_, ?_⟩
  · simp [Ledger.scrub]
  · intro name r hget
    refine ⟨r.scrub, by rw [Ledger.get?_scrub, hget, Option.map_some], ?_⟩
    intro m
    rw [Record.mem_mentions_scrub, ← Bool.not_eq_true (r.onTableLine m.2), Record.onTableLine_iff]
    simp [Record.mem_mentions (hl.toOrdered.of_get? hget)]
  · intro dedup files
    simp only [Ledger.textScan, bind_assoc, pure_bind]
    rw [heldTexts_twice]
    simp only [Ledger.scanTexts_scanTexts hl, Ledger.hits_scanTexts hl.toOrdered]
  · intro files
    simp only [Ledger.textScan, bind_assoc, pure_bind, Ledger.scrub_scanTexts hl,
      Ledger.hits_scrub hl.toOrdered]

/-- A cvar that is read on the line of its table entry and on the next one. -/
def readBesideEntry : List Finding :=
  [⟨.tableEntry "a" ⟨none, none, []⟩, ⟨⟨"a.cpp"⟩, 1, 2⟩⟩, ⟨.fieldRead "a" .int, ⟨⟨"a.cpp"⟩, 1, 15⟩⟩,
    ⟨.fieldRead "a" .int, ⟨⟨"a.cpp"⟩, 2, 9⟩⟩]

theorem clearing_and_search_besideEntry :
    (ledgerOf readBesideEntry).Sorted ∧
      (∃ r, (ledgerOf readBesideEntry).scrub.get? "a" = some r ∧
        r.mentions = [(.int, ⟨⟨"a.cpp"⟩, 2, 9⟩), (.table, ⟨⟨"a.cpp"⟩, 1, 2⟩)] ∧
        (.int, ⟨⟨"a.cpp"⟩, 1, 15⟩) ∉ r.mentions) ∧
      (ledgerOf readBesideEntry).scrub.scrub = (ledgerOf readBesideEntry).scrub ∧
      (do
        let (l, _) ← (ledgerOf readBesideEntry).textScan .exact [⟨"a.cpp"⟩]
        l.textScan .exact [⟨"a.cpp"⟩]) = (ledgerOf readBesideEntry).textScan .exact [⟨"a.cpp"⟩] ∧
      (do
        let (l, n) ← (ledgerOf readBesideEntry).textScan .line [⟨"a.cpp"⟩]
        return (l.scrub, n)) = (ledgerOf readBesideEntry).scrub.textScan .line [⟨"a.cpp"⟩] := by
  have hsorted := (tidy_ledgerOf readBesideEntry).sorted
  obtain ⟨⟨-, hleft⟩, htwice, hsearch, hexchange⟩ := clearing_and_search hsorted
  obtain ⟨r, hget⟩ : ∃ r, (ledgerOf readBesideEntry).get? "a" = some r :=
    Option.isSome_iff_exists.1 (by decide +kernel)
  obtain ⟨r', hget', hmentions⟩ := hleft "a" r hget
  have hshown : (((ledgerOf readBesideEntry).scrub.get? "a").map Record.mentions) =
      some [(.int, ⟨⟨"a.cpp"⟩, 2, 9⟩), (.table, ⟨⟨"a.cpp"⟩, 1, 2⟩)] := by decide +kernel
  rw [hget', Option.map_some, Option.some.injEq] at hshown
  refine ⟨hsorted, ⟨r', hget', hshown, ?_⟩, htwice, hsearch .exact _, hexchange _⟩
  -- The read beside the entry goes because of it.
  intro hmem
  have hentry : (.table, ⟨⟨"a.cpp"⟩, 1, 2⟩) ∈ r.mentions :=
    ((hmentions _).1 (by rw [hshown]; simp)).1
  rcases ((hmentions _).1 hmem).2 with htable | hline
  · cases htable
  · exact absurd (hline _ hentry) (by decide)

/-- Word by word the two cannot be exchanged: the clearing first leaves words that the search finds. -/
example : ((ledgerOf readBesideEntry).scanTexts .exact [(⟨"a.cpp"⟩, ["{ &a, 0 }, i(a.i)"])]).scrub ≠
    (ledgerOf readBesideEntry).scrub.scanTexts .exact [(⟨"a.cpp"⟩, ["{ &a, 0 }, i(a.i)"])] := by
  decide +kernel

end Cvar

end Upkeep
