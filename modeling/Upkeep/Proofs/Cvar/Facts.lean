/-
**What a ledger tells.**

Apart from the order of flags and bounds, and from how the files of places are written, a ledger is the
set of the facts that it tells of the cvars.  Recording adds the facts of a finding to this set, and
every later step changes it in a way that depends on nothing else.

Main definitions:

* `Upkeep.Cvar.Occurrence.key` — a place, however its file is written;
* `Upkeep.Cvar.Fact`, `Upkeep.Cvar.Record.Tells`, `Upkeep.Cvar.Ledger.Tells` — facts, and who tells
  them;
* `Upkeep.Cvar.Record.Tidy`, `Upkeep.Cvar.Ledger.Tidy` — records and ledgers in order throughout;
* `Upkeep.Cvar.Record.Alike` — records that differ in no more than said above.

Main results:

* `Upkeep.Cvar.Record.Tidy.alike`, `Upkeep.Cvar.Ledger.Tidy.alike` — **records and ledgers are
  determined by what they tell**;
* `Upkeep.Cvar.Ledger.tells_recordAll`, `Upkeep.Cvar.Ledger.tells_resolveWrites`,
  `Upkeep.Cvar.Ledger.tells_addHits`, `Upkeep.Cvar.Record.tells_scrub` — what is told after each step.
-/

import Mathlib.Data.List.Forall2
import Upkeep.Proofs.Cvar.TextScan

set_option relaxedAutoImplicit false
set_option autoImplicit false

namespace Upkeep

namespace Cvar

/-! ### Places -/

namespace Occurrence

/-- A place, however its file is written: the components of the path, the line and the column. -/
abbrev Key := List Component × Nat × Nat

def key (o : Occurrence) : Key := (o.file.components, o.line, o.column)

variable {a b : Occurrence}

theorem key_eq_iff : a.key = b.key ↔ a.same b = true := by
  simp [key, same, Path.same_iff, and_assoc]

theorem order_eq_iff_key : a.order b = .eq ↔ a.key = b.key := order_eq_iff.trans key_eq_iff.symm

/-- Whether two places are on one line. -/
def Key.SameLine (k k' : Key) : Prop := k.1 = k'.1 ∧ k.2.1 = k'.2.1

theorem sameLine_iff_key : a.sameLine b = true ↔ a.key.SameLine b.key := sameLine_iff

end Occurrence

open Occurrence (Key)

/-! ### Facts -/

/-- What can be told of a cvar: that there is one, where it is mentioned, what is registered and
checked, and where it is written. -/
inductive Fact where
  | known
  | mention (role : Role) (k : Key)
  | display (s : String)
  | default (s : String)
  | flag (s : String)
  | bounds (b : Bounds)
  | write (k : Key) (site : WriteSite)

/-- The facts that a registration gives. -/
def Registration.facts (data : Registration) : List Fact :=
  data.display.toList.map .display ++ data.default.toList.map .default ++ data.flags.map .flag

namespace Record

variable {r r' : Record} {fact : Fact}

/-- What a record tells. -/
def Tells (r : Record) : Fact → Prop
  | .known => True
  | .mention role k => k ∈ (r.places role).map Occurrence.key
  | .display s => s ∈ r.displayNames
  | .default s => s ∈ r.defaults
  | .flag s => s ∈ r.flags
  | .bounds b => b ∈ r.bounds
  | .write k site => (k, site) ∈ r.writes.map fun w => (w.1.key, w.2)

theorem tells_empty : empty.Tells fact ↔ fact = .known := by
  cases fact <;> simp [Tells, empty, places]

/-- One more mention is one more fact. -/
theorem tells_add (h : r.Ordered) (role : Role) (o : Occurrence) :
    (r.add role o).Tells fact ↔ r.Tells fact ∨ fact = .mention role o.key := by
  cases fact with
  | mention role' k =>
      by_cases hrole : role' = role
      · subst hrole
        simp only [Tells, places_add_self h, Places.insert, Fact.mention.injEq, true_and]
        exact Data.mem_map_insertBy fun _ _ heq => Occurrence.order_eq_iff_key.1 heq
      · simp [Tells, places_add_of_ne hrole, hrole]
  | known => simp [Tells]
  | display s => simp [Tells, add]
  | default s => simp [Tells, add]
  | flag s => simp [Tells, add]
  | bounds b => simp [Tells, add]
  | write k site => simp [Tells, add]

theorem mem_addNew {α : Type} [DecidableEq α] {xs : List α} {x y : α} :
    y ∈ addNew xs x ↔ y ∈ xs ∨ y = x := by
  rw [addNew]
  split
  · rename_i hx
    rw [List.contains_iff_mem] at hx
    refine ⟨.inl, ?_⟩
    rintro (hy | rfl)
    · exact hy
    · exact hx
  · simp

theorem mem_addAllNew {α : Type} [DecidableEq α] {xs ys : List α} {y : α} :
    y ∈ ys.foldl addNew xs ↔ y ∈ xs ∨ y ∈ ys := by
  induction ys generalizing xs with
  | nil => simp
  | cons x ys ih => rw [List.foldl_cons, ih, mem_addNew, List.mem_cons, or_assoc]

theorem mem_addText {set : List String} {s : Option String} {t : String} :
    t ∈ addText set s ↔ t ∈ set ∨ t ∈ s.toList := by
  cases s with
  | none => simp [addText]
  | some s => simp [addText, Data.mem_insertBy_iff]

/-- A registration adds its facts. -/
theorem tells_note (r : Record) (data : Registration) :
    (r.note data).Tells fact ↔ r.Tells fact ∨ fact ∈ data.facts := by
  cases fact <;> simp [Tells, note, Registration.facts, mem_addText, mem_addAllNew, places]

theorem tells_noteBounds (r : Record) (b : Bounds) :
    (r.noteBounds b).Tells fact ↔ r.Tells fact ∨ fact = .bounds b := by
  cases fact <;> simp [Tells, noteBounds, mem_addNew, places]

/-- A write at a place without one is one more fact. -/
theorem tells_noteWrite {o : Occurrence} (hnew : ∀ site, ¬ r.Tells (.write o.key site))
    (site : WriteSite) :
    (r.noteWrite o site).Tells fact ↔ r.Tells fact ∨ fact = .write o.key site := by
  cases fact with
  | write k site' =>
      have hother : ∀ w ∈ r.writes, o.order w.1 ≠ .eq := by
        intro w hw heq
        apply hnew w.2
        rw [Occurrence.order_eq_iff_key.1 heq]
        exact List.mem_map_of_mem (f := fun w => (w.1.key, w.2)) hw
      simp only [Tells, noteWrite, List.mem_map, Data.mem_upsertBy_of_new hother, Fact.write.injEq]
      constructor
      · rintro ⟨w, hw | rfl, heq⟩
        · exact .inl ⟨w, hw, heq⟩
        · rw [Prod.mk.injEq] at heq
          exact .inr ⟨heq.1.symm, heq.2.symm⟩
      · rintro (⟨w, hw, heq⟩ | ⟨rfl, rfl⟩)
        · exact ⟨w, .inl hw, heq⟩
        · exact ⟨_, .inr rfl, rfl⟩
  | known => simp [Tells]
  | mention role k => simp [Tells]
  | display s => simp [Tells, noteWrite]
  | default s => simp [Tells, noteWrite]
  | flag s => simp [Tells, noteWrite]
  | bounds b => simp [Tells, noteWrite]

/-! ### Clearing -/

/-- Whether a table entry of the cvar is on the line of a place. -/
def TableLine (r : Record) (k : Key) : Prop := ∃ k', r.Tells (.mention .table k') ∧ k.SameLine k'

theorem onTableLine_iff_tableLine {o : Occurrence} :
    r.onTableLine o = true ↔ r.TableLine o.key := by
  rw [onTableLine_iff]
  constructor
  · rintro ⟨t, ht, hline⟩
    exact ⟨t.key, List.mem_map_of_mem ht, Occurrence.sameLine_iff_key.1 hline⟩
  · rintro ⟨k, hk, hline⟩
    obtain ⟨t, ht, rfl⟩ := List.mem_map.1 hk
    exact ⟨t, ht, Occurrence.sameLine_iff_key.2 hline⟩

/-- What table entries account for: other mentions on their lines, and writes at the places of these. -/
def Accounted (r : Record) : Fact → Prop
  | .mention role k => role ≠ .table ∧ r.TableLine k
  | .write k _ => ∃ role, role ≠ .table ∧ r.Tells (.mention role k) ∧ r.TableLine k
  | _ => False

theorem any_tableNoise_iff_tells (h : r.Ordered) {o : Occurrence} :
    r.tableNoise.any (o.same ·.2) = true ↔
      ∃ role, role ≠ .table ∧ r.Tells (.mention role o.key) ∧ r.TableLine o.key := by
  simp only [List.any_eq_true, tableNoise, List.mem_filter, Bool.and_eq_true, bne_iff_ne, Prod.exists,
    mem_mentions h, onTableLine_iff_tableLine, ← Occurrence.key_eq_iff]
  constructor
  · rintro ⟨role, p, ⟨hp, hrole, hline⟩, hkey⟩
    rw [hkey]
    exact ⟨role, hrole, List.mem_map_of_mem hp, hline⟩
  · rintro ⟨role, hrole, hp, hline⟩
    obtain ⟨p, hp, hkey⟩ := List.mem_map.1 hp
    rw [← hkey] at hline
    exact ⟨role, p, ⟨hp, hrole, hline⟩, hkey.symm⟩

/-- The clearing takes just what table entries account for. -/
theorem tells_scrub (h : r.Ordered) : r.scrub.Tells fact ↔ r.Tells fact ∧ ¬ r.Accounted fact := by
  cases fact with
  | mention role k =>
      simp only [Tells, Accounted, places_scrub]
      by_cases hrole : role = .table
      · simp [hrole]
      · simp only [hrole, if_false, ne_eq, not_false_eq_true, true_and, List.mem_map, List.mem_filter,
          Bool.not_eq_true', ← Bool.not_eq_true, onTableLine_iff_tableLine]
        constructor
        · rintro ⟨o, ⟨ho, hline⟩, rfl⟩
          exact ⟨⟨o, ho, rfl⟩, hline⟩
        · rintro ⟨⟨o, ho, rfl⟩, hline⟩
          exact ⟨o, ⟨ho, hline⟩, rfl⟩
  | write k site =>
      simp only [Tells, Accounted, scrub, List.mem_map, List.mem_filter, Bool.not_eq_true',
        ← Bool.not_eq_true, any_tableNoise_iff_tells h]
      constructor
      · rintro ⟨w, ⟨hw, hline⟩, heq⟩
        obtain ⟨rfl, rfl⟩ := Prod.mk.inj heq
        exact ⟨⟨w, hw, rfl⟩, hline⟩
      · rintro ⟨⟨w, hw, heq⟩, hline⟩
        obtain ⟨rfl, rfl⟩ := Prod.mk.inj heq
        exact ⟨w, ⟨hw, hline⟩, rfl⟩
  | known => simp [Tells, Accounted]
  | display s => simp [Tells, Accounted, scrub]
  | default s => simp [Tells, Accounted, scrub]
  | flag s => simp [Tells, Accounted, scrub]
  | bounds b => simp [Tells, Accounted, scrub]

theorem accounted_congr (h : ∀ fact, r.Tells fact ↔ r'.Tells fact) :
    r.Accounted fact ↔ r'.Accounted fact := by
  have hline : ∀ k, r.TableLine k ↔ r'.TableLine k := by simp [TableLine, h]
  cases fact <;> simp [Accounted, h, hline]

/-! ### Tidy records -/

/-- All sets of the record are in order, and its lists are without repetition. -/
structure Tidy (r : Record) : Prop where
  ordered : r.Ordered
  places : ∀ role, Data.Ascending Occurrence.order (r.places role)
  displayNames : Data.Ascending compare r.displayNames
  defaults : Data.Ascending compare r.defaults
  flags : r.flags.Nodup
  bounds : r.bounds.Nodup
  writes : Data.Increasing Occurrence.order r.writes

theorem tidy_empty : empty.Tidy :=
  ⟨ordered_empty, fun _ => .nil, .nil, .nil, .nil, .nil, .nil⟩

theorem Tidy.add (h : r.Tidy) (role : Role) (o : Occurrence) : (r.add role o).Tidy := by
  refine ⟨h.ordered.add role o, ?_, h.displayNames, h.defaults, h.flags, h.bounds, h.writes⟩
  intro role'
  by_cases hrole : role' = role
  · subst hrole
    rw [places_add_self h.ordered]
    exact (h.places role').insertBy o
  · rw [places_add_of_ne hrole]
    exact h.places role'

theorem nodup_addNew {α : Type} [DecidableEq α] {xs : List α} (h : xs.Nodup) (x : α) :
    (addNew xs x).Nodup := by
  rw [addNew]
  split
  · exact h
  · rename_i hx
    rw [List.contains_iff_mem] at hx
    exact List.nodup_append.2 ⟨h, List.nodup_singleton x, by grind⟩

theorem ascending_addText {set : List String} (h : Data.Ascending compare set) (s : Option String) :
    Data.Ascending compare (addText set s) := by
  cases s with
  | none => exact h
  | some s => exact h.insertBy s

theorem Tidy.note (h : r.Tidy) (data : Registration) : (r.note data).Tidy where
  ordered := h.ordered.note data
  places := h.places
  displayNames := ascending_addText h.displayNames _
  defaults := ascending_addText h.defaults _
  flags := List.foldlRecOn _ _ h.flags fun _ hflags s _ => nodup_addNew hflags s
  bounds := h.bounds
  writes := h.writes

theorem Tidy.noteBounds (h : r.Tidy) (b : Bounds) : (r.noteBounds b).Tidy :=
  ⟨h.ordered.noteBounds b, h.places, h.displayNames, h.defaults, h.flags, nodup_addNew h.bounds b,
    h.writes⟩

theorem Tidy.noteWrite (h : r.Tidy) (o : Occurrence) (site : WriteSite) :
    (r.noteWrite o site).Tidy :=
  ⟨h.ordered.noteWrite o site, h.places, h.displayNames, h.defaults, h.flags, h.bounds,
    h.writes.upsertBy o _⟩

theorem Tidy.scrub (h : r.Tidy) : r.scrub.Tidy := by
  refine ⟨h.ordered.scrub, ?_, h.displayNames, h.defaults, h.flags, h.bounds, h.writes.filter _⟩
  intro role
  rw [places_scrub]
  split
  · exact h.places role
  · exact (h.places role).filter _

/-- Records that differ in how the files of places are written, and in the order of flags and bounds,
at most. -/
structure Alike (r r' : Record) : Prop where
  places : ∀ role, List.Forall₂ (fun o o' => o.same o' = true) (r.places role) (r'.places role)
  displayNames : r.displayNames = r'.displayNames
  defaults : r.defaults = r'.defaults
  writes : List.Forall₂ (fun w w' => w.1.same w'.1 = true ∧ w.2 = w'.2) r.writes r'.writes
  flags : r.flags.Nodup ∧ r'.flags.Nodup ∧ ∀ s, s ∈ r.flags ↔ s ∈ r'.flags
  bounds : r.bounds.Nodup ∧ r'.bounds.Nodup ∧ ∀ b, b ∈ r.bounds ↔ b ∈ r'.bounds

/-- A tidy record is determined by what it tells. -/
theorem Tidy.alike (h : r.Tidy) (h' : r'.Tidy) (htells : ∀ fact, r.Tells fact ↔ r'.Tells fact) :
    r.Alike r' := by
  -- Whatever is in order is determined by its members, up to what the order takes for equal.
  have hset : ∀ {s s' : List String}, Data.Ascending compare s → Data.Ascending compare s' →
      (∀ t, t ∈ s ↔ t ∈ s') → s = s' := by
    intro s s' hs hs' hmem
    have hs : s.Pairwise fun a b => compare (id a) (id b) = .lt := hs
    have heq : s.map id = s'.map id := Data.map_eq_of_mem_iff (g := id)
      (fun a b (hab : a = b) => by simp [hab]) hs hs' (by simpa using hmem)
    simpa using heq
  have hplaces : ∀ role, (r.places role).map Occurrence.key = (r'.places role).map Occurrence.key :=
    fun role => Data.map_eq_of_mem_iff (g := id) (fun _ _ => Occurrence.order_eq_iff_key.2)
      (h.places role) (h'.places role) fun k => htells (.mention role k)
  have hwrites : r.writes.map (fun w => (w.1.key, w.2)) = r'.writes.map fun w => (w.1.key, w.2) :=
    Data.map_eq_of_mem_iff (g := Prod.fst)
      (fun _ _ heq => Occurrence.order_eq_iff_key.2 (Prod.mk.inj heq).1) h.writes h'.writes
      fun e => htells (.write e.1 e.2)
  refine ⟨?_, hset h.displayNames h'.displayNames fun s => htells (.display s),
    hset h.defaults h'.defaults fun s => htells (.default s), ?_,
    ⟨h.flags, h'.flags, fun s => htells (.flag s)⟩, ⟨h.bounds, h'.bounds, fun b => htells (.bounds b)⟩⟩
  · intro role
    have hforall := List.forall₂_eq_eq_eq ▸ hplaces role
    rw [List.forall₂_map_left_iff, List.forall₂_map_right_iff] at hforall
    exact hforall.imp fun _ _ => Occurrence.key_eq_iff.1
  · have hforall := List.forall₂_eq_eq_eq ▸ hwrites
    rw [List.forall₂_map_left_iff, List.forall₂_map_right_iff] at hforall
    exact hforall.imp fun _ _ heq =>
      ⟨Occurrence.key_eq_iff.1 (Prod.mk.inj heq).1, (Prod.mk.inj heq).2⟩

end Record

/-! ### What findings tell -/

namespace Finding

/-- The facts of one cvar, with that there is one. -/
def about (name : String) (facts : List Fact) : List (String × Fact) :=
  (.known :: facts).map (name, ·)

/-- The facts that a finding tells; a write tells none, for it only waits for its cvar. -/
def facts (f : Finding) : List (String × Fact) :=
  match f.shape with
  | .declaration name isDefinition =>
    about name [.mention (if isDefinition then .define else .decl) f.place.key]
  | .fieldRead name kind => about name [.mention (.ofRead kind) f.place.key]
  | .setCall .. => []
  | .rangeCheck name min max => about name [.mention .range f.place.key, .bounds ⟨min, max⟩]
  | .registration name data => about name (.mention .get f.place.key :: data.facts)
  | .tableEntry name data => about name (.mention .table f.place.key :: data.facts)
  | .addressOf name => about name [.mention .other f.place.key]
  | .unrecognized .. => []

/-- The write that a finding leaves waiting. -/
def write? (f : Finding) : Option PendingWrite :=
  match f.shape with
  | .setCall key value call => some ⟨key, f.place, ⟨value, call⟩⟩
  | _ => none

theorem mem_about {name name' : String} {facts : List Fact} {fact : Fact} :
    (name', fact) ∈ about name facts ↔ name' = name ∧ (fact = .known ∨ fact ∈ facts) := by
  simp only [about, List.mem_map, List.mem_cons, Prod.mk.injEq]
  constructor
  · rintro ⟨fact', hfact, rfl, rfl⟩
    exact ⟨rfl, hfact⟩
  · rintro ⟨rfl, hfact⟩
    exact ⟨fact, hfact, rfl, rfl⟩

end Finding

/-- The facts that a write tells once it has found its cvar. -/
def PendingWrite.facts (w : PendingWrite) : List Fact :=
  [.mention .set w.place.key, .write w.place.key w.site]

/-! ### Ledgers -/

namespace Ledger

variable {l l' : Ledger} {name : String} {fact : Fact}

/-- What a ledger tells of a cvar. -/
def Tells (l : Ledger) (name : String) (fact : Fact) : Prop :=
  ∃ r, l.get? name = some r ∧ r.Tells fact

/-- The names are in order, and the records tidy. -/
structure Tidy (l : Ledger) : Prop where
  names : Data.Increasing compare l.symbols
  records : ∀ s ∈ l.symbols, s.2.Tidy

theorem Tidy.ordered (h : l.Tidy) : l.Ordered := ⟨h.names, fun s hs => (h.records s hs).ordered⟩

theorem tidy_empty : empty.Tidy := ⟨Data.increasing_nil, by simp [empty]⟩

theorem Tidy.modify (h : l.Tidy) (name : String) {g : Record → Record}
    (hg : ∀ r : Record, r.Tidy → (g r).Tidy) : (l.modify name g).Tidy := by
  refine ⟨h.names.upsertBy _ _, Data.forall_mem_upsertBy h.records ?_ ?_⟩
  · exact hg _ Record.tidy_empty
  · intro _ r hr _
    exact hg r hr

theorem not_tells_empty : ¬ empty.Tells name fact := by
  rintro ⟨r, hget, -⟩
  cases hget

/-- What a change adds to one record, it adds to the ledger. -/
theorem tells_modify (h : l.Ordered) {name' : String} {g : Record → Record} {facts : List Fact}
    (hg : ∀ r : Record, r.Ordered → (∀ fact, r.Tells fact → fact = .known ∨ l.Tells name' fact) →
      ∀ fact, (g r).Tells fact ↔ r.Tells fact ∨ fact ∈ facts) :
    (l.modify name' g).Tells name fact ↔
      l.Tells name fact ∨ (name, fact) ∈ Finding.about name' facts := by
  rw [Finding.mem_about]
  by_cases hname : name = name'
  · subst hname
    simp only [Tells, get?_modify_self h, Option.some.injEq, exists_eq_left', true_and]
    -- The change begins with the empty record where there is none.
    cases hget : l.get? name with
    | none =>
        have hempty := hg .empty Record.ordered_empty fun fact htells =>
          .inl (Record.tells_empty.1 htells)
        simp [hempty, Record.tells_empty]
    | some r =>
        have hr := hg r (h.of_get? hget) fun fact htells => .inr ⟨r, hget, htells⟩
        simp only [Option.getD_some, hr, Option.some.injEq, exists_eq_left']
        constructor
        · rintro (htells | hfact)
          · exact .inl htells
          · exact .inr (.inr hfact)
        · rintro (htells | rfl | hfact)
          · exact .inl htells
          · exact .inl trivial
          · exact .inr hfact
  · simp [Tells, get?_modify_of_ne hname, hname]

/-! ### Recording -/

theorem Tidy.record (h : l.Tidy) (f : Finding) : (l.record f).Tidy := by
  obtain ⟨shape, o⟩ := f
  cases shape with
  | declaration name isDefinition => exact h.modify name fun r hr => hr.add _ o
  | fieldRead name kind => exact h.modify name fun r hr => hr.add _ o
  | setCall key value call => exact ⟨h.names, h.records⟩
  | rangeCheck name min max => exact h.modify name fun r hr => (hr.add _ o).noteBounds _
  | registration name data => exact h.modify name fun r hr => (hr.add _ o).note data
  | tableEntry name data => exact h.modify name fun r hr => (hr.add _ o).note data
  | addressOf name => exact h.modify name fun r hr => hr.add _ o
  | unrecognized name context => exact h

theorem Tidy.recordAll (h : l.Tidy) (fs : List Finding) : (l.recordAll fs).Tidy := by
  induction fs generalizing l with
  | nil => exact h
  | cons f fs ih => exact ih (h.record f)

/-- A finding adds its facts. -/
theorem tells_record (h : l.Ordered) (f : Finding) :
    (l.record f).Tells name fact ↔ l.Tells name fact ∨ (name, fact) ∈ f.facts := by
  obtain ⟨shape, o⟩ := f
  cases shape with
  | declaration name' isDefinition =>
      refine tells_modify h fun r hr _ fact => ?_
      rw [Record.tells_add hr, List.mem_singleton]
  | fieldRead name' kind =>
      refine tells_modify h fun r hr _ fact => ?_
      rw [Record.tells_add hr, List.mem_singleton]
  | setCall key value call => exact (or_iff_left (List.not_mem_nil)).symm
  | rangeCheck name' min max =>
      refine tells_modify h fun r hr _ fact => ?_
      rw [Record.tells_noteBounds, Record.tells_add hr, List.mem_pair, or_assoc]
  | registration name' data =>
      refine tells_modify h fun r hr _ fact => ?_
      rw [Record.tells_note, Record.tells_add hr, List.mem_cons, or_assoc]
  | tableEntry name' data =>
      refine tells_modify h fun r hr _ fact => ?_
      rw [Record.tells_note, Record.tells_add hr, List.mem_cons, or_assoc]
  | addressOf name' =>
      refine tells_modify h fun r hr _ fact => ?_
      rw [Record.tells_add hr, List.mem_singleton]
  | unrecognized name' context => exact (or_iff_left (List.not_mem_nil)).symm

/-- Findings add their facts. -/
theorem tells_recordAll (h : l.Ordered) (fs : List Finding) :
    (l.recordAll fs).Tells name fact ↔
      l.Tells name fact ∨ ∃ f ∈ fs, (name, fact) ∈ f.facts := by
  induction fs generalizing l with
  | nil => simp
  | cons f fs ih => rw [recordAll_cons, ih (h.record f), tells_record h, or_assoc, List.exists_mem_cons_iff]

theorem pending_record (l : Ledger) (f : Finding) :
    (l.record f).pending = l.pending ++ f.write?.toList := by
  obtain ⟨shape, o⟩ := f
  cases shape <;> simp [record, Finding.write?, modify]

/-- The writes of findings wait in the order in which they came. -/
theorem pending_recordAll (l : Ledger) (fs : List Finding) :
    (l.recordAll fs).pending = l.pending ++ fs.filterMap Finding.write? := by
  induction fs generalizing l with
  | nil => simp
  | cons f fs ih =>
      rw [recordAll_cons, ih, pending_record, List.append_assoc, List.filterMap_cons]
      cases f.write? <;> rfl

/-! ### Attaching writes -/

theorem Tidy.attach (h : l.Tidy) (keys : Keys) (w : PendingWrite) : (attach keys l w).Tidy := by
  rw [Ledger.attach]
  split
  · exact h.modify _ fun r hr => (hr.add _ _).noteWrite _ _
  · exact h

theorem Tidy.resolveWrites (h : l.Tidy) : l.resolveWrites.Tidy := by
  rw [Ledger.resolveWrites]
  exact List.foldlRecOn _ _ ⟨h.names, h.records⟩ fun _ hl w _ => Tidy.attach hl _ w

/-- Whether no write at a place is attached. -/
def Free (l : Ledger) (k : Key) : Prop := ∀ name site, ¬ l.Tells name (.write k site)

/-- A write at a place that is free adds its facts to the cvar for which its key stands. -/
theorem tells_attach (h : l.Ordered) {keys : Keys} {w : PendingWrite} (hfree : l.Free w.place.key) :
    (attach keys l w).Tells name fact ↔ l.Tells name fact ∨
      ∃ name', keys.find? w.key = some name' ∧ (name, fact) ∈ Finding.about name' w.facts := by
  rw [Ledger.attach]
  split
  · rename_i name' hkey
    simp only [hkey, Option.some.injEq, exists_eq_left']
    refine tells_modify h fun r hr hknown fact => ?_
    -- The mention that comes first is no write, so the place is still free.
    have hnew : ∀ site, ¬ (r.add .set w.place).Tells (.write w.place.key site) := by
      intro site htells
      rcases (Record.tells_add hr _ _).1 htells with htells | hmention
      · rcases hknown _ htells with hknown | htells
        · cases hknown
        · exact hfree _ _ htells
      · cases hmention
    rw [Record.tells_noteWrite hnew, Record.tells_add hr, PendingWrite.facts, List.mem_pair, or_assoc]
  · rename_i hkey
    simp [hkey]

/-- Writes at different places all add their facts, in whatever order they are attached. -/
theorem tells_attachAll {keys : Keys} {ws : List PendingWrite} (h : l.Ordered)
    (hapart : ws.Pairwise fun w w' => w.place.key ≠ w'.place.key)
    (hfree : ∀ w ∈ ws, l.Free w.place.key) :
    (ws.foldl (attach keys) l).Tells name fact ↔ l.Tells name fact ∨
      ∃ w ∈ ws, ∃ name', keys.find? w.key = some name' ∧
        (name, fact) ∈ Finding.about name' w.facts := by
  induction ws generalizing l with
  | nil => simp
  | cons w ws ih =>
      obtain ⟨hw, hapart⟩ := List.pairwise_cons.1 hapart
      obtain ⟨hfreeW, hfree⟩ := List.forall_mem_cons.1 hfree
      -- The write takes its own place only, which is none of those to come.
      have hfree' : ∀ w' ∈ ws, (attach keys l w).Free w'.place.key := by
        intro w' hw' name site htells
        rcases (tells_attach h hfreeW).1 htells with htells | ⟨name', -, hfact⟩
        · exact hfree w' hw' _ _ htells
        · obtain ⟨-, hknown | hfact⟩ := Finding.mem_about.1 hfact
          · cases hknown
          · simp [PendingWrite.facts, (hw w' hw').symm] at hfact
      rw [List.foldl_cons, ih (h.attach keys w) hapart hfree', tells_attach h hfreeW, or_assoc,
        List.exists_mem_cons_iff]

/-- All waiting writes add their facts, if their places differ and are free. -/
theorem tells_resolveWrites (h : l.Ordered)
    (hapart : l.pending.Pairwise fun w w' => w.place.key ≠ w'.place.key)
    (hfree : ∀ w ∈ l.pending, l.Free w.place.key) :
    l.resolveWrites.Tells name fact ↔ l.Tells name fact ∨
      ∃ w ∈ l.pending, ∃ name', l.textKeys.find? w.key = some name' ∧
        (name, fact) ∈ Finding.about name' w.facts :=
  tells_attachAll (l := { l with pending := [] }) ⟨h.names, h.records⟩ hapart hfree

/-! ### The search in texts -/

theorem Tidy.scanTexts (h : l.Tidy) (dedup : Dedup) (texts : List (Path × List String)) :
    (l.scanTexts dedup texts).Tidy :=
  List.foldlRecOn _ _ h fun _ hl hit _ => hl.modify hit.1 fun _ hr => hr.add .text hit.2

theorem tells_addHits (h : l.Ordered) (hs : List Hit) :
    (hs.foldl addHit l).Tells name fact ↔ l.Tells name fact ∨
      ∃ hit ∈ hs, (name, fact) ∈ Finding.about hit.1 [.mention .text hit.2.key] := by
  induction hs generalizing l with
  | nil => simp
  | cons hit hs ih =>
      have hadd : (l.addHit hit).Tells name fact ↔ l.Tells name fact ∨
          (name, fact) ∈ Finding.about hit.1 [.mention .text hit.2.key] := by
        refine tells_modify h fun r hr _ fact => ?_
        rw [Record.tells_add hr, List.mem_singleton]
      rw [List.foldl_cons, ih (h.addHit hit), hadd, or_assoc, List.exists_mem_cons_iff]

/-! ### Clearing -/

theorem Tidy.scrub (h : l.Tidy) : l.scrub.Tidy := by
  refine ⟨h.ordered.scrub.names, ?_⟩
  intro s hs
  obtain ⟨s₀, hs₀, rfl⟩ := List.mem_map.1 hs
  exact (h.records s₀ hs₀).scrub

/-! ### Equal facts -/

/-- Ledgers that tell the same. -/
def Agrees (l l' : Ledger) : Prop := ∀ name fact, l.Tells name fact ↔ l'.Tells name fact

theorem Agrees.symm (h : l.Agrees l') : l'.Agrees l := fun name fact => (h name fact).symm

/-- Ledgers that tell the same have records for the same cvars, and these tell the same. -/
theorem Agrees.get? (h : l.Agrees l') {r : Record} (hget : l.get? name = some r) :
    ∃ r', l'.get? name = some r' ∧ ∀ fact, r.Tells fact ↔ r'.Tells fact := by
  obtain ⟨r', hget', -⟩ := (h name .known).1 ⟨r, hget, trivial⟩
  refine ⟨r', hget', ?_⟩
  intro fact
  have hfact := h name fact
  simpa [Tells, hget, hget'] using hfact

/-- The clearing depends on nothing but what is told. -/
theorem Agrees.scrub (h : l.Agrees l') (hl : l.Ordered) (hl' : l'.Ordered) :
    l.scrub.Agrees l'.scrub := by
  have hone : ∀ {l l' : Ledger}, l.Agrees l' → l.Ordered → l'.Ordered → ∀ name fact,
      l.scrub.Tells name fact → l'.scrub.Tells name fact := by
    rintro l l' h hl hl' name fact ⟨r, hget, htells⟩
    rw [get?_scrub, Option.map_eq_some_iff] at hget
    obtain ⟨r, hget, rfl⟩ := hget
    obtain ⟨r', hget', hsame⟩ := h.get? hget
    refine ⟨r'.scrub, by rw [get?_scrub, hget', Option.map_some], ?_⟩
    rwa [Record.tells_scrub (hl'.of_get? hget'), ← hsame, ← Record.accounted_congr hsame,
      ← Record.tells_scrub (hl.of_get? hget)]
  exact fun name fact => ⟨hone h hl hl' name fact, hone h.symm hl' hl name fact⟩

/-- Tidy ledgers are determined by what they tell. -/
theorem Tidy.alike (h : l.Tidy) (h' : l'.Tidy) (hagree : l.Agrees l') :
    List.Forall₂ (fun s s' => s.1 = s'.1 ∧ s.2.Alike s'.2) l.symbols l'.symbols := by
  have hname : ∀ {l : Ledger}, l.Tidy → ∀ name, name ∈ l.symbols.map Prod.fst ↔
      l.Tells name .known := by
    intro l h name
    simp only [Tells, Record.Tells, and_true, List.mem_map, Ledger.get?,
      Data.lookupBy_eq_some_iff h.names]
    constructor
    · rintro ⟨s, hs, rfl⟩
      exact ⟨s.2, hs⟩
    · rintro ⟨r, hr⟩
      exact ⟨(name, r), hr, rfl⟩
  have hnames : l.symbols.map Prod.fst = l'.symbols.map Prod.fst := by
    refine Data.map_eq_of_mem_iff (g := Prod.fst) ?_ h.names h'.names ?_
    · intro a b heq
      rw [heq]
      exact Std.ReflCmp.compare_self
    · intro name
      rw [hname h, hname h', hagree name .known]
  have hforall := List.forall₂_eq_eq_eq ▸ hnames
  rw [List.forall₂_map_left_iff, List.forall₂_map_right_iff] at hforall
  -- Entries at one position have one name, so their records tell the same.
  obtain ⟨hlength, hat⟩ := List.forall₂_iff_get.1 hforall
  refine List.forall₂_iff_get.2 ⟨hlength, ?_⟩
  intro i hi hi'
  refine ⟨hat i hi hi', ?_⟩
  have hs := List.get_mem l.symbols ⟨i, hi⟩
  have hs' := List.get_mem l'.symbols ⟨i, hi'⟩
  obtain ⟨r', hget', hsame⟩ := hagree.get? ((Data.lookupBy_eq_some_iff h.names).2 hs)
  rw [hat i hi hi', show l'.get? _ = _ from (Data.lookupBy_eq_some_iff h'.names).2 hs',
    Option.some.injEq] at hget'
  rw [← hget'] at hsame
  exact (h.records _ hs).alike (h'.records _ hs') hsame

end Ledger

end Cvar

end Upkeep
