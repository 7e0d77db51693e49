/-
**The ledger while findings are recorded.**

Every step of recording changes one record, found by its name, so the names stay in order and so do
the roles of every record.  The names by which texts know the cvars depend on no more than names and
display names.

Main definitions:

* `Upkeep.Cvar.Ledger.Ordered` — ledgers in order;
* `Upkeep.Cvar.Ledger.Kept` — what recording keeps of a record;
* `Upkeep.Cvar.Ledger.nameTable` — names and display names.

Main results:

* `Upkeep.Cvar.ordered_ledgerOf` — the ledger of any findings is in order;
* `Upkeep.Cvar.Ledger.Kept.ledgerOf` — what recording keeps holds of all records;
* `Upkeep.Cvar.Ledger.find?_textKeys` — **the table of keys** in one equation;
* `Upkeep.Cvar.Ledger.get?_of_textKeys` — texts know no names but those of records;
* `Upkeep.Cvar.Ledger.find?_textKeys_own` — a name stands for itself in texts;
* `Upkeep.Cvar.Ledger.textKeys_congr` — what the names in texts depend on.
-/

import Mathlib.Data.List.Induction
import Upkeep.Cvar.Analysis
import Upkeep.Proofs.Cvar.Record

set_option relaxedAutoImplicit false
set_option autoImplicit false

namespace Upkeep

namespace Cvar

namespace Ledger

variable {l l' : Ledger} {name : String} {r : Record}

/-! ### Ordered ledgers -/

/-- The names of the cvars are in order, and so are the roles of every record. -/
structure Ordered (l : Ledger) : Prop where
  names : Data.Increasing compare l.symbols
  records : ∀ s ∈ l.symbols, s.2.Ordered

theorem Ordered.of_get? (h : l.Ordered) (hget : l.get? name = some r) : r.Ordered :=
  h.records _ (Data.mem_of_lookupBy hget)

theorem ordered_empty : empty.Ordered := ⟨Data.increasing_nil, by simp [empty]⟩

/-! ### One record changed -/

theorem get?_modify_self (h : l.Ordered) (name : String) (f : Record → Record) :
    (l.modify name f).get? name = some (f ((l.get? name).getD .empty)) :=
  Data.lookupBy_upsertBy_self h.names _ _

theorem get?_modify_of_ne {name' : String} (hne : name ≠ name') (l : Ledger)
    (f : Record → Record) : (l.modify name' f).get? name = l.get? name :=
  Data.lookupBy_upsertBy_of_ne hne _ _

theorem Ordered.modify (h : l.Ordered) (name : String) {f : Record → Record}
    (hf : ∀ r : Record, r.Ordered → (f r).Ordered) : (l.modify name f).Ordered := by
  refine ⟨Data.Increasing.upsertBy h.names _ _, Data.forall_mem_upsertBy h.records ?_ ?_⟩
  · exact hf _ Record.ordered_empty
  · intro _ r hr _
    exact hf r hr

/-! ### What all records have in common -/

section Kept

variable {P : Record → Prop} {R : Occurrence → Prop} {Q : WriteSite → Prop}

/-- A property of the record of nothing that recording keeps at places with a property of places, and the
attaching of writes with a property of sites. -/
structure Kept (P : Record → Prop) (R : Occurrence → Prop) (Q : WriteSite → Prop) : Prop where
  empty : P .empty
  add : ∀ {r : Record} {role : Role} {o : Occurrence}, R o → role ≠ .set → role ≠ .text → P r →
    P (r.add role o)
  note : ∀ {r : Record} (data : Registration), P r → P (r.note data)
  noteBounds : ∀ {r : Record} (b : Bounds), P r → P (r.noteBounds b)
  write : ∀ {r : Record} {o : Occurrence} {site : WriteSite}, R o → Q site → P r →
    P ((r.add .set o).noteWrite o site)

/-- What a change of one record keeps, if it begins with it, holds of all records. -/
theorem forall_modify (hempty : P .empty) (h : ∀ s ∈ l.symbols, P s.2) (name : String)
    {f : Record → Record} (hf : ∀ r, P r → P (f r)) : ∀ s ∈ (l.modify name f).symbols, P s.2 := by
  refine Data.forall_mem_upsertBy h ?_ ?_
  · exact hf _ hempty
  · intro _ r hr _
    exact hf r hr

theorem Kept.record (hP : Kept P R Q) (h : ∀ s ∈ l.symbols, P s.2) {f : Finding} (hf : R f.place) :
    ∀ s ∈ (l.record f).symbols, P s.2 := by
  obtain ⟨shape, o⟩ := f
  cases shape with
  | declaration name isDefinition =>
      cases isDefinition with
      | false => exact forall_modify hP.empty h name fun r hr => hP.add hf (by decide) (by decide) hr
      | true => exact forall_modify hP.empty h name fun r hr => hP.add hf (by decide) (by decide) hr
  | fieldRead name kind =>
      cases kind with
      | int => exact forall_modify hP.empty h name fun r hr => hP.add hf (by decide) (by decide) hr
      | float => exact forall_modify hP.empty h name fun r hr => hP.add hf (by decide) (by decide) hr
      | string => exact forall_modify hP.empty h name fun r hr => hP.add hf (by decide) (by decide) hr
  | setCall key value call => exact h
  | rangeCheck name min max =>
      exact forall_modify hP.empty h name fun r hr =>
        hP.noteBounds _ (hP.add hf (by decide) (by decide) hr)
  | registration name data =>
      exact forall_modify hP.empty h name fun r hr => hP.note data (hP.add hf (by decide) (by decide) hr)
  | tableEntry name data =>
      exact forall_modify hP.empty h name fun r hr => hP.note data (hP.add hf (by decide) (by decide) hr)
  | addressOf name => exact forall_modify hP.empty h name fun r hr => hP.add hf (by decide) (by decide) hr
  | unrecognized name context => exact h

theorem Kept.resolveWrites (hP : Kept P R Q) (h : ∀ s ∈ l.symbols, P s.2)
    (hwrites : ∀ w ∈ l.pending, R w.place ∧ Q w.site) : ∀ s ∈ l.resolveWrites.symbols, P s.2 := by
  rw [Ledger.resolveWrites]
  refine List.foldlRecOn (motive := fun l' : Ledger => ∀ s ∈ l'.symbols, P s.2) _ _ h ?_
  intro l' hl' w hw
  rw [Ledger.attach]
  split
  · exact forall_modify hP.empty hl' _ fun r hr => hP.write (hwrites w hw).1 (hwrites w hw).2 hr
  · exact hl'

/-- Writes that wait were found. -/
theorem exists_of_mem_pending {findings : List Finding} {w : PendingWrite}
    (h : w ∈ (l.recordAll findings).pending) : w ∈ l.pending ∨ ∃ f ∈ findings, w.place = f.place := by
  induction findings generalizing l with
  | nil => exact .inl h
  | cons f findings ih =>
      rcases ih h with hw | ⟨f', hf', hplace⟩
      · obtain ⟨shape, o⟩ := f
        cases shape with
        | setCall key value call =>
            rcases List.mem_append.1 hw with hw | hw
            · exact .inl hw
            · obtain rfl := List.mem_singleton.1 hw
              exact .inr ⟨_, List.mem_cons_self, rfl⟩
        | _ => exact .inl hw
      · exact .inr ⟨f', List.mem_cons_of_mem _ hf', hplace⟩

/-- What recording and the attaching of writes keep, holds of all records of any findings. -/
theorem Kept.ledgerOf (hP : Kept P R Q) {findings : List Finding} (hplaces : ∀ f ∈ findings, R f.place)
    (hsites : ∀ w ∈ (Ledger.empty.recordAll findings).pending, Q w.site) :
    ∀ s ∈ (ledgerOf findings).symbols, P s.2 := by
  refine hP.resolveWrites ?_ ?_
  · refine List.foldlRecOn (motive := fun l' : Ledger => ∀ s ∈ l'.symbols, P s.2) _ _
      (by simp [Ledger.empty]) ?_
    exact fun l' hl' f hf => hP.record hl' (hplaces f hf)
  · intro w hw
    refine ⟨?_, hsites w hw⟩
    rcases exists_of_mem_pending hw with hempty | ⟨f, hf, hplace⟩
    · simp [Ledger.empty] at hempty
    · rw [hplace]
      exact hplaces f hf

end Kept

/-! ### Recording -/

theorem Ordered.record (h : l.Ordered) (f : Finding) : (l.record f).Ordered := by
  obtain ⟨shape, o⟩ := f
  cases shape with
  | declaration name isDefinition => exact h.modify name fun r hr => hr.add _ o
  | fieldRead name kind => exact h.modify name fun r hr => hr.add _ o
  | setCall key value call => exact ⟨h.names, h.records⟩
  | rangeCheck name min max => exact h.modify name fun r hr => (hr.add _ o).noteBounds _
  | registration name data => exact h.modify name fun r hr => (hr.add _ o).note data
  | tableEntry name data => exact h.modify name fun r hr => (hr.add _ o).note data
  | addressOf name => exact h.modify name fun r hr => hr.add _ o
  | unrecognized name context => exact h

theorem Ordered.recordAll (h : l.Ordered) (fs : List Finding) : (l.recordAll fs).Ordered := by
  induction fs generalizing l with
  | nil => exact h
  | cons f fs ih => exact ih (h.record f)

theorem Ordered.attach (h : l.Ordered) (keys : Keys) (w : PendingWrite) :
    (attach keys l w).Ordered := by
  rw [Ledger.attach]
  split
  · exact h.modify _ fun r hr => (hr.add _ _).noteWrite _ _
  · exact h

theorem Ordered.resolveWrites (h : l.Ordered) : l.resolveWrites.Ordered := by
  rw [Ledger.resolveWrites]
  refine List.foldlRecOn _ _ ⟨h.names, h.records⟩ ?_
  intro l' hl' w _
  exact Ordered.attach hl' _ w

end Ledger

/-- The ledger of any findings is in order. -/
theorem ordered_ledgerOf (findings : List Finding) : (ledgerOf findings).Ordered :=
  (Ledger.ordered_empty.recordAll findings).resolveWrites

namespace Ledger

variable {l l' : Ledger} {name : String} {r : Record}

/-! ### Names in texts -/

/-- The names of the cvars, each with its display names. -/
def nameTable (l : Ledger) : List (String × List String) :=
  l.symbols.map fun s => (s.1, s.2.displayNames)

/-- The names in texts depend on names and display names alone. -/
theorem textKeys_congr (h : l.nameTable = l'.nameTable) : l.textKeys = l'.textKeys := by
  have hkeys : ∀ l : Ledger, l.textKeys =
      l.nameTable.foldl (fun keys s => s.2.foldl (fun (keys : Keys) d =>
        keys.putNew (Text.lower d) s.1) keys)
        (l.nameTable.foldl (fun (keys : Keys) s => keys.put (Text.lower s.1) s.1) []) := by
    intro l
    rw [textKeys, nameTable, List.foldl_map, List.foldl_map]
  rw [hkeys, hkeys, h]

/-- A change of a record that is there leaves the names alone if it leaves the display names
alone. -/
theorem nameTable_modify (h : l.Ordered) (hget : l.get? name = some r) {f : Record → Record}
    (hf : (f r).displayNames = r.displayNames) : (l.modify name f).nameTable = l.nameTable :=
  Data.map_upsertBy h.names hget (by simp [hf])

/-- Ledgers with the same names know the same cvars by the same display names. -/
theorem displayNames_of_nameTable (h : l'.Ordered) (htable : l.nameTable = l'.nameTable)
    (hget : l.get? name = some r) :
    ∃ r', l'.get? name = some r' ∧ r'.displayNames = r.displayNames := by
  have hmem : (name, r.displayNames) ∈ l.nameTable :=
    List.mem_map_of_mem (f := fun s => (s.1, s.2.displayNames)) (Data.mem_of_lookupBy hget)
  rw [htable] at hmem
  obtain ⟨s, hs, heq⟩ := List.mem_map.1 hmem
  obtain ⟨rfl, hnames⟩ := Prod.mk.inj heq
  exact ⟨s.2, (Data.lookupBy_eq_some_iff h.names).2 hs, hnames⟩

/-- Ledgers with the same names know the same cvars. -/
theorem get?_of_nameTable (h : l'.Ordered) (htable : l.nameTable = l'.nameTable)
    (hget : l.get? name = some r) : ∃ r', l'.get? name = some r' :=
  (displayNames_of_nameTable h htable hget).imp fun _ => And.left

variable {keys : Keys} {key : String}

/-! ### The table of keys -/

/-- What a key leads to after a name was put into the table, whether or not the key was taken. -/
theorem find?_put (h : Data.Increasing compare keys) (key key' name : String) :
    (keys.put key' name).find? key = if key = key' then some name else keys.find? key := by
  split
  · rename_i heq
    rw [heq]
    exact Data.lookupBy_upsertBy_self h _ _
  · rename_i hne
    exact Data.lookupBy_upsertBy_of_ne hne _ _

/-- What a key leads to after a name was put into the table, unless the key was taken. -/
theorem find?_putNew (h : Data.Increasing compare keys) (key key' name : String) :
    (keys.putNew key' name).find? key =
      (keys.find? key).or (if key = key' then some name else none) := by
  split
  · rename_i heq
    subst heq
    have hself := Data.lookupBy_upsertBy_self h key fun old => old.getD name
    refine hself.trans ?_
    cases hfound : Data.lookupBy compare key keys <;> simp [Keys.find?, hfound]
  · rename_i hne
    rw [Option.or_none]
    exact Data.lookupBy_upsertBy_of_ne hne _ _

/-- Of names with the same key the last one stays. -/
theorem find?_putAll (symbols : List (String × Record)) (key : String) :
    let all := symbols.foldl (fun (keys : Keys) s => keys.put (Text.lower s.1) s.1) []
    Data.Increasing compare all ∧
      all.find? key = (symbols.reverse.find? (Text.lower ·.1 == key)).map Prod.fst := by
  induction symbols using List.reverseRecOn with
  | nil => exact ⟨Data.increasing_nil, rfl⟩
  | append_singleton symbols s ih =>
      obtain ⟨hkeys, hfind⟩ := ih
      rw [List.foldl_append, List.reverse_append]
      refine ⟨Data.Increasing.upsertBy hkeys _ _, ?_⟩
      rw [List.foldl_cons, List.foldl_nil, find?_put hkeys, hfind, List.reverse_singleton,
        List.singleton_append, List.find?_cons]
      by_cases hkey : key = Text.lower s.1
      · simp [hkey]
      · rw [if_neg hkey, beq_false_of_ne (Ne.symm hkey)]

/-- Display names of one cvar take the keys that are not taken. -/
theorem find?_putDisplayed (h : Data.Increasing compare keys) (ds : List String) (key name : String) :
    let all := ds.foldl (fun (keys : Keys) d => keys.putNew (Text.lower d) name) keys
    Data.Increasing compare all ∧ all.find? key =
      (keys.find? key).or (if ds.any (Text.lower · == key) then some name else none) := by
  induction ds generalizing keys with
  | nil => exact ⟨h, by simp⟩
  | cons d ds ih =>
      obtain ⟨hkeys, hfind⟩ := ih (Data.Increasing.upsertBy h (Text.lower d) _)
      refine ⟨hkeys, hfind.trans ?_⟩
      change ((keys.putNew (Text.lower d) name).find? key).or _ = _
      rw [find?_putNew h, List.any_cons]
      by_cases hkey : key = Text.lower d
      · cases keys.find? key <;> simp [hkey]
      · simp [hkey, Ne.symm hkey]

/-- Of cvars with the same display name the first one has the key, if it is not taken. -/
theorem find?_putAllDisplayed (h : Data.Increasing compare keys) (symbols : List (String × Record))
    (key : String) :
    (symbols.foldl (fun keys s => s.2.displayNames.foldl
      (fun (keys : Keys) d => keys.putNew (Text.lower d) s.1) keys) keys).find? key =
      (keys.find? key).or
        ((symbols.find? fun s => s.2.displayNames.any (Text.lower · == key)).map Prod.fst) := by
  induction symbols generalizing keys with
  | nil => simp
  | cons s symbols ih =>
      obtain ⟨hkeys, hfind⟩ := find?_putDisplayed h s.2.displayNames key s.1
      rw [List.foldl_cons, ih hkeys, hfind, List.find?_cons, Option.or_assoc]
      cases s.2.displayNames.any (Text.lower · == key) <;> simp

/-- **The table of keys**: a key leads to the last cvar of this name, in lower case, or else to the first
one that is displayed so. -/
theorem find?_textKeys (l : Ledger) (key : String) : l.textKeys.find? key =
    ((l.symbols.reverse.find? (Text.lower ·.1 == key)).map Prod.fst).or
      ((l.symbols.find? fun s => s.2.displayNames.any (Text.lower · == key)).map Prod.fst) := by
  obtain ⟨hkeys, hfind⟩ := find?_putAll l.symbols key
  rw [textKeys, find?_putAllDisplayed hkeys, hfind]

/-- A key leads to no names but those of records. -/
theorem get?_of_textKeys (h : l.Ordered) (hkey : l.textKeys.find? key = some name) :
    ∃ r, l.get? name = some r := by
  have hknown : ∃ r, (name, r) ∈ l.symbols := by
    rw [find?_textKeys, Option.or_eq_some_iff] at hkey
    rcases hkey with hkey | ⟨-, hkey⟩
    · obtain ⟨s, hfind, rfl⟩ := Option.map_eq_some_iff.1 hkey
      exact ⟨s.2, List.mem_reverse.1 (List.mem_of_find?_eq_some hfind)⟩
    · obtain ⟨s, hfind, rfl⟩ := Option.map_eq_some_iff.1 hkey
      exact ⟨s.2, List.mem_of_find?_eq_some hfind⟩
  obtain ⟨r, hr⟩ := hknown
  exact ⟨r, (Data.lookupBy_eq_some_iff h.names).2 hr⟩

/-- The key of a name leads to the last cvar with this key, whatever display names there are. -/
theorem exists_find?_named (h : l.Ordered) (hget : l.get? name = some r) :
    ∃ s ∈ l.symbols, l.symbols.reverse.find? (Text.lower ·.1 == Text.lower name) = some s ∧
      Text.lower s.1 = Text.lower name ∧ l.textKeys.find? (Text.lower name) = some s.1 := by
  have hmem : (name, r) ∈ l.symbols.reverse :=
    List.mem_reverse.2 ((Data.lookupBy_eq_some_iff h.names).1 hget)
  cases hfind : l.symbols.reverse.find? (Text.lower ·.1 == Text.lower name) with
  | none => exact absurd (List.find?_eq_none.1 hfind _ hmem) (by simp)
  | some s =>
      refine ⟨s, List.mem_reverse.1 (List.mem_of_find?_eq_some hfind), rfl, ?_, ?_⟩
      · simpa using List.find?_some hfind
      · rw [find?_textKeys, hfind, Option.map_some, Option.some_or]

/-- A name stands for itself in texts, in any case, if no other name differs from it by case alone.
Display names do not come in between. -/
theorem find?_textKeys_own (h : l.Ordered) (hget : l.get? name = some r)
    (hown : ∀ name' r', l.get? name' = some r' → Text.lower name' = Text.lower name →
      name' = name) : l.textKeys.find? (Text.lower name) = some name := by
  obtain ⟨s, hs, -, hspelled, hkey⟩ := exists_find?_named h hget
  rw [hkey, hown s.1 s.2 ((Data.lookupBy_eq_some_iff h.names).2 hs) hspelled]

/-- Writes for known cvars leave the names alone. -/
theorem nameTable_attachAll (h : l.Ordered)
    (hknown : ∀ key name, keys.find? key = some name → ∃ r, l.get? name = some r)
    (ws : List PendingWrite) : (ws.foldl (attach keys) l).nameTable = l.nameTable := by
  have hone : ∀ l' : Ledger, l'.Ordered →
      (∀ key name, keys.find? key = some name → ∃ r, l'.get? name = some r) → ∀ w,
        (attach keys l' w).nameTable = l'.nameTable := by
    intro l' hl' hknown w
    rw [attach]
    split
    · rename_i name' hkey
      obtain ⟨r, hget⟩ := hknown _ _ hkey
      exact nameTable_modify hl' hget rfl
    · rfl
  induction ws generalizing l with
  | nil => rfl
  | cons w ws ih =>
      have hnames := hone l h hknown w
      rw [List.foldl_cons, ih (h.attach keys w) ?_, hnames]
      intro key name hkey
      obtain ⟨r, hget⟩ := hknown key name hkey
      exact get?_of_nameTable (h.attach keys w) hnames.symm hget

/-- Attaching the waiting writes leaves the names alone. -/
theorem nameTable_resolveWrites (h : l.Ordered) : l.resolveWrites.nameTable = l.nameTable :=
  have hwaiting : Ordered { l with pending := [] } := ⟨h.names, h.records⟩
  nameTable_attachAll hwaiting (fun _ _ hkey => get?_of_textKeys (l := l) h hkey) l.pending

theorem textKeys_resolveWrites (h : l.Ordered) : l.resolveWrites.textKeys = l.textKeys :=
  textKeys_congr (nameTable_resolveWrites h)

/-! ### Lines of tables -/

theorem get?_scrub (l : Ledger) (name : String) :
    l.scrub.get? name = (l.get? name).map Record.scrub := by
  rw [get?, get?, scrub]
  induction l.symbols with
  | nil => rfl
  | cons s symbols ih =>
      rw [List.map_cons, Data.lookupBy_cons, Data.lookupBy_cons, ih]
      split <;> rfl

theorem Ordered.scrub (h : l.Ordered) : l.scrub.Ordered := by
  constructor
  · unfold Data.Increasing Ledger.scrub
    rw [List.pairwise_map]
    exact h.names
  · intro s hs
    obtain ⟨s₀, hs₀, rfl⟩ := List.mem_map.1 hs
    exact (h.records s₀ hs₀).scrub

@[simp] theorem nameTable_scrub (l : Ledger) : l.scrub.nameTable = l.nameTable := by
  rw [nameTable, nameTable, scrub, List.map_map]
  rfl

end Ledger

end Cvar

end Upkeep
