/-
**Censuses are multiset unions.**

A table in order is determined by its rows, counted with their keys: its keys increase, and the rows of
a key are sorted.  So a census is the one table in order that has the rows it was made of, in whatever
order these came.  It has the rows of the censuses of the single paks, and a pak or an entry of which
nothing can be read takes its own rows away and no others.

All this holds of paks whose entries of interest can be unpacked into the buffers that there are.  A
single entry that declares more than that leaves no census at all, whether or not it could be read.

Main definitions:

* `Upkeep.Pak.Table.rows` — the rows of a table with their keys;
* `Upkeep.Pak.Table.InOrder` — tables in order;
* `Upkeep.Pak.Opened.Stops`, `Upkeep.Pak.Inventory.Stops` — entries for which there is no buffer, and
  paks with such an entry;
* `Upkeep.Pak.Reader.losing`, `Upkeep.Pak.Reader.reading`, `Upkeep.Pak.Reader.only` — readers that
  cannot open some paks, that read other contents, and that see some entries alone;
* `Upkeep.Pak.MapRow.Holds`, `Upkeep.Pak.ScriptRow.Holds` — what rows say;
* `Upkeep.Pak.Inventory.IsUnion` — tables that are unions of those of the single paks;
* `Upkeep.Pak.Inventory.Unites` — a census that is such a union, unless it stops.

Main results:

* `Upkeep.Pak.Table.InOrder.eq_of_perm` — a table in order is determined by its rows;
* `Upkeep.Pak.inOrder_census`, `Upkeep.Pak.rows_census` — a census is in order, and has its rows;
* `Upkeep.Pak.Inventory.table_of_stops`, `Upkeep.Pak.Inventory.table_of_forall_not_stops` — which paks
  have a census, and what it is;
* `Upkeep.Pak.maps_scripts_unite` — **the two censuses are unions, whatever the order of the paks,
  exactly if no entry of interest is too large**.
-/

import Mathlib.Data.List.Perm.Basic
import Upkeep.Pak.Census
import Upkeep.Proofs.Data.Members
import Upkeep.Proofs.Data.Ordered
import Upkeep.Proofs.Data.Outcome

set_option relaxedAutoImplicit false
set_option autoImplicit false

namespace Upkeep

namespace Pak

variable {ρ : Type} {order : ρ → ρ → Ordering}

/-! ### Tables and their rows -/

namespace Table

variable {t t' : Table ρ}

/-- The rows of a table with their keys. -/
def rows (t : Table ρ) : List (Keyed ρ) := t.flatMap fun e => e.2.map fun r => (e.1, r)

/-- The rows of a key. -/
def of (t : Table ρ) (key : String) : List ρ := (Data.lookupBy compare key t).getD []

@[simp] theorem rows_nil : rows ([] : Table ρ) = [] := rfl

theorem rows_cons (key : String) (rs : List ρ) (t : Table ρ) :
    rows ((key, rs) :: t) = rs.map (fun r => (key, r)) ++ t.rows := List.flatMap_cons

/-- Tables in order: the keys increase and have rows, which are sorted. -/
structure InOrder (order : ρ → ρ → Ordering) (t : Table ρ) : Prop extends Data.Sparse compare [] t where
  sorted : ∀ e ∈ t, e.2.Pairwise fun a b => (order a b).isLE = true

/-- The rows of a key are those of all that have it. -/
theorem of_eq_filter (h : Data.Increasing compare t) (key : String) :
    t.of key = (t.rows.filter (·.1 == key)).map Prod.snd := by
  induction t with
  | nil => rfl
  | cons e t ih =>
      obtain ⟨key', rs⟩ := e
      obtain ⟨hlt, h⟩ := Data.increasing_cons.1 h
      rw [of, Data.lookupBy_cons, rows_cons, List.filter_append, List.map_append, ← ih h,
        List.filter_map, List.map_map]
      by_cases hkey : key' = key
      · have hnone : of t key = [] := by
          rw [of, Data.lookupBy_eq_none_of_lt (by rwa [← hkey]), Option.getD_none]
        have hall : rs.filter ((fun x : Keyed ρ => x.1 == key) ∘ fun r => (key', r)) = rs :=
          List.filter_eq_self.2 fun _ _ => beq_iff_eq.2 hkey
        rw [hnone, hall, List.append_nil, hkey, if_pos Std.ReflCmp.compare_self, Option.getD_some]
        exact (List.map_id rs).symm
      · have hnone : rs.filter ((fun x : Keyed ρ => x.1 == key) ∘ fun r => (key', r)) = [] :=
          List.filter_eq_nil_iff.2 fun _ _ => by simpa using hkey
        have hne : compare key key' ≠ .eq := fun heq =>
          hkey (Std.LawfulEqCmp.eq_of_compare heq).symm
        rw [hnone, List.map_nil, List.nil_append, if_neg hne, of]

namespace InOrder

theorem pairwise_of (h : t.InOrder order) (key : String) :
    (t.of key).Pairwise fun a b => (order a b).isLE = true := by
  rw [of]
  cases hfound : Data.lookupBy compare key t with
  | none => exact List.Pairwise.nil
  | some rs => exact h.sorted _ (Data.mem_of_lookupBy hfound)

/-- **A table in order is determined by its rows.** -/
theorem eq_of_perm [Std.TransCmp order] [Std.LawfulEqCmp order] (h : t.InOrder order)
    (h' : t'.InOrder order) (hrows : t.rows.Perm t'.rows) : t = t' := by
  have hof : ∀ key, t.of key = t'.of key := by
    intro key
    have hperm : (t.of key).Perm (t'.of key) := by
      rw [of_eq_filter h.increasing, of_eq_filter h'.increasing]
      exact (hrows.filter _).map _
    refine hperm.eq_of_pairwise ?_ (h.pairwise_of key) (h'.pairwise_of key)
    intro a b _ _ hab hba
    exact Std.LawfulEqCmp.eq_of_compare (Std.OrientedCmp.isLE_antisymm hab hba)
  have hmem : ∀ e, e ∈ t.map id ↔ e ∈ t'.map id := by
    rintro ⟨key, rs⟩
    rw [List.map_id, List.map_id, h.mem_iff, h'.mem_iff]
    exact and_congr_right fun _ => by rw [← of, ← of, hof]
  have heq : ∀ e e' : String × List ρ, id e = id e' → compare e.1 e'.1 = .eq := by
    rintro e _ rfl
    exact Std.ReflCmp.compare_self
  simpa using Data.map_eq_of_mem_iff heq h.increasing h'.increasing hmem

end InOrder

/-! ### Tables that are built row by row -/

/-- One more row is there once more. -/
theorem rows_add (t : Table ρ) (r : Keyed ρ) : (t.add r).rows.Perm (r :: t.rows) := by
  induction t with
  | nil => exact List.Perm.refl _
  | cons e t ih =>
      obtain ⟨key, rs⟩ := e
      rw [add, Data.upsertBy]
      split
      · exact List.Perm.refl _
      · rename_i heq
        rw [rows_cons, rows_cons, ← Std.LawfulEqCmp.eq_of_compare heq]
        exact List.Perm.refl _
      · rw [rows_cons, rows_cons]
        exact (ih.append_left _).trans List.perm_middle

theorem sparse_foldl_add (h : Data.Sparse compare [] t) (rs : List (Keyed ρ)) :
    Data.Sparse compare [] (rs.foldl add t) := by
  induction rs generalizing t with
  | nil => exact h
  | cons r rs ih => exact ih (h.upsertBy (List.cons_ne_nil r.2) r.1)

theorem rows_foldl_add (rs : List (Keyed ρ)) (t : Table ρ) :
    (rs.foldl add t).rows.Perm (rs ++ t.rows) := by
  induction rs generalizing t with
  | nil => exact List.Perm.refl _
  | cons r rs ih => exact (ih _).trans (((rows_add t r).append_left rs).trans List.perm_middle)

/-- Sorting the rows of every key changes their order alone. -/
theorem rows_mergeSort (le : ρ → ρ → Bool) (t : Table ρ) :
    rows (t.map fun e => (e.1, e.2.mergeSort le)) |>.Perm t.rows := by
  rw [rows, List.flatMap_map]
  exact List.Perm.flatMap_left _ fun e _ => (e.2.mergeSort_perm le).map _

end Table

/-- **A census has the rows it was made of.** -/
theorem rows_census (rs : List (Keyed ρ)) : (census order rs).rows.Perm rs := by
  refine (Table.rows_mergeSort _ _).trans ((Table.rows_foldl_add rs []).trans ?_)
  rw [Table.rows_nil, List.append_nil]

/-- **A census is in order.** -/
theorem inOrder_census [Std.TransCmp order] (rs : List (Keyed ρ)) :
    (census order rs).InOrder order where
  increasing := List.pairwise_map.2 (Table.sparse_foldl_add .nil rs).increasing
  ne := by
    rw [census, List.forall_mem_map]
    rintro ⟨key, rs'⟩ he hnil
    have hperm : ([] : List ρ).Perm rs' := by
      rw [← show rs'.mergeSort (fun a b => (order a b).isLE) = [] from hnil]
      exact List.mergeSort_perm _ _
    exact (Table.sparse_foldl_add .nil rs).ne _ he hperm.symm.eq_nil
  sorted := by
    rw [census, List.forall_mem_map]
    intro e _
    exact Data.pairwise_mergeSort e.2

/-- Censuses of the same rows are the same, in whatever order these come. -/
theorem census_eq_of_perm [Std.TransCmp order] [Std.LawfulEqCmp order] {rs rs' : List (Keyed ρ)}
    (h : rs.Perm rs') : census order rs = census order rs' :=
  (inOrder_census rs).eq_of_perm (inOrder_census rs')
    ((rows_census rs).trans (h.trans (rows_census rs').symm))

/-! ### Orders of rows -/

instance : Std.TransCmp MapRow.order := by
  have hmap : Std.TransCmp fun a b : MapRow => compare a.map b.map := Data.transCmp_on MapRow.map
  have hcount : Std.TransCmp fun a b : MapRow => compare a.count b.count :=
    Data.transCmp_on MapRow.count
  have hpak : Std.TransCmp fun a b : MapRow => compare a.pak b.pak := Data.transCmp_on MapRow.pak
  exact inferInstanceAs (Std.TransCmp (compareLex (fun a b : MapRow => compare a.map b.map)
    (compareLex (fun a b => compare a.count b.count) fun a b => compare a.pak b.pak)))

instance : Std.LawfulEqCmp MapRow.order where
  eq_of_compare := by
    rintro ⟨map, count, pak⟩ ⟨map', count', pak'⟩ h
    simpa [MapRow.order, Ordering.then_eq_eq] using h

instance : Std.TransCmp ScriptRow.order := by
  have hpak : Std.TransCmp fun a b : ScriptRow => compare a.pak b.pak :=
    Data.transCmp_on ScriptRow.pak
  have hscript : Std.TransCmp fun a b : ScriptRow => compare a.script b.script :=
    Data.transCmp_on ScriptRow.script
  have hcount : Std.TransCmp fun a b : ScriptRow => compare a.count b.count :=
    Data.transCmp_on ScriptRow.count
  exact inferInstanceAs (Std.TransCmp (compareLex (fun a b : ScriptRow => compare a.pak b.pak)
    (compareLex (fun a b => compare a.script b.script) fun a b => compare a.count b.count)))

instance : Std.LawfulEqCmp ScriptRow.order where
  eq_of_compare := by
    rintro ⟨pak, script, count⟩ ⟨pak', script', count'⟩ h
    simpa [ScriptRow.order, Ordering.then_eq_eq] using h

/-! ### Entries for which there is no buffer -/

namespace Opened

variable {m : Memory} {a : Opened} {entry : String}

/-- No buffer can be had for an entry. -/
def Stops (m : Memory) (a : Opened) (entry : String) : Prop :=
  ∃ e, a.lookup? entry = some e ∧ m.grants e.size = false

/-- What is read of an entry for which there is a buffer. -/
def bytes (a : Opened) (entry : String) : Outcome (List UInt8) :=
  match a.lookup? entry with
  | none => .error (.badEntry entry)
  | some e =>
    match e.content? with
    | none => .error (.readEntry entry)
    | some content => .ok content

theorem bytes_eq_ok_iff {content : List UInt8} : a.bytes entry = .ok content ↔
    ∃ e, a.lookup? entry = some e ∧ e.content? = some content := by
  rw [bytes]
  cases a.lookup? entry with
  | none => simp
  | some e => cases he : e.content? <;> simp [he]

/-- Whatever memory there is, no entry can be of half the size of what words can address. -/
theorem stops_of_le {e : Packed} (he : a.lookup? entry = some e) (h : UInt64.size / 2 ≤ e.size.toNat) :
    a.Stops m entry := by
  refine ⟨e, he, Bool.eq_false_iff.2 fun hgrants => ?_⟩
  exact absurd (m.lt_of_grants e.size hgrants) (Nat.not_lt.2 h)

theorem read_of_stops (h : a.Stops m entry) : a.read m entry = .error .memory := by
  obtain ⟨e, he, hgrants⟩ := h
  have hreserve : m.reserve e.size = .error .memory := if_neg (Bool.eq_false_iff.1 hgrants)
  rw [read, he]
  simp only [hreserve]
  rfl

theorem read_of_not_stops (h : ¬a.Stops m entry) : a.read m entry = .ok (a.bytes entry) := by
  rw [read, bytes]
  cases he : a.lookup? entry with
  | none => rfl
  | some e =>
      have hgrants : m.grants e.size = true := by
        by_contra hno
        exact h ⟨e, he, Bool.eq_false_iff.2 hno⟩
      have hreserve : m.reserve e.size = .ok ⟨⟩ := if_pos hgrants
      simp only [hreserve]
      cases e.content? <;> rfl

end Opened

namespace Inventory

variable {v : Inventory ρ} {m : Memory} {R : Reader} {p : Path} {ps : List Path}

/-- No buffer can be had for an entry of interest of the pak. -/
def Stops (v : Inventory ρ) (m : Memory) (R : Reader) (p : Path) : Prop :=
  ∃ a entry, R p = .ok a ∧ entry ∈ a.names ∧ v.wanted entry = true ∧ a.Stops m entry

/-- The rows of an entry for which there is a buffer. -/
def entryRows (v : Inventory ρ) (pak : Path) (a : Opened) (entry : String) : List (Keyed ρ) :=
  match a.bytes entry with
  | .ok content => v.rows pak.text entry content
  | .error _ => []

/-- The rows of the entries of interest, if there is a buffer for each of them. -/
def openedRows (v : Inventory ρ) (pak : Path) (a : Opened) : List (Keyed ρ) :=
  (a.names.filter v.wanted).flatMap (v.entryRows pak a)

/-- The rows of a pak, if there is a buffer for each of its entries of interest. -/
def pakRows (v : Inventory ρ) (R : Reader) (p : Path) : List (Keyed ρ) :=
  match R p with
  | .ok a => v.openedRows p a
  | .error _ => []

/-- The rows of an entry are there if there is a buffer for it. -/
theorem ofEntry_of_not_stops {a : Opened} {entry : String} (h : ¬a.Stops m entry) :
    v.ofEntry m p a entry = .ok (v.entryRows p a entry) := by
  rw [ofEntry, Opened.read_of_not_stops h, entryRows]
  cases a.bytes entry <;> rfl

theorem ofEntry_of_stops {a : Opened} {entry : String} (h : a.Stops m entry) :
    v.ofEntry m p a entry = .error .memory := by
  rw [ofEntry, Opened.read_of_stops h]
  rfl

/-- The rows of a pak are there if there is a buffer for each of its entries of interest. -/
theorem ofPak_of_not_stops (h : ¬v.Stops m R p) : v.ofPak m R p = .ok (v.pakRows R p) := by
  rw [ofPak, pakRows]
  cases ha : R p with
  | error failure => rfl
  | ok a =>
      have hrun : (a.names.filter v.wanted).mapM (v.ofEntry m p a) =
          .ok ((a.names.filter v.wanted).map (v.entryRows p a)) := by
        refine mapM_ok_of_forall fun entry hentry => ofEntry_of_not_stops fun hstops => h ?_
        obtain ⟨hmem, hwanted⟩ := List.mem_filter.1 hentry
        exact ⟨a, entry, ha, hmem, hwanted, hstops⟩
      simp only [ofOpened, hrun, openedRows, List.flatMap_def]
      rfl

/-- A pak with a single entry of interest that is too large has no rows at all. -/
theorem ofPak_of_stops (h : v.Stops m R p) : v.ofPak m R p = .error .memory := by
  obtain ⟨a, entry, ha, hmem, hwanted, hstops⟩ := h
  have hrun : (a.names.filter v.wanted).mapM (v.ofEntry m p a) = .error .memory :=
    mapM_error_of_mem (fun _ => ofEntry_of_stops) (fun _ => ofEntry_of_not_stops)
      (List.mem_filter.2 ⟨hmem, hwanted⟩) hstops
  rw [ofPak, ha]
  simp only [ofOpened, hrun]
  rfl

/-- **There is a census if no entry of interest is too large**, and it is made of the rows of the
paks. -/
theorem table_of_forall_not_stops (h : ∀ p ∈ ps, ¬v.Stops m R p) :
    v.table m R ps = .ok (census v.order (ps.flatMap (v.pakRows R))) := by
  rw [table, mapM_ok_of_forall fun p hp => ofPak_of_not_stops (h p hp), List.flatMap_def]
  rfl

theorem table_singleton_of_not_stops (h : ¬v.Stops m R p) :
    v.table m R [p] = .ok (census v.order (v.pakRows R p)) := by
  rw [table_of_forall_not_stops (List.forall_mem_singleton.2 h), List.flatMap_singleton]

/-- **A single entry of interest that is too large leaves no census.** -/
theorem table_of_stops (hp : p ∈ ps) (h : v.Stops m R p) : v.table m R ps = .error .memory := by
  have hrun : ps.mapM (v.ofPak m R) = .error .memory :=
    mapM_error_of_mem (fun _ => ofPak_of_stops) (fun _ => ofPak_of_not_stops) hp h
  rw [table, hrun]
  rfl

/-- The order of the paks does not matter, not even to whether there is a census. -/
theorem table_eq_of_perm [Std.TransCmp v.order] [Std.LawfulEqCmp v.order] {qs : List Path}
    (h : ps.Perm qs) : v.table m R ps = v.table m R qs := by
  by_cases hstops : ∃ p ∈ ps, v.Stops m R p
  · obtain ⟨p, hp, hstops⟩ := hstops
    rw [table_of_stops hp hstops, table_of_stops (h.mem_iff.1 hp) hstops]
  · have hps : ∀ p ∈ ps, ¬v.Stops m R p := fun p hp hp' => hstops ⟨p, hp, hp'⟩
    have hqs : ∀ p ∈ qs, ¬v.Stops m R p := fun p hp => hps p (h.mem_iff.2 hp)
    rw [table_of_forall_not_stops hps, table_of_forall_not_stops hqs,
      census_eq_of_perm (h.flatMap_right _)]

end Inventory

/-! ### Rows that are lost -/

/-- A pak that has other entries under the lost names. -/
def Opened.reading (a : Opened) (lost : String → Bool) (found? : String → Option Packed) : Opened :=
  { a with lookup? := fun entry => if lost entry then found? entry else a.lookup? entry }

/-- A pak with the chosen entries alone. -/
def Opened.only (a : Opened) (chosen : String → Bool) : Opened :=
  { a with names := a.names.filter chosen }

namespace Reader

/-- The reader that cannot open the lost paks. -/
def losing (R : Reader) (lost : Path → Bool) (failure : Path → Failure) : Reader :=
  fun p => if lost p then .error (failure p) else R p

/-- The reader for which paks have other entries under the lost names. -/
def reading (R : Reader) (lost : Path → String → Bool)
    (found? : Path → String → Option Packed) : Reader :=
  fun p => (R p).map fun a => a.reading (lost p) (found? p)

/-- The reader that sees the chosen entries of paks alone. -/
def only (R : Reader) (chosen : Path → String → Bool) : Reader :=
  fun p => (R p).map fun a => a.only (chosen p)

end Reader

/-- What stands under a name of which nothing can be read, although there is a buffer: there is no
entry, it cannot be unpacked, or `parse` fails. -/
abbrev Unreadable (m : Memory) (parse : List UInt8 → Outcome (List UInt8)) : Type :=
  { found : Option Packed // ∀ e, found = some e → m.grants e.size = true ∧
    ∀ data, e.content? = some data → ∀ content, parse data ≠ .ok content }

namespace Inventory

variable {v : Inventory ρ} {m : Memory} {R : Reader} {p : Path} {lost : Path → Bool}
  {failure : Path → Failure} {parse : List UInt8 → Outcome (List UInt8)}
  {gone : Path → String → Bool}

/-- Paks that cannot be opened stop nothing. -/
theorem Stops.of_losing (h : v.Stops m (R.losing lost failure) p) : v.Stops m R p := by
  obtain ⟨a, entry, ha, h⟩ := h
  rw [Reader.losing] at ha
  split at ha
  · cases ha
  · exact ⟨a, entry, ha, h⟩

/-- Entries of which nothing can be read stop nothing, if there are buffers. -/
theorem Stops.of_reading {found : Path → String → Unreadable m parse}
    (h : v.Stops m (R.reading gone fun p entry => (found p entry).1) p) : v.Stops m R p := by
  obtain ⟨a', entry, ha', hmem, hwanted, e, he, hgrants⟩ := h
  cases ha : R p with
  | error failure =>
      rw [Reader.reading, ha] at ha'
      cases ha'
  | ok a =>
      rw [Reader.reading, ha] at ha'
      cases ha'
      simp only [Opened.reading] at he
      split at he
      · rw [((found p entry).2 e he).1] at hgrants
        cases hgrants
      · exact ⟨a, entry, ha, hmem, hwanted, e, he, hgrants⟩

theorem Stops.of_only (h : v.Stops m (R.only gone) p) : v.Stops m R p := by
  obtain ⟨a', entry, ha', hmem, h⟩ := h
  cases ha : R p with
  | error failure =>
      rw [Reader.only, ha] at ha'
      cases ha'
  | ok a =>
      rw [Reader.only, ha] at ha'
      cases ha'
      exact ⟨a, entry, ha, (List.mem_filter.1 hmem).1, h⟩

/-- Paks that cannot be opened take their own rows away. -/
theorem flatMap_pakRows_losing (R : Reader) (lost : Path → Bool) (failure : Path → Failure)
    (ps : List Path) : (ps.flatMap (v.pakRows R)).Perm
      (ps.flatMap (v.pakRows (R.losing lost failure)) ++ (ps.filter lost).flatMap (v.pakRows R)) := by
  refine Data.flatMap_perm_append_filter ?_ ?_ ps
  · intro p hp
    rw [pakRows, Reader.losing, if_pos hp]
  · intro p hp
    rw [pakRows, Reader.losing, if_neg (by simp [hp]), pakRows]

/-- Entries of which nothing can be read take their own rows away from those of a pak. -/
theorem openedRows_reading
    (hrows : ∀ pak entry data, (∀ content, parse data ≠ .ok content) → v.rows pak entry data = [])
    (p : Path) (a : Opened) (gone : String → Bool) (found : String → Unreadable m parse) :
    (v.openedRows p a).Perm (v.openedRows p (a.reading gone fun entry => (found entry).1) ++
      v.openedRows p (a.only gone)) := by
  rw [openedRows, openedRows, openedRows, Opened.only, List.filter_comm]
  refine Data.flatMap_perm_append_filter ?_ ?_ _
  · intro entry hentry
    rw [entryRows]
    split
    · rename_i data hdata
      obtain ⟨e, he, hcontent⟩ := Opened.bytes_eq_ok_iff.1 hdata
      simp only [Opened.reading, if_pos hentry] at he
      exact hrows _ entry data (((found entry).2 e he).2 data hcontent)
    · rfl
  · intro entry hentry
    simp only [entryRows, Opened.bytes, Opened.reading,
      if_neg (show ¬gone entry = true by simp [hentry])]

/-- Entries of which nothing can be read take their own rows away. -/
theorem flatMap_pakRows_reading
    (hrows : ∀ pak entry data, (∀ content, parse data ≠ .ok content) → v.rows pak entry data = [])
    (R : Reader) (gone : Path → String → Bool) (found : Path → String → Unreadable m parse)
    (ps : List Path) : (ps.flatMap (v.pakRows R)).Perm
      (ps.flatMap (v.pakRows (R.reading gone fun p entry => (found p entry).1)) ++
        ps.flatMap (v.pakRows (R.only gone))) := by
  refine .trans (List.Perm.flatMap_left ps ?_) (List.flatMap_append_perm ps _ _).symm
  intro p _
  rw [pakRows, pakRows, pakRows, Reader.reading, Reader.only]
  cases R p with
  | error failure => exact List.Perm.refl _
  | ok a => exact openedRows_reading hrows p a (gone p) (found p)

end Inventory

/-! ### What rows say -/

/-- An entry of the pak is a map of that name, and the class stands in it that often. -/
def MapRow.Holds (R : Reader) (p : Path) (name : String) (r : MapRow) : Prop :=
  r.pak = p.text ∧ ∃ a entry e data lump, R p = .ok a ∧ entry ∈ a.names ∧
    mapName? entry = some r.map ∧ a.lookup? entry = some e ∧ e.content? = some data ∧
    entityText data = .ok lump ∧ (name, r.count) ∈ classNames lump

/-- The entry of the pak is a script of the kind, and the keyword stands in it that often. -/
def ScriptRow.Holds (kind : Script.Kind) (anyDepth : Bool) (R : Reader) (p : Path) (word : String)
    (r : ScriptRow) : Prop :=
  r.pak = p.text ∧ ∃ a e data, R p = .ok a ∧ r.script ∈ a.names ∧ kind.covers r.script = true ∧
    a.lookup? r.script = some e ∧ e.content? = some data ∧
    (word, r.count) ∈ (Script.keywords data anyDepth).keywords

section Holds

variable {R : Reader} {p : Path} {key : String}

/-- The rows of a pak are those of its entries of interest that can be unpacked. -/
theorem Inventory.mem_pakRows_iff {v : Inventory ρ} {r : Keyed ρ} : r ∈ v.pakRows R p ↔
    ∃ a entry e data, R p = .ok a ∧ entry ∈ a.names ∧ v.wanted entry = true ∧
      a.lookup? entry = some e ∧ e.content? = some data ∧ r ∈ v.rows p.text entry data := by
  have hentry : ∀ a entry, r ∈ v.entryRows p a entry ↔
      ∃ data, a.bytes entry = .ok data ∧ r ∈ v.rows p.text entry data := by
    intro a entry
    rw [entryRows]
    cases a.bytes entry <;> simp
  rw [pakRows]
  constructor
  · intro hr
    split at hr
    · rename_i a ha
      obtain ⟨entry, hmem, hr⟩ := List.mem_flatMap.1 hr
      obtain ⟨hmem, hwanted⟩ := List.mem_filter.1 hmem
      obtain ⟨data, hdata, hr⟩ := (hentry a entry).1 hr
      obtain ⟨e, he, hcontent⟩ := Opened.bytes_eq_ok_iff.1 hdata
      exact ⟨a, entry, e, data, ha, hmem, hwanted, he, hcontent, hr⟩
    · cases hr
  · rintro ⟨a, entry, e, data, ha, hmem, hwanted, he, hcontent, hr⟩
    rw [ha]
    refine List.mem_flatMap.2 ⟨entry, List.mem_filter.2 ⟨hmem, hwanted⟩, (hentry a entry).2 ?_⟩
    exact ⟨data, Opened.bytes_eq_ok_iff.2 ⟨e, he, hcontent⟩, hr⟩

theorem mem_mapFileRows_iff {pak entry : String} {data : List UInt8} {r : MapRow} :
    (key, r) ∈ mapFileRows pak entry data ↔ r.pak = pak ∧ mapName? entry = some r.map ∧
      ∃ lump, entityText data = .ok lump ∧ (key, r.count) ∈ classNames lump := by
  rw [mapFileRows]
  cases mapName? entry with
  | none => simp
  | some map =>
      cases entityText data with
      | error _ => simp
      | ok lump =>
          simp only [List.mem_map, Prod.exists, Prod.mk.injEq, Option.some.injEq, Except.ok.injEq,
            exists_eq_left']
          constructor
          · rintro ⟨name, n, hcount, rfl, rfl⟩
            exact ⟨rfl, rfl, hcount⟩
          · rintro ⟨rfl, rfl, hcount⟩
            exact ⟨key, r.count, hcount, rfl, rfl⟩

theorem mem_scriptFileRows_iff {anyDepth : Bool} {pak entry : String} {data : List UInt8}
    {r : ScriptRow} : (key, r) ∈ scriptFileRows anyDepth pak entry data ↔
      r.pak = pak ∧ r.script = entry ∧
        (key, r.count) ∈ (Script.keywords data anyDepth).keywords := by
  simp only [scriptFileRows, List.mem_map, Prod.exists, Prod.mk.injEq]
  constructor
  · rintro ⟨word, n, hcount, rfl, rfl⟩
    exact ⟨rfl, rfl, hcount⟩
  · rintro ⟨rfl, rfl, hcount⟩
    exact ⟨key, r.count, hcount, rfl, rfl⟩

/-- The rows of the maps in a pak hold. -/
theorem mem_pakRows_maps_iff {r : MapRow} :
    (key, r) ∈ Inventory.maps.pakRows R p ↔ r.Holds R p key := by
  rw [Inventory.mem_pakRows_iff, MapRow.Holds]
  simp only [Inventory.maps, mem_mapFileRows_iff]
  constructor
  · rintro ⟨a, entry, e, data, ha, hmem, -, he, hcontent, hpak, hmap, lump, hlump, hcount⟩
    exact ⟨hpak, a, entry, e, data, lump, ha, hmem, hmap, he, hcontent, hlump, hcount⟩
  · rintro ⟨hpak, a, entry, e, data, lump, ha, hmem, hmap, he, hcontent, hlump, hcount⟩
    exact ⟨a, entry, e, data, ha, hmem, by rw [hmap, Option.isSome_some], he, hcontent, hpak, hmap,
      lump, hlump, hcount⟩

/-- The rows of the scripts in a pak hold. -/
theorem mem_pakRows_scripts_iff {kind : Script.Kind} {anyDepth : Bool} {r : ScriptRow} :
    (key, r) ∈ (Inventory.scripts kind anyDepth).pakRows R p ↔ r.Holds kind anyDepth R p key := by
  rw [Inventory.mem_pakRows_iff, ScriptRow.Holds]
  simp only [Inventory.scripts, mem_scriptFileRows_iff]
  constructor
  · rintro ⟨a, _, e, data, ha, hmem, hkind, he, hcontent, hpak, rfl, hcount⟩
    exact ⟨hpak, a, e, data, ha, hmem, hkind, he, hcontent, hcount⟩
  · rintro ⟨hpak, a, e, data, ha, hmem, hkind, he, hcontent, hcount⟩
    exact ⟨a, r.script, e, data, ha, hmem, hkind, he, hcontent, hpak, rfl, hcount⟩

end Holds

/-! ### Unions -/

namespace Inventory

/-- A table is the multiset union of those of the single paks: a row is there as often as it is in
them, each of them has the rows that its pak gives, and these are the ones that hold.  What cannot be
read is missing, and nothing else. -/
structure IsUnion (v : Inventory ρ) (parse : List UInt8 → Outcome (List UInt8))
    (Holds : Reader → Path → String → ρ → Prop) (m : Memory) (R : Reader) (ps : List Path)
    (t : Table ρ) : Prop where
  inOrder : t.InOrder v.order
  union : ∃ ts, ps.mapM (fun p => v.table m R [p]) = .ok ts ∧ t.rows.Perm (ts.flatMap Table.rows)
  single : ∀ p ∈ ps, ∃ s rs, v.table m R [p] = .ok s ∧ v.ofPak m R p = .ok rs ∧ s.rows.Perm rs ∧
    ∀ key r, (key, r) ∈ s.rows ↔ Holds R p key r
  losing : ∀ lost failure, ∃ s u, v.table m (R.losing lost failure) ps = .ok s ∧
    v.table m R (ps.filter lost) = .ok u ∧ t.rows.Perm (s.rows ++ u.rows)
  reading : ∀ gone (found : Path → String → Unreadable m parse), ∃ s u,
    v.table m (R.reading gone fun p entry => (found p entry).1) ps = .ok s ∧
    v.table m (R.only gone) ps = .ok u ∧ t.rows.Perm (s.rows ++ u.rows)

/-- The census of paks is the union of those of the single paks, unless there is no buffer for an entry
of interest; then there is none. -/
structure Unites (v : Inventory ρ) (parse : List UInt8 → Outcome (List UInt8))
    (Holds : Reader → Path → String → ρ → Prop) (m : Memory) (R : Reader) (ps : List Path) : Prop where
  stops : (∃ p ∈ ps, v.Stops m R p) → v.table m R ps = .error .memory
  union : (∀ p ∈ ps, ¬v.Stops m R p) → ∃ t, v.table m R ps = .ok t ∧ v.IsUnion parse Holds m R ps t

variable {v : Inventory ρ} {m : Memory} {R : Reader} {ps : List Path}
  {parse : List UInt8 → Outcome (List UInt8)} {Holds : Reader → Path → String → ρ → Prop}

/-- A census that there is, is a union. -/
theorem isUnion_census [Std.TransCmp v.order]
    (hrows : ∀ pak entry data, (∀ content, parse data ≠ .ok content) → v.rows pak entry data = [])
    (hholds : ∀ R p key r, (key, r) ∈ v.pakRows R p ↔ Holds R p key r)
    (h : ∀ p ∈ ps, ¬v.Stops m R p) :
    v.IsUnion parse Holds m R ps (census v.order (ps.flatMap (v.pakRows R))) where
  inOrder := inOrder_census _
  union := by
    refine ⟨_, mapM_ok_of_forall fun p hp => table_singleton_of_not_stops (h p hp), ?_⟩
    rw [List.flatMap_map]
    exact (rows_census _).trans (List.Perm.flatMap_left ps fun p _ => (rows_census _).symm)
  single p hp := by
    refine ⟨_, _, table_singleton_of_not_stops (h p hp), ofPak_of_not_stops (h p hp), rows_census _, ?_⟩
    intro key r
    rw [(rows_census _).mem_iff, hholds]
  losing lost failure := by
    have hlosing : ∀ p ∈ ps, ¬v.Stops m (R.losing lost failure) p :=
      fun p hp hstops => h p hp hstops.of_losing
    have hlost : ∀ p ∈ ps.filter lost, ¬v.Stops m R p :=
      fun p hp => h p (List.mem_filter.1 hp).1
    refine ⟨_, _, table_of_forall_not_stops hlosing, table_of_forall_not_stops hlost, ?_⟩
    exact (rows_census _).trans ((flatMap_pakRows_losing R lost failure ps).trans
      ((rows_census _).append (rows_census _)).symm)
  reading gone found := by
    have hreading : ∀ p ∈ ps, ¬v.Stops m (R.reading gone fun p entry => (found p entry).1) p :=
      fun p hp hstops => h p hp hstops.of_reading
    have honly : ∀ p ∈ ps, ¬v.Stops m (R.only gone) p :=
      fun p hp hstops => h p hp hstops.of_only
    refine ⟨_, _, table_of_forall_not_stops hreading, table_of_forall_not_stops honly, ?_⟩
    exact (rows_census _).trans ((flatMap_pakRows_reading hrows R gone found ps).trans
      ((rows_census _).append (rows_census _)).symm)

/-- Censuses are unions, unless they stop. -/
theorem unites [Std.TransCmp v.order]
    (hrows : ∀ pak entry data, (∀ content, parse data ≠ .ok content) → v.rows pak entry data = [])
    (hholds : ∀ R p key r, (key, r) ∈ v.pakRows R p ↔ Holds R p key r) (m : Memory) (R : Reader)
    (ps : List Path) : v.Unites parse Holds m R ps where
  stops := by
    rintro ⟨p, hp, hstops⟩
    exact table_of_stops hp hstops
  union h := ⟨_, table_of_forall_not_stops h, isUnion_census hrows hholds h⟩

instance : Std.TransCmp maps.order := inferInstanceAs (Std.TransCmp MapRow.order)

instance : Std.LawfulEqCmp maps.order := inferInstanceAs (Std.LawfulEqCmp MapRow.order)

instance (kind : Script.Kind) (anyDepth : Bool) : Std.TransCmp (scripts kind anyDepth).order :=
  inferInstanceAs (Std.TransCmp ScriptRow.order)

instance (kind : Script.Kind) (anyDepth : Bool) : Std.LawfulEqCmp (scripts kind anyDepth).order :=
  inferInstanceAs (Std.LawfulEqCmp ScriptRow.order)

end Inventory

theorem mapFileRows_of_not_ok (pak entry : String) {data : List UInt8}
    (h : ∀ lump, entityText data ≠ .ok lump) : mapFileRows pak entry data = [] := by
  rw [mapFileRows]
  split
  · rename_i lump _ hlump
    exact absurd hlump (h lump)
  · rfl

/-- **The censuses do not depend on the order of the paks, and they are the unions of those of the
single paks**: for every reader, and with paks that cannot be opened or occur more than once.  One entry
of interest that declares more bytes than there are buffers for is enough that there is no census; half
of what words can address is always more. -/
theorem maps_scripts_unite {ps qs : List Path} (h : ps.Perm qs) (m : Memory) (R : Reader)
    (kind : Script.Kind) (anyDepth : Bool) :
    let maps := Inventory.maps
    let scripts := Inventory.scripts kind anyDepth
    (maps.table m R ps = maps.table m R qs ∧ scripts.table m R ps = scripts.table m R qs) ∧
      maps.Unites entityText (fun R p name r => r.Holds R p name) m R ps ∧
      scripts.Unites .ok (fun R p word r => r.Holds kind anyDepth R p word) m R ps ∧
      ∀ (a : Opened) (entry : String) (e : Packed), a.lookup? entry = some e →
        UInt64.size / 2 ≤ e.size.toNat → a.Stops m entry := by
  intro maps scripts
  have hmaps : maps.Unites entityText (fun R p name r => r.Holds R p name) m R ps :=
    Inventory.unites (fun _ _ _ => mapFileRows_of_not_ok _ _) (fun _ _ _ _ => mem_pakRows_maps_iff) m R ps
  have hscripts : scripts.Unites .ok (fun R p word r => r.Holds kind anyDepth R p word) m R ps :=
    Inventory.unites (fun _ _ data hdata => absurd rfl (hdata data))
      (fun _ _ _ _ => mem_pakRows_scripts_iff) m R ps
  exact ⟨⟨Inventory.table_eq_of_perm h, Inventory.table_eq_of_perm h⟩, hmaps, hscripts,
    fun a entry e he hsize => Opened.stops_of_le he hsize⟩

/-- A reader for which one pak is broken; the others have a script, and one that cannot be read. -/
def mostlyReadable : Reader := fun p =>
  if p.text = "broken.pk3" then .error (.badPak p)
  else .ok ⟨["scripts/lost.trail", "scripts/smoke.trail"], fun entry =>
    if entry = "scripts/lost.trail" then some ⟨7, none⟩
    else some ⟨7, some [0x61, 0x61, newline, openBrace, 0x62, 0x62, closeBrace]⟩⟩

theorem not_stops_mostlyReadable {ρ : Type} (v : Inventory ρ) (p : Path) :
    ¬v.Stops .addressable mostlyReadable p := by
  rintro ⟨a, entry, ha, -, -, e, he, hgrants⟩
  have hsize : e.size = 7 := by
    rw [mostlyReadable] at ha
    split at ha
    · cases ha
    · cases ha
      dsimp only at he
      split at he <;> cases he <;> rfl
  rw [hsize] at hgrants
  exact absurd hgrants (by decide)

/-- A pak that is listed twice counts twice, wherever the broken one stands. -/
theorem scripts_table_twice :
    let ps : List Path := [⟨"fx.pk3"⟩, ⟨"broken.pk3"⟩, ⟨"fx.pk3"⟩]
    let qs : List Path := [⟨"broken.pk3"⟩, ⟨"fx.pk3"⟩, ⟨"fx.pk3"⟩]
    ps.Perm qs ∧ ∃ t, (Inventory.scripts .trail false).table .addressable mostlyReadable qs = .ok t ∧
      t.rows.Perm [("bb", ⟨"fx.pk3", "scripts/smoke.trail", 1⟩),
        ("bb", ⟨"fx.pk3", "scripts/smoke.trail", 1⟩)] := by
  intro ps qs
  have hperm : ps.Perm qs := List.Perm.swap _ _ _
  obtain ⟨⟨-, htable⟩, -, hunites, -⟩ :=
    maps_scripts_unite hperm .addressable mostlyReadable .trail false
  obtain ⟨t, ht, hunion⟩ := hunites.union fun p _ => not_stops_mostlyReadable _ p
  obtain ⟨ts, hts, hrows⟩ := hunion.union
  have hsingle : ps.mapM (fun p => (Inventory.scripts .trail false).table .addressable mostlyReadable [p]) =
      .ok [[("bb", [⟨"fx.pk3", "scripts/smoke.trail", 1⟩])], [],
        [("bb", [⟨"fx.pk3", "scripts/smoke.trail", 1⟩])]] := by decide +kernel
  cases hts.symm.trans hsingle
  exact ⟨hperm, t, htable.symm.trans ht, hrows⟩

/-- A map with one entity. -/
def worldMap : List UInt8 :=
  MapHeader.encode ⟨46, (Vector.replicate lumpCount ⟨0, 0⟩).set 0 ⟨144, 29⟩⟩ ++
    "\x7b\n\"classname\" \"worldspawn\"\n\x7d\n".toUTF8.toList

/-- A reader for which the map of one pak cannot be unpacked, and is said to be enormous; the other paks
have a map with one entity. -/
def oneOversized : Reader := fun p =>
  if p.text = "bad.pk3" then .ok ⟨["maps/b.bsp"], fun _ => some ⟨0x4000000000000000, none⟩⟩
  else .ok ⟨["maps/a.bsp"], fun _ => some ⟨173, some worldMap⟩⟩

/-- The rows of a good pak are lost beside one whose map cannot be read. -/
theorem census_lost_beside_oversized :
    Inventory.maps.table .addressable oneOversized [⟨"good.pk3"⟩] =
        .ok [("worldspawn", [⟨"a", 1, "good.pk3"⟩])] ∧
      Inventory.maps.table .addressable oneOversized [⟨"bad.pk3"⟩, ⟨"good.pk3"⟩] = .error .memory := by
  decide +kernel

end Pak

end Upkeep
