/-
**What a record holds after a step.**

The places of every role are looked up in a map whose keys increase.  Every step that touches a
record keeps them so, and changes the places of one role at most.

Main definitions:

* `Upkeep.Cvar.Record.Ordered` — records whose roles are in order.

Main results:

* `Upkeep.Cvar.Occurrence.order_eq_iff` — places are equal by the order when they are the same;
* `Upkeep.Cvar.Record.places_add_self`, `Upkeep.Cvar.Record.places_add_of_ne` — the places after one
  more mention;
* `Upkeep.Cvar.Record.mem_mentions` — the mentions are the places of the roles;
* `Upkeep.Cvar.Record.places_scrub` — the places that table entries leave.
-/

import Upkeep.Cvar.Record
import Upkeep.Proofs.Data.Ordered
import Upkeep.Proofs.Path.Order

set_option relaxedAutoImplicit false
set_option autoImplicit false

namespace Upkeep

namespace Cvar

/-! ### Roles -/

instance : Std.TransCmp Role.order :=
  inferInstanceAs (Std.TransCmp (compareOn Role.rank))

instance : Std.LawfulEqCmp Role.order where
  eq_of_compare h := Role.rank_injective (Std.LawfulEqCmp.eq_of_compare h)

/-! ### The order of places -/

namespace Occurrence

instance transCmp_order : Std.TransCmp order := by
  have hfile : Std.TransCmp fun a b : Occurrence => a.file.compare b.file := Data.transCmp_on file
  have hline : Std.TransCmp fun a b : Occurrence => compare a.line b.line := Data.transCmp_on line
  have hcolumn : Std.TransCmp fun a b : Occurrence => compare a.column b.column :=
    Data.transCmp_on column
  exact inferInstanceAs
    (Std.TransCmp (compareLex (fun a b : Occurrence => a.file.compare b.file)
      (compareLex (fun a b => compare a.line b.line) fun a b => compare a.column b.column)))

/-- Places are equal by the order when they are the same. -/
theorem order_eq_iff {a b : Occurrence} : a.order b = .eq ↔ a.same b = true := by
  refine ⟨same_of_order, ?_⟩
  simp only [same, Bool.and_eq_true, beq_iff_eq, and_imp]
  intro hfile hline hcolumn
  simp [order, Path.compare_eq_eq_iff.2 hfile, hline, hcolumn]

end Occurrence

namespace Record

/-! ### Ordered records -/

/-- The roles of a record are in order. -/
def Ordered (r : Record) : Prop := Data.Increasing Role.order r.roles

theorem ordered_empty : empty.Ordered := Data.increasing_nil

theorem Ordered.add {r : Record} (h : r.Ordered) (role : Role) (o : Occurrence) :
    (r.add role o).Ordered := Data.Increasing.upsertBy h _ _

theorem Ordered.note {r : Record} (h : r.Ordered) (data : Registration) : (r.note data).Ordered := h

theorem Ordered.noteBounds {r : Record} (h : r.Ordered) (b : Bounds) : (r.noteBounds b).Ordered := h

theorem Ordered.noteWrite {r : Record} (h : r.Ordered) (o : Occurrence) (w : WriteSite) :
    (r.noteWrite o w).Ordered := h

/-! ### Places -/

@[simp] theorem places_note (r : Record) (data : Registration) (role : Role) :
    (r.note data).places role = r.places role := rfl

@[simp] theorem places_noteBounds (r : Record) (b : Bounds) (role : Role) :
    (r.noteBounds b).places role = r.places role := rfl

@[simp] theorem places_noteWrite (r : Record) (o : Occurrence) (w : WriteSite) (role : Role) :
    (r.noteWrite o w).places role = r.places role := rfl

theorem places_add_self {r : Record} (h : r.Ordered) (role : Role) (o : Occurrence) :
    (r.add role o).places role = (r.places role).insert o := by
  rw [places, add, Data.lookupBy_upsertBy_self h]
  rfl

theorem places_add_of_ne {role role' : Role} (hne : role ≠ role') (r : Record) (o : Occurrence) :
    (r.add role' o).places role = r.places role := by
  rw [places, add, Data.lookupBy_upsertBy_of_ne hne]
  rfl

/-- One more mention takes none away. -/
theorem mem_places_add {r : Record} (h : r.Ordered) {role role' : Role} {o p : Occurrence}
    (hp : p ∈ r.places role) : p ∈ (r.add role' o).places role := by
  by_cases hrole : role = role'
  · subst hrole
    rw [places_add_self h]
    exact Places.mem_insert_of_mem hp
  · rwa [places_add_of_ne hrole]

/-- The mentions are the places of the roles. -/
theorem mem_mentions {r : Record} (h : r.Ordered) {role : Role} {o : Occurrence} :
    (role, o) ∈ r.mentions ↔ o ∈ r.places role := by
  simp only [mentions, List.mem_flatMap, List.mem_map, Prod.mk.injEq]
  constructor
  · rintro ⟨⟨role', ps⟩, hmem, o', ho, rfl, rfl⟩
    rw [places, (Data.lookupBy_eq_some_iff h).2 hmem]
    exact ho
  · intro ho
    rw [places] at ho
    cases hps : Data.lookupBy Role.order role r.roles with
    | none => simp [hps] at ho
    | some ps =>
        rw [hps] at ho
        exact ⟨(role, ps), Data.mem_of_lookupBy hps, o, ho, rfl, rfl⟩

/-- The mentions come in the order of their roles. -/
theorem Ordered.pairwise_mentions {r : Record} (h : r.Ordered) :
    r.mentions.Pairwise fun a b => a.1.rank ≤ b.1.rank := by
  rw [mentions, List.pairwise_flatMap]
  constructor
  · intro e _
    exact List.pairwise_map.2 (List.pairwise_of_forall fun _ _ => Nat.le_refl _)
  · refine h.imp fun {e e'} hlt => ?_
    intro a ha b hb
    obtain ⟨o, -, rfl⟩ := List.mem_map.1 ha
    obtain ⟨o', -, rfl⟩ := List.mem_map.1 hb
    exact Nat.le_of_lt (Nat.compare_eq_lt.1 hlt)

theorem mem_parsedMentions {r : Record} (h : r.Ordered) {role : Role} {o : Occurrence} :
    (role, o) ∈ r.parsedMentions ↔ o ∈ r.places role ∧ role.isParsed = true := by
  rw [parsedMentions, List.mem_filter, mem_mentions h]

/-! ### Lines of tables -/

theorem onTableLine_iff {r : Record} {o : Occurrence} :
    r.onTableLine o = true ↔ ∃ t ∈ r.places .table, o.sameLine t = true := by
  simp [onTableLine]

/-- The places that table entries leave: all of their own, and those on other lines. -/
theorem places_scrub (r : Record) (role : Role) :
    r.scrub.places role =
      if role = .table then r.places role else (r.places role).filter (!r.onTableLine ·) := by
  have hlookup : ∀ m : List (Role × Places), Data.lookupBy Role.order role (m.map fun s =>
      (s.1, if s.1 == .table then s.2 else s.2.filter (!r.onTableLine ·))) =
      (Data.lookupBy Role.order role m).map fun ps =>
        if role = .table then ps else ps.filter (!r.onTableLine ·) := by
    intro m
    induction m with
    | nil => rfl
    | cons e m ih =>
        rw [List.map_cons, Data.lookupBy_cons, Data.lookupBy_cons, ih]
        split
        · rename_i heq
          obtain rfl := Std.LawfulEqCmp.eq_of_compare heq
          simp
        · rfl
  rw [places, scrub, hlookup, places]
  cases Data.lookupBy Role.order role r.roles <;> simp

theorem Ordered.scrub {r : Record} (h : r.Ordered) : r.scrub.Ordered := by
  unfold Ordered Data.Increasing Record.scrub
  rw [List.pairwise_map]
  exact h

/-- A place off the lines of table entries stays. -/
theorem mem_places_scrub {r : Record} {role : Role} {o : Occurrence} (h : o ∈ r.places role)
    (hline : r.onTableLine o = false) : o ∈ r.scrub.places role := by
  rw [places_scrub]
  split
  · exact h
  · exact List.mem_filter.2 ⟨h, by simp [hline]⟩

/-- The places of table entries stay. -/
@[simp] theorem places_scrub_table (r : Record) : r.scrub.places .table = r.places .table := by
  rw [places_scrub, if_pos rfl]

end Record

end Cvar

end Upkeep
