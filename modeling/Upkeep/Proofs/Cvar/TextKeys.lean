/-
**What stands for a cvar in texts.**

All names and display names share one table of keys, in lower case.  A key that is a name leads to the
cvar of this name, and display names never come in between; where names differ by case alone, the last
of them in order takes the key from the others.  A key that is no name leads to the first cvar that is
displayed so.  Words in texts and writes by a name in quotes go by this table alone: they are
mentions of the cvar to which their key leads, and of no other.

Main definitions:

* `Upkeep.Cvar.Ledger.LastNamed`, `Upkeep.Cvar.Ledger.FirstDisplayed` — the cvar of a name, and of a
  display name;
* `Upkeep.Cvar.Record.attachAll` — a record with writes attached.

Main results:

* `Upkeep.Cvar.Ledger.lastNamed_or_firstDisplayed`, `Upkeep.Cvar.Ledger.exists_lastNamed` — what a key
  leads to;
* `Upkeep.Cvar.Ledger.get?_attachAll` — the records after writes are attached;
* `Upkeep.Cvar.names_in_texts` — **keys lead to names first, and mentions go where keys lead**.
-/

import Upkeep.Proofs.Cvar.Facts
import Upkeep.Proofs.Cvar.Writes

set_option relaxedAutoImplicit false
set_option autoImplicit false

namespace Upkeep

namespace Cvar

open Files

namespace Ledger

variable {l : Ledger} {key name : String} {r : Record}

/-! ### Names and display names -/

/-- The last cvar, in the order of names, whose name has a key. -/
structure LastNamed (l : Ledger) (key name : String) : Prop where
  known : ∃ r, l.get? name = some r
  spelled : Text.lower name = key
  last : ∀ name' r', l.get? name' = some r' → Text.lower name' = key →
    name' = name ∨ compare name' name = .lt

/-- The first cvar, in the order of names, that is displayed by a name with a key, where no cvar has a
name with it. -/
structure FirstDisplayed (l : Ledger) (key name : String) : Prop where
  displayed : ∃ r, l.get? name = some r ∧ ∃ d ∈ r.displayNames, Text.lower d = key
  unnamed : ∀ name' r', l.get? name' = some r' → Text.lower name' ≠ key
  first : ∀ name' r', l.get? name' = some r' → (∃ d ∈ r'.displayNames, Text.lower d = key) →
    name' = name ∨ compare name name' = .lt

/-- In a list in order, what satisfies a condition stands at the first place that does, or behind it. -/
theorem eq_or_lt_of_find? {α : Type} {R : α → α → Prop} {xs : List α} (h : xs.Pairwise R)
    {p : α → Bool} {x y : α} (hx : xs.find? p = some x) (hy : y ∈ xs) (hp : p y = true) :
    y = x ∨ R x y := by
  obtain ⟨-, front, rest, rfl, hfront⟩ := List.find?_eq_some_iff_append.1 hx
  rcases List.mem_append.1 hy with hy | hy
  · have hnot := hfront y hy
    simp [hp] at hnot
  · rcases List.mem_cons.1 hy with rfl | hy
    · exact .inl rfl
    · exact .inr (List.rel_of_pairwise_cons (List.pairwise_append.1 h).2.1 hy)

/-- The key of a name leads to the last cvar of this name. -/
theorem exists_lastNamed (h : l.Ordered) (hget : l.get? name = some r) :
    ∃ owner, l.textKeys.find? (Text.lower name) = some owner ∧
      l.LastNamed (Text.lower name) owner := by
  obtain ⟨s, hs, hfind, hspelled, hkey⟩ := exists_find?_named h hget
  refine ⟨s.1, hkey, ⟨s.2, (Data.lookupBy_eq_some_iff h.names).2 hs⟩, hspelled, ?_⟩
  intro name' r' hget' hsame
  have hmem' := List.mem_reverse.2 ((Data.lookupBy_eq_some_iff h.names).1 hget')
  have hback : l.symbols.reverse.Pairwise fun a b => compare b.1 a.1 = .lt :=
    List.pairwise_reverse.2 h.names
  refine (eq_or_lt_of_find? hback hfind hmem' (by simpa using hsame)).imp_left ?_
  rintro rfl
  rfl

/-- Whatever a key leads to is the last cvar of this name, or else the first one displayed so. -/
theorem lastNamed_or_firstDisplayed (h : l.Ordered) (hkey : l.textKeys.find? key = some name) :
    l.LastNamed key name ∨ l.FirstDisplayed key name := by
  by_cases hnamed : ∃ name' r', l.get? name' = some r' ∧ Text.lower name' = key
  · obtain ⟨name', r', hget, rfl⟩ := hnamed
    obtain ⟨owner, hfind, hlast⟩ := exists_lastNamed h hget
    rw [hkey, Option.some.injEq] at hfind
    exact .inl (hfind ▸ hlast)
  · right
    have hunnamed : ∀ name' r', l.get? name' = some r' → Text.lower name' ≠ key :=
      fun name' r' hget heq => hnamed ⟨name', r', hget, heq⟩
    have hnone : l.symbols.reverse.find? (Text.lower ·.1 == key) = none := by
      rw [List.find?_eq_none]
      intro s hs
      have hget := (Data.lookupBy_eq_some_iff h.names).2 (List.mem_reverse.1 hs)
      simpa using hunnamed s.1 s.2 hget
    rw [find?_textKeys, hnone, Option.map_none, Option.none_or, Option.map_eq_some_iff] at hkey
    obtain ⟨s, hfind, rfl⟩ := hkey
    have hget := (Data.lookupBy_eq_some_iff h.names).2 (List.mem_of_find?_eq_some hfind)
    refine ⟨⟨s.2, hget, by simpa using List.find?_some hfind⟩, hunnamed, ?_⟩
    intro name' r' hget' hdisplayed
    have hmem' := (Data.lookupBy_eq_some_iff h.names).1 hget'
    refine (eq_or_lt_of_find? h.names hfind hmem' (by simpa using hdisplayed)).imp_left ?_
    rintro rfl
    rfl

end Ledger

/-! ### Writes -/

namespace Record

variable {r : Record} {o : Occurrence} {os : List Occurrence} {ws : List PendingWrite}

/-- The places of mentions in texts after some were added are those before, and theirs. -/
theorem mem_places_addTexts (h : r.Ordered) (ho : o ∈ (r.addTexts os).places .text) :
    o ∈ r.places .text ∨ o ∈ os := by
  induction os generalizing r with
  | nil => exact .inl ho
  | cons p os ih =>
      rcases ih (h.add .text p) ho with ho | ho
      · rw [places_add_self h] at ho
        rcases Data.mem_insertBy ho with rfl | ho
        · exact .inr List.mem_cons_self
        · exact .inl ho
      · exact .inr (List.mem_cons_of_mem _ ho)

/-- The record with writes attached one after the other. -/
def attachAll (r : Record) (ws : List PendingWrite) : Record :=
  ws.foldl (fun r w => (r.add .set w.place).noteWrite w.place w.site) r

/-- The site at a place after a write. -/
theorem writeAt?_noteWrite (h : r.Tidy) (o p : Occurrence) (site : WriteSite) :
    (r.noteWrite p site).writeAt? o = if o.same p = true then some site else r.writeAt? o := by
  rw [writeAt?, noteWrite, Data.lookupBy_upsertBy h.writes]
  simp only [Occurrence.order_eq_iff]
  rfl

/-- The places of writes after some were attached are those before, and theirs. -/
theorem mem_places_attachAll (h : r.Ordered) (ho : o ∈ (r.attachAll ws).places .set) :
    o ∈ r.places .set ∨ ∃ w ∈ ws, w.place = o := by
  induction ws generalizing r with
  | nil => exact .inl ho
  | cons w ws ih =>
      rcases ih ((h.add .set w.place).noteWrite w.place w.site) ho with ho | ⟨w', hw', rfl⟩
      · rw [places_noteWrite, places_add_self h] at ho
        rcases Data.mem_insertBy ho with rfl | ho
        · exact .inr ⟨w, List.mem_cons_self, rfl⟩
        · exact .inl ho
      · exact .inr ⟨w', List.mem_cons_of_mem _ hw', rfl⟩

/-- Every write that was attached has its place. -/
theorem has_places_attachAll (h : r.Ordered)
    (ho : (r.places .set).has o = true ∨ ∃ w ∈ ws, w.place = o) :
    ((r.attachAll ws).places .set).has o = true := by
  induction ws generalizing r with
  | nil => exact ho.resolve_right (by simp)
  | cons w ws ih =>
      refine ih ((h.add .set w.place).noteWrite w.place w.site) ?_
      rw [places_noteWrite, places_add_self h]
      rcases ho with ho | ⟨w', hw', rfl⟩
      · obtain ⟨p, hp, hsame⟩ := List.any_eq_true.1 ho
        exact .inl (List.any_eq_true.2 ⟨p, Places.mem_insert_of_mem hp, hsame⟩)
      · rcases List.mem_cons.1 hw' with rfl | hw'
        · exact .inl (List.any_eq_true.2 (Places.exists_same_mem_insert _ _))
        · exact .inr ⟨w', hw', rfl⟩

/-- A write has its site after all, if no other one is at its place. -/
theorem writeAt?_attachAll (h : r.Tidy) {w : PendingWrite}
    (hapart : ∀ w' ∈ ws, w.place.same w'.place = true → w' = w)
    (hw : r.writeAt? w.place = some w.site ∨ w ∈ ws) :
    (r.attachAll ws).writeAt? w.place = some w.site := by
  induction ws generalizing r with
  | nil => exact hw.resolve_right (by simp)
  | cons w' ws ih =>
      obtain ⟨hw', hapart⟩ := List.forall_mem_cons.1 hapart
      have hadd := h.add .set w'.place
      refine ih (hadd.noteWrite w'.place w'.site) hapart ?_
      rw [writeAt?_noteWrite hadd]
      by_cases hsame : w.place.same w'.place = true
      · rw [if_pos hsame, hw' hsame]
        exact .inl rfl
      · rw [if_neg hsame]
        refine hw.imp_right fun hmem => (List.mem_cons.1 hmem).resolve_left ?_
        rintro rfl
        exact hsame w.place.same_self

end Record

namespace Ledger

variable {l l' : Ledger} {keys : Keys} {key name : String} {r r' : Record} {o : Occurrence}

/-- The writes whose keys lead to a cvar. -/
def writesOn (keys : Keys) (name : String) (ws : List PendingWrite) : List PendingWrite :=
  ws.filter (keys.find? ·.key == some name)

/-- Writes go into the record to which their keys lead. -/
theorem get?_attachAll (h : l.Ordered) (hget : l.get? name = some r) (ws : List PendingWrite) :
    (ws.foldl (attach keys) l).get? name = some (r.attachAll (writesOn keys name ws)) := by
  induction ws generalizing l r with
  | nil => exact hget
  | cons w ws ih =>
      have hone : (attach keys l w).get? name = some (r.attachAll (writesOn keys name [w])) := by
        rw [attach]
        split
        · rename_i name' hkey
          by_cases hname : name = name'
          · subst hname
            rw [get?_modify_self h, hget, Option.getD_some, writesOn, List.filter_singleton, hkey]
            simp [Record.attachAll]
          · rw [get?_modify_of_ne hname, hget, writesOn, List.filter_singleton, hkey]
            simp [Record.attachAll, beq_false_of_ne (Ne.symm hname)]
        · rename_i hkey
          rw [hget, writesOn, List.filter_singleton, hkey]
          rfl
      rw [List.foldl_cons, ih (h.attach keys w) hone]
      rw [Record.attachAll, Record.attachAll, Record.attachAll, ← List.foldl_append, writesOn, writesOn,
        ← List.filter_append, List.singleton_append, writesOn]

/-- The records after all writes are attached: those before, with the writes whose keys lead to them. -/
theorem get?_resolveWrites (h : l.Ordered) (hget : l.resolveWrites.get? name = some r') :
    ∃ r, l.get? name = some r ∧ r' = r.attachAll (writesOn l.textKeys name l.pending) := by
  obtain ⟨r, hr⟩ := get?_of_nameTable h (nameTable_resolveWrites h) hget
  have hwaiting : ({ l with pending := [] } : Ledger).Ordered := ⟨h.names, h.records⟩
  have hattached : l.resolveWrites.get? name =
      some (r.attachAll (writesOn l.textKeys name l.pending)) := get?_attachAll hwaiting hr l.pending
  exact ⟨r, hr, Option.some.inj (hget.symm.trans hattached)⟩

theorem Reachable.tidy (h : l.Reachable) : l.Tidy := by
  induction h with
  | empty => exact tidy_empty
  | record h f ih => exact ih.record f
  | resolveWrites h ih => exact ih.resolveWrites
  | textScan h hscan ih =>
      obtain ⟨texts, w₁, -, hpure⟩ := on_bind_ok.1 hscan
      cases hpure
      exact ih.scanTexts _ texts
  | scrub h ih => exact ih.scrub

/-! ### Words -/

/-- At a place in one of the files, whose lines are held, stands a whole word whose key leads to a
cvar. -/
def StandsAt (l : Ledger) (w : Workspace) (files : List Path) (name : String) (o : Occurrence) :
    Prop :=
  ∃ file ∈ files, ∃ lines, w.held? file = some lines ∧ ∃ i line word, lines[i]? = some line ∧
    Text.WholeWord line word ∧ l.textKeys.find? (Text.lower word.text) = some name ∧
    ⟨file, i + 1, word.offset + 1⟩ = o

/-- A search gives a word to the cvar to which its key leads, unless a parsed mention of this cvar
accounts for it, and gives nothing else to any cvar. -/
theorem search_goes_by_keys (h : l.Ordered) {dedup : Dedup} {files : List Path} {n : Nat}
    {w w' : Workspace} (hscan : (l.textScan dedup files).on w = (.ok (l', n), w')) :
    (∀ name o, l.StandsAt w' files name o → ∃ r r', l.get? name = some r ∧
      l'.get? name = some r' ∧ (r.accountsFor dedup o = true ∨ (r'.places .text).has o = true)) ∧
    ∀ name r', l'.get? name = some r' → ∀ o ∈ r'.places .text,
      (∃ r, l.get? name = some r ∧ o ∈ r.places .text) ∨ l.StandsAt w' files name o := by
  obtain ⟨texts, w₁, htexts, hpure⟩ := on_bind_ok.1 hscan
  cases hpure
  obtain ⟨-, hfiles, hheld⟩ := heldTexts_ok htexts
  constructor
  · rintro name o ⟨file, hfile, lines, hlines, i, line, word, hline, hword, hkey, rfl⟩
    obtain ⟨r, hget⟩ := get?_of_textKeys h hkey
    refine ⟨r, _, hget, get?_scanTexts h hget, ?_⟩
    cases hacc : r.accountsFor dedup ⟨file, i + 1, word.offset + 1⟩ with
    | true => exact .inl rfl
    | false =>
        right
        rw [← hfiles] at hfile
        obtain ⟨t, ht, rfl⟩ := List.mem_map.1 hfile
        obtain rfl : t.2 = lines := Option.some.inj ((hheld t ht).symm.trans hlines)
        have hhit : (name, (⟨t.1, i + 1, word.offset + 1⟩ : Occurrence)) ∈ hits l dedup texts := by
          refine List.mem_flatMap.2 ⟨t, ht, List.mem_filter.2 ⟨?_, ?_⟩⟩
          · exact mem_namedInLines.2 ⟨i, line, word, hline, hword, hkey, rfl⟩
          · simp [isNews, hget, hacc]
        have hmem : (⟨t.1, i + 1, word.offset + 1⟩ : Occurrence) ∈ hitsOn name (hits l dedup texts) :=
          List.mem_map.2 ⟨_, List.mem_filter.2 ⟨hhit, by simp⟩, rfl⟩
        exact List.any_eq_true.2 (Record.exists_same_mem_addTexts (h.of_get? hget) hmem)
  · intro name r' hget' o ho
    obtain ⟨r, hget⟩ := get?_of_nameTable h (nameTable_scanTexts h) hget'
    rw [get?_scanTexts h hget, Option.some.injEq] at hget'
    subst hget'
    rcases Record.mem_places_addTexts (h.of_get? hget) ho with ho | ho
    · exact .inl ⟨r, hget, ho⟩
    · right
      obtain ⟨hit, hmem, rfl⟩ := List.mem_map.1 ho
      obtain ⟨hhit, hname⟩ := List.mem_filter.1 hmem
      obtain rfl : hit.1 = name := eq_of_beq hname
      obtain ⟨t, ht, hfound⟩ := List.mem_flatMap.1 hhit
      obtain ⟨i, line, word, hline, hword, hkey, ho⟩ :=
        mem_namedInLines.1 (List.mem_filter.1 hfound).1
      exact ⟨t.1, hfiles ▸ List.mem_map_of_mem ht, t.2, hheld t ht, i, line, word, hline, hword, hkey, ho⟩

/-- A write that waits goes to the cvar to which its key leads, with its site if no other one waits at
its place, and no cvar gets any other write. -/
theorem writes_go_by_keys (h : l.Tidy) :
    (∀ p ∈ l.pending, ∀ name, l.textKeys.find? p.key = some name → ∃ r',
      l.resolveWrites.get? name = some r' ∧ (r'.places .set).has p.place = true ∧
      ((∀ p' ∈ l.pending, p.place.same p'.place = true → p' = p) →
        r'.writeAt? p.place = some p.site)) ∧
    ∀ name r', l.resolveWrites.get? name = some r' → ∀ o ∈ r'.places .set,
      (∃ r, l.get? name = some r ∧ o ∈ r.places .set) ∨
        ∃ p ∈ l.pending, l.textKeys.find? p.key = some name ∧ p.place = o := by
  constructor
  · intro p hp name hkey
    obtain ⟨r, hget⟩ := get?_of_textKeys h.ordered hkey
    have hr := h.records _ (Data.mem_of_lookupBy hget)
    have hwaiting : ({ l with pending := [] } : Ledger).Ordered := ⟨h.names, h.ordered.records⟩
    have hmem : p ∈ writesOn l.textKeys name l.pending := List.mem_filter.2 ⟨hp, by simp [hkey]⟩
    refine ⟨_, get?_attachAll hwaiting hget l.pending, ?_, ?_⟩
    · exact Record.has_places_attachAll hr.ordered (.inr ⟨p, hmem, rfl⟩)
    · intro hapart
      refine Record.writeAt?_attachAll hr ?_ (.inr hmem)
      exact fun p' hp' => hapart p' (List.mem_of_mem_filter hp')
  · intro name r' hget' o ho
    obtain ⟨r, hget, rfl⟩ := get?_resolveWrites h.ordered hget'
    rcases Record.mem_places_attachAll (h.ordered.of_get? hget) ho with ho | ⟨p, hp, rfl⟩
    · exact .inl ⟨r, hget, ho⟩
    · obtain ⟨hp, hkey⟩ := List.mem_filter.1 hp
      exact .inr ⟨p, hp, eq_of_beq hkey, rfl⟩

end Ledger

/-! ### Names in texts -/

/-- **Keys lead to names first, and mentions go where keys lead.**  In every ledger that recording,
attaching, searching and clearing lead to, the key of a cvar's name leads to the last cvar, in the order
of names, whose name has this key; so it leads to the cvar itself, whatever display names there are,
unless another name differs from its own by case alone.  Every other key leads to the first cvar that is
displayed so.  A word that is found by a search, and a write that waits, goes to the cvar to which its key
leads and to no other. -/
theorem names_in_texts {l : Ledger} (hl : l.Reachable) :
    (∀ name r, l.get? name = some r → ∃ owner,
      l.textKeys.find? (Text.lower name) = some owner ∧ l.LastNamed (Text.lower name) owner ∧
      ((∀ name' r', l.get? name' = some r' → Text.lower name' = Text.lower name → name' = name) →
        owner = name)) ∧
    (∀ key name, l.textKeys.find? key = some name →
      l.LastNamed key name ∨ l.FirstDisplayed key name) ∧
    (∀ (dedup : Dedup) (files : List Path) (l' : Ledger) (n : Nat) (w w' : Workspace),
      (l.textScan dedup files).on w = (.ok (l', n), w') →
        (∀ name o, l.StandsAt w' files name o → ∃ r r', l.get? name = some r ∧
          l'.get? name = some r' ∧ (r.accountsFor dedup o = true ∨ (r'.places .text).has o = true)) ∧
        ∀ name r', l'.get? name = some r' → ∀ o ∈ r'.places .text,
          (∃ r, l.get? name = some r ∧ o ∈ r.places .text) ∨ l.StandsAt w' files name o) ∧
    (∀ p ∈ l.pending, ∀ name, l.textKeys.find? p.key = some name → ∃ r',
      l.resolveWrites.get? name = some r' ∧ (r'.places .set).has p.place = true ∧
      ((∀ p' ∈ l.pending, p.place.same p'.place = true → p' = p) →
        r'.writeAt? p.place = some p.site)) ∧
    ∀ name r', l.resolveWrites.get? name = some r' → ∀ o ∈ r'.places .set,
      (∃ r, l.get? name = some r ∧ o ∈ r.places .set) ∨
        ∃ p ∈ l.pending, l.textKeys.find? p.key = some name ∧ p.place = o := by
  have htidy := hl.tidy
  obtain ⟨hattached, hwritten⟩ := Ledger.writes_go_by_keys htidy
  refine ⟨?_, ?_, ?_, hattached, hwritten⟩
  · intro name r hget
    obtain ⟨owner, hkey, hlast⟩ := Ledger.exists_lastNamed htidy.ordered hget
    refine ⟨owner, hkey, hlast, ?_⟩
    intro hown
    obtain ⟨ro, hro⟩ := hlast.known
    exact hown owner ro hro hlast.spelled
  · intro key name hkey
    exact Ledger.lastNamed_or_firstDisplayed htidy.ordered hkey
  · intro dedup files l' n w w' hscan
    exact Ledger.search_goes_by_keys htidy.ordered hscan

/-- A cvar that is written, and another one that is displayed by its name and by one of its own. -/
def borrowedName : List Finding :=
  [⟨.declaration "a" true, ⟨⟨"a.cpp"⟩, 1, 10⟩⟩,
    ⟨.registration "b" ⟨some "A", none, []⟩, ⟨⟨"a.cpp"⟩, 2, 5⟩⟩,
    ⟨.registration "b" ⟨some "Shown", none, []⟩, ⟨⟨"a.cpp"⟩, 3, 5⟩⟩,
    ⟨.setCall "a" "\"1\"" "Cvar_Set(\"A\", \"1\")", ⟨⟨"a.cpp"⟩, 4, 3⟩⟩]

/-- A workspace that holds a menu with the name in it. -/
def menuHeld : Workspace := ⟨⟨[], []⟩, [(⟨"ui.menu"⟩, ["slider A 1 2"])], false⟩

theorem names_in_texts_borrowed :
    (Ledger.empty.recordAll borrowedName).Reachable ∧
      (Ledger.empty.recordAll borrowedName).textKeys.find? (Text.lower "a") = some "a" ∧
      (Ledger.empty.recordAll borrowedName).FirstDisplayed "shown" "b" ∧
      (∃ l', ((Ledger.empty.recordAll borrowedName).textScan .line [⟨"ui.menu"⟩]).on menuHeld =
          (.ok (l', 1), menuHeld) ∧
        ∃ r', l'.get? "a" = some r' ∧ (r'.places .text).has ⟨⟨"ui.menu"⟩, 1, 8⟩ = true) ∧
      ∃ r', (Ledger.empty.recordAll borrowedName).resolveWrites.get? "a" = some r' ∧
        r'.writeAt? ⟨⟨"a.cpp"⟩, 4, 3⟩ = some ⟨"\"1\"", "Cvar_Set(\"A\", \"1\")"⟩ := by
  have hreachable : (Ledger.empty.recordAll borrowedName).Reachable :=
    Ledger.Reachable.empty.recordAll borrowedName
  obtain ⟨hnames, hkeys, hsearch, hwrites, -⟩ := names_in_texts hreachable
  refine ⟨hreachable, ?_, ?_, ?_, ?_⟩
  · obtain ⟨r, hget⟩ : ∃ r, (Ledger.empty.recordAll borrowedName).get? "a" = some r :=
      Option.isSome_iff_exists.1 (by decide +kernel)
    obtain ⟨owner, hkey, -, hown⟩ := hnames "a" r hget
    rw [hkey, hown]
    -- The only other name is `b`.
    intro name r hget hlower
    have hall : (Ledger.empty.recordAll borrowedName).symbols.map Prod.fst = ["a", "b"] := by
      decide +kernel
    have hname := List.mem_map_of_mem (f := Prod.fst) (Data.mem_of_lookupBy hget)
    rw [hall] at hname
    rcases List.mem_pair.1 hname with rfl | rfl
    · rfl
    · exact absurd hlower (by decide +kernel)
  · refine (hkeys "shown" "b" (by decide +kernel)).resolve_left ?_
    intro hnamed
    exact absurd hnamed.spelled (by decide +kernel)
  · refine ⟨_, rfl, ?_⟩
    obtain ⟨hgiven, -⟩ := hsearch .line [⟨"ui.menu"⟩] _ _ menuHeld menuHeld rfl
    have hword : Text.WholeWord "slider A 1 2" ⟨7, ['A']⟩ := Text.mem_words.1 (by decide +kernel)
    obtain ⟨r, r', hget, hget', haccounted | hhas⟩ := hgiven "a" ⟨⟨"ui.menu"⟩, 1, 8⟩
      ⟨⟨"ui.menu"⟩, List.mem_singleton_self _, ["slider A 1 2"], rfl, 0, _, _, rfl, hword,
        by decide +kernel, rfl⟩
    · have hnone : ((Ledger.empty.recordAll borrowedName).get? "a").all
          (!·.accountsFor .line ⟨⟨"ui.menu"⟩, 1, 8⟩) = true := by decide +kernel
      rw [hget, Option.all_some, haccounted] at hnone
      cases hnone
    · exact ⟨r', hget', hhas⟩
  · obtain ⟨r', hget, -, hsite⟩ := hwrites
      ⟨"a", ⟨⟨"a.cpp"⟩, 4, 3⟩, "\"1\"", "Cvar_Set(\"A\", \"1\")"⟩ (by decide +kernel) "a" (by decide +kernel)
    refine ⟨r', hget, hsite ?_⟩
    intro p hp _
    exact List.mem_singleton.1 hp

/-- Two cvars whose names differ by case alone. -/
def twoCases : List Finding :=
  [⟨.declaration "A" true, ⟨⟨"a.cpp"⟩, 1, 10⟩⟩, ⟨.declaration "a" true, ⟨⟨"a.cpp"⟩, 2, 10⟩⟩]

/-- A name that differs from another one by case alone does not lead to its cvar, and a word spelled like
the one is a mention of the other. -/
theorem capital_name_lost : ∃ l : Ledger, l.Reachable ∧ (∃ r, l.get? "A" = some r) ∧
    l.textKeys.find? (Text.lower "A") = some "a" ∧
    ∃ r r', (l.scanTexts .line [(⟨"ui.menu"⟩, ["slider A 1 2"])]).get? "A" = some r ∧
      (l.scanTexts .line [(⟨"ui.menu"⟩, ["slider A 1 2"])]).get? "a" = some r' ∧
      r.places .text = [] ∧ r'.places .text = [⟨⟨"ui.menu"⟩, 1, 8⟩] := by
  refine ⟨ledgerOf twoCases, (Ledger.Reachable.empty.recordAll twoCases).resolveWrites,
    Option.isSome_iff_exists.1 (by decide +kernel), by decide +kernel, ?_⟩
  exact ⟨_, _, rfl, rfl, by decide +kernel, by decide +kernel⟩

end Cvar

end Upkeep
