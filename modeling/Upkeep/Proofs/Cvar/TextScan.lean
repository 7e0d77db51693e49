/-
**Every word that names a cvar leaves a mention.**

The search in texts drops a word when a parsed mention accounts for it, and the clearing of table
lines drops mentions that the search relied on.  What one of them drops is covered by what the other
leaves: after both, a word stands on a line with a table entry, or the mention that accounts for it,
or the word itself, is still there.

Main definitions:

* `Upkeep.Cvar.Dedup.covers` — whether a mention accounts for a word, by their places;
* `Upkeep.Cvar.Record.Shows` — whether a word is represented in a record.

Main results:

* `Upkeep.Cvar.Ledger.get?_scanTexts` — the records after the search;
* `Upkeep.Cvar.shows_finishedLedger` — **every word that names a cvar is represented**.
-/

import Upkeep.Cvar.TextScan
import Upkeep.Proofs.Cvar.Ledger
import Upkeep.Proofs.Text.Words

set_option relaxedAutoImplicit false
set_option autoImplicit false

namespace Upkeep

namespace Cvar

/-! ### Mentions that account for words -/

/-- Whether a mention at `p` accounts for a word at `o`. -/
def Dedup.covers : Dedup → (o p : Occurrence) → Bool
  | .line, o, p => o.sameLine p
  | .exact, o, p => o.same p

theorem Dedup.sameLine_of_covers {dedup : Dedup} {o p : Occurrence}
    (h : dedup.covers o p = true) : o.sameLine p = true := by
  cases dedup with
  | line => exact h
  | exact => exact Occurrence.sameLine_of_same h

namespace Record

variable {r : Record} {dedup : Dedup} {o : Occurrence}

theorem accountsFor_iff (h : r.Ordered) :
    r.accountsFor dedup o = true ↔
      ∃ role, role.isParsed = true ∧ ∃ p ∈ r.places role, dedup.covers o p = true := by
  have hany : r.accountsFor dedup o = r.parsedMentions.any (dedup.covers o ·.2) := by
    cases dedup <;> rfl
  rw [hany, List.any_eq_true]
  constructor
  · rintro ⟨⟨role, p⟩, hmem, hcovers⟩
    obtain ⟨hp, hparsed⟩ := (mem_parsedMentions h).1 hmem
    exact ⟨role, hparsed, p, hp, hcovers⟩
  · rintro ⟨role, hparsed, p, hp, hcovers⟩
    exact ⟨(role, p), (mem_parsedMentions h).2 ⟨hp, hparsed⟩, hcovers⟩

/-! ### Mentions in texts -/

/-- The record with mentions in texts. -/
def addTexts (r : Record) (os : List Occurrence) : Record := os.foldl (·.add .text ·) r

theorem Ordered.addTexts (h : r.Ordered) (os : List Occurrence) : (r.addTexts os).Ordered :=
  List.foldlRecOn _ _ h fun _ hr o _ => hr.add .text o

theorem places_addTexts_of_ne {role : Role} (hne : role ≠ .text) (r : Record)
    (os : List Occurrence) : (r.addTexts os).places role = r.places role := by
  induction os generalizing r with
  | nil => rfl
  | cons o os ih => exact (ih _).trans (places_add_of_ne hne r o)

/-- What was added is there, perhaps written otherwise. -/
theorem exists_same_mem_addTexts (h : r.Ordered) {os : List Occurrence} (ho : o ∈ os) :
    ∃ p ∈ (r.addTexts os).places .text, o.same p = true := by
  have hkeep : ∀ (os : List Occurrence) {r : Record}, r.Ordered → ∀ p ∈ r.places .text,
      p ∈ (r.addTexts os).places .text := by
    intro os
    induction os with
    | nil => exact fun _ p hp => hp
    | cons o os ih => exact fun hr p hp => ih (hr.add _ _) p (mem_places_add hr hp)
  induction os generalizing r with
  | nil => simp at ho
  | cons o' os ih =>
      rcases List.mem_cons.1 ho with rfl | ho
      · obtain ⟨p, hp, hsame⟩ := Places.exists_same_mem_insert (r.places .text) o
        rw [← places_add_self h] at hp
        exact ⟨p, hkeep os (h.add _ _) p hp, hsame⟩
      · exact ih (h.add _ _) ho

/-- How a word at a place is represented in a record: by a table entry on its line, by a mention in
a text, or by a parsed mention that accounts for it. -/
def Shows (r : Record) (dedup : Dedup) (o : Occurrence) : Prop :=
  r.onTableLine o = true ∨ (∃ p ∈ r.places .text, o.same p = true) ∨
    ∃ role, role.isParsed = true ∧ ∃ p ∈ r.places role, dedup.covers o p = true

/-- How a word is represented depends on its file by the components of the path alone. -/
theorem Shows.congr {o' : Occurrence} (h : r.Shows dedup o) (ho : o'.same o = true) :
    r.Shows dedup o' := by
  have hline := Occurrence.sameLine_of_same ho
  have hcovers : ∀ p, dedup.covers o p = true → dedup.covers o' p = true := by
    intro p hp
    cases dedup with
    | line => exact Occurrence.sameLine_trans hline hp
    | exact => exact Occurrence.same_trans ho hp
  rcases h with htable | ⟨p, hp, hsame⟩ | ⟨role, hparsed, p, hp, h⟩
  · obtain ⟨t, ht, hot⟩ := onTableLine_iff.1 htable
    exact .inl (onTableLine_iff.2 ⟨t, ht, Occurrence.sameLine_trans hline hot⟩)
  · exact .inr (.inl ⟨p, hp, Occurrence.same_trans ho hsame⟩)
  · exact .inr (.inr ⟨role, hparsed, p, hp, hcovers p h⟩)

/-- Clearing the lines of table entries leaves every word represented. -/
theorem Shows.scrub (h : r.Shows dedup o) : r.scrub.Shows dedup o := by
  -- What goes was on a table line, and so is the word.
  have hstay : ∀ {role : Role} {p : Occurrence}, p ∈ r.places role → o.sameLine p = true →
      r.scrub.onTableLine o = true ∨ p ∈ r.scrub.places role := by
    intro role p hp hline
    cases htable : r.onTableLine p with
    | false => exact .inr (mem_places_scrub hp htable)
    | true =>
        obtain ⟨t, ht, hpt⟩ := onTableLine_iff.1 htable
        refine .inl (onTableLine_iff.2 ⟨t, ?_, Occurrence.sameLine_trans hline hpt⟩)
        rwa [places_scrub_table]
  rcases h with htable | ⟨p, hp, hsame⟩ | ⟨role, hparsed, p, hp, hcovers⟩
  · obtain ⟨t, ht, hline⟩ := onTableLine_iff.1 htable
    exact .inl (onTableLine_iff.2 ⟨t, by rwa [places_scrub_table], hline⟩)
  · rcases hstay hp (Occurrence.sameLine_of_same hsame) with h | h
    · exact .inl h
    · exact .inr (.inl ⟨p, h, hsame⟩)
  · rcases hstay hp (Dedup.sameLine_of_covers hcovers) with h | h
    · exact .inl h
    · exact .inr (.inr ⟨role, hparsed, p, h, hcovers⟩)

end Record

/-! ### The search -/

namespace Ledger

variable {l : Ledger} {name : String} {r : Record} {hs : List Hit}

/-- The hits that name a cvar. -/
def hitsOn (name : String) (hs : List Hit) : List Occurrence :=
  (hs.filter (·.1 == name)).map Prod.snd

theorem Ordered.addHit (h : l.Ordered) (hit : Hit) : (l.addHit hit).Ordered :=
  h.modify hit.1 fun _ hr => hr.add .text hit.2

/-- Hits go into the record that they name. -/
theorem get?_addHits (h : l.Ordered) (hget : l.get? name = some r) :
    (hs.foldl addHit l).get? name = some (r.addTexts (hitsOn name hs)) := by
  induction hs generalizing l r with
  | nil => exact hget
  | cons hit hs ih =>
      obtain ⟨name', o⟩ := hit
      by_cases hname : name' = name
      · subst hname
        have hadd : (l.addHit (name', o)).get? name' = some (r.add .text o) := by
          rw [addHit, get?_modify_self h, hget, Option.getD_some]
        rw [List.foldl_cons, ih (h.addHit _) hadd]
        simp [hitsOn, Record.addTexts]
      · have hadd : (l.addHit (name', o)).get? name = some r := by
          rw [addHit, get?_modify_of_ne (Ne.symm hname), hget]
        rw [List.foldl_cons, ih (h.addHit _) hadd]
        simp [hitsOn, hname]

/-- Hits on known cvars leave the names alone. -/
theorem nameTable_addHits (h : l.Ordered) (hs : List Hit)
    (hknown : ∀ hit ∈ hs, ∃ r, l.get? hit.1 = some r) :
    (hs.foldl addHit l).nameTable = l.nameTable := by
  induction hs generalizing l with
  | nil => rfl
  | cons hit hs ih =>
      obtain ⟨r, hget⟩ := hknown hit List.mem_cons_self
      have hnames : (l.addHit hit).nameTable = l.nameTable := nameTable_modify h hget rfl
      rw [List.foldl_cons, ih (h.addHit hit) ?_, hnames]
      intro hit' hmem
      obtain ⟨r', hget'⟩ := hknown hit' (List.mem_cons_of_mem _ hmem)
      exact get?_of_nameTable (h.addHit hit) hnames.symm hget'

end Ledger

variable {l : Ledger} {dedup : Dedup} {texts : List (Path × List String)} {name : String}
  {r : Record} {o : Occurrence}

/-- Words that name a cvar name one of the ledger. -/
theorem known_of_mem_hits (h : l.Ordered) {hit : Hit} (hmem : hit ∈ hits l dedup texts) :
    ∃ r, l.get? hit.1 = some r := by
  simp only [hits, hitsIn, namedInLines, namedIn, List.mem_flatMap, List.mem_filter,
    List.mem_filterMap, Option.map_eq_some_iff] at hmem
  obtain ⟨_, _, ⟨_, _, _, _, name, hkey, rfl⟩, _⟩ := hmem
  exact Ledger.get?_of_textKeys h hkey

namespace Ledger

theorem get?_scanTexts (h : l.Ordered) (hget : l.get? name = some r) :
    (l.scanTexts dedup texts).get? name =
      some (r.addTexts (hitsOn name (hits l dedup texts))) := get?_addHits h hget

/-- The search leaves the names alone. -/
theorem nameTable_scanTexts (h : l.Ordered) : (l.scanTexts dedup texts).nameTable = l.nameTable :=
  nameTable_addHits h _ fun _ => known_of_mem_hits h

theorem textKeys_scanTexts (h : l.Ordered) :
    (l.scanTexts dedup texts).textKeys = l.textKeys := textKeys_congr (nameTable_scanTexts h)

theorem Ordered.scanTexts (h : l.Ordered) : (l.scanTexts dedup texts).Ordered :=
  List.foldlRecOn _ _ h fun _ hl hit _ => hl.addHit hit

/-- What the hits keep of their records, if it begins with it, holds of all records. -/
theorem forall_scanTexts {P : Record → Prop} (hempty : P .empty) (h : ∀ s ∈ l.symbols, P s.2)
    (hadd : ∀ hit ∈ hits l dedup texts, ∀ r : Record, P r → P (r.add .text hit.2)) :
    ∀ s ∈ (l.scanTexts dedup texts).symbols, P s.2 := by
  refine List.foldlRecOn (motive := fun l' : Ledger => ∀ s ∈ l'.symbols, P s.2) _ _ h ?_
  intro l' hl' hit hhit
  exact forall_modify hempty hl' hit.1 (hadd hit hhit)

/-- The hits lie in the files that are searched. -/
theorem exists_of_mem_hits {hit : Hit} (h : hit ∈ hits l dedup texts) :
    ∃ t ∈ texts, hit.2.file = t.1 := by
  simp only [hits, hitsIn, namedInLines, namedIn, List.mem_flatMap, List.mem_filter,
    List.mem_filterMap, Option.map_eq_some_iff] at h
  obtain ⟨t, ht, ⟨line, -, w, -, name, -, rfl⟩, -⟩ := h
  exact ⟨t, ht, rfl⟩

theorem textKeys_scrub (l : Ledger) : l.scrub.textKeys = l.textKeys :=
  textKeys_congr (nameTable_scrub l)

/-- After the search every hit is represented in the record that it names. -/
theorem shows_scanTexts (h : l.Ordered) {file : Path} {lines : List String}
    (htexts : (file, lines) ∈ texts) (hnamed : (name, o) ∈ namedInLines l.textKeys file lines)
    (hget : (l.scanTexts dedup texts).get? name = some r) : r.Shows dedup o := by
  obtain ⟨r₀, hget₀⟩ : ∃ r, l.get? name = some r := by
    simp only [namedInLines, namedIn, List.mem_flatMap, List.mem_filterMap,
      Option.map_eq_some_iff, Prod.mk.injEq] at hnamed
    obtain ⟨_, _, _, _, name, hkey, rfl, _⟩ := hnamed
    exact get?_of_textKeys h hkey
  have hr₀ := h.of_get? hget₀
  rw [get?_scanTexts h hget₀, Option.some.injEq] at hget
  subst hget
  cases hacc : r₀.accountsFor dedup o with
  | true =>
      obtain ⟨role, hparsed, p, hp, hcovers⟩ := (Record.accountsFor_iff hr₀).1 hacc
      refine .inr (.inr ⟨role, hparsed, p, ?_, hcovers⟩)
      rwa [Record.places_addTexts_of_ne]
      rintro rfl
      simp [Role.isParsed] at hparsed
  | false =>
      refine .inr (.inl (Record.exists_same_mem_addTexts hr₀ ?_))
      refine List.mem_map.2 ⟨(name, o), List.mem_filter.2 ⟨?_, by simp⟩, rfl⟩
      refine List.mem_flatMap.2 ⟨(file, lines), htexts, List.mem_filter.2 ⟨hnamed, ?_⟩⟩
      simp [isNews, hget₀, hacc]

end Ledger

/-! ### The finished ledger -/

/-- The hits in a file are its whole words whose lower-case form stands for a cvar. -/
theorem mem_namedInLines {keys : Ledger.Keys} {file : Path} {lines : List String} :
    (name, o) ∈ namedInLines keys file lines ↔
      ∃ i line w, lines[i]? = some line ∧ Text.WholeWord line w ∧
        keys.find? (Text.lower w.text) = some name ∧ ⟨file, i + 1, w.offset + 1⟩ = o := by
  simp only [namedInLines, namedIn, List.mem_flatMap, List.mem_filterMap, Option.map_eq_some_iff,
    Prod.mk.injEq, Text.mem_words, Prod.exists, List.mem_zipIdx_iff_getElem?]
  constructor
  · rintro ⟨line, i, hline, w, hw, _, hkey, rfl, ho⟩
    exact ⟨i, line, w, hline, hw, hkey, ho⟩
  · rintro ⟨i, line, w, hline, hw, hkey, ho⟩
    exact ⟨line, i, hline, w, hw, name, hkey, rfl, ho⟩

/-- The ledger of findings and texts when all is done: writes attached, texts searched, and the lines
of table entries cleared. -/
def finishedLedger (findings : List Finding) (dedup : Dedup) (texts : List (Path × List String)) :
    Ledger := ((ledgerOf findings).scanTexts dedup texts).scrub

theorem ordered_finishedLedger (findings : List Finding) :
    (finishedLedger findings dedup texts).Ordered :=
  (ordered_ledgerOf findings).scanTexts.scrub

/-- The names in texts are the same before and after. -/
theorem textKeys_finishedLedger (findings : List Finding) :
    (finishedLedger findings dedup texts).textKeys = (ledgerOf findings).textKeys := by
  rw [finishedLedger, Ledger.textKeys_scrub, Ledger.textKeys_scanTexts (ordered_ledgerOf findings)]

/-- **Every word that names a cvar is represented** in its record when all is done. -/
theorem shows_finishedLedger {findings : List Finding}
    (hget : (finishedLedger findings dedup texts).get? name = some r) {file : Path}
    {lines : List String} (htexts : (file, lines) ∈ texts) {i : Nat} {line : String}
    (hline : lines[i]? = some line) {w : Text.Word} (hw : Text.WholeWord line w)
    (hkey : (finishedLedger findings dedup texts).textKeys.find? (Text.lower w.text) = some name) :
    r.Shows dedup ⟨file, i + 1, w.offset + 1⟩ := by
  rw [textKeys_finishedLedger] at hkey
  rw [finishedLedger, Ledger.get?_scrub, Option.map_eq_some_iff] at hget
  obtain ⟨r₁, hget, rfl⟩ := hget
  have hnamed : (name, ⟨file, i + 1, w.offset + 1⟩) ∈
      namedInLines (ledgerOf findings).textKeys file lines :=
    mem_namedInLines.2 ⟨i, line, w, hline, hw, hkey, rfl⟩
  exact (Ledger.shows_scanTexts (ordered_ledgerOf findings) htexts hnamed hget).scrub

end Cvar

end Upkeep
