/-
**The words of table entries.**

The words of a table entry name its cvar, and that must not keep the cvar alive.  So all mentions of the
cvar go that share a line with one of its entries, which is known by the place where it begins.  An
entry on one line leaves nothing behind.  A word on a later line of an entry is treated like any other
word of the text: it stays unless an entry of the cvar begins on its line, or a parsed mention accounts
for it.

Main definitions:

* `Upkeep.Cpp.Node.stop`, `Upkeep.Cpp.Node.Spans` — the places inside a node;
* `Upkeep.Cpp.Source.NamesAt` — the places where a word of a source names a cvar;
* `Upkeep.Cvar.Shape.role?`, `Upkeep.Cvar.Shape.owner?` — how and for which cvar a finding is recorded.

Main results:

* `Upkeep.Cvar.Ledger.tells_mention_ledgerOf` — mentions that are recorded come from findings;
* `Upkeep.Cvar.onTableLine_finishedLedger_iff` — table lines are those where an entry begins;
* `Upkeep.Cvar.text_finishedLedger_iff` — which words of texts stay as mentions;
* `Upkeep.Cvar.words_of_entry` — **which words of a table entry stay**.
-/

import Upkeep.Proofs.Cvar.Declarations
import Upkeep.Proofs.Cvar.Facts

set_option relaxedAutoImplicit false
set_option autoImplicit false

namespace Upkeep

/-! ### Places inside nodes -/

namespace Cpp

/-- The line and the column right behind a node, counted from one. -/
def Node.stop (n : Node) : Nat × Nat :=
  let (rows, bytes) := position n.text.toUTF8.data.toList
  (n.line + rows, if rows = 0 then n.column + bytes else bytes + 1)

/-- Whether a place lies inside a node, from its first byte to its last. -/
def Node.Spans (n : Node) (line column : Nat) : Prop :=
  (n.line < line ∨ n.line = line ∧ n.column ≤ column) ∧
    (line < n.stop.1 ∨ line = n.stop.1 ∧ column < n.stop.2)

instance (n : Node) (line column : Nat) : Decidable (n.Spans line column) :=
  inferInstanceAs (Decidable (_ ∧ _))

/-- Whether a whole word of a source begins at a place and stands for a cvar. -/
def Source.NamesAt (source : Source) (keys : Cvar.Ledger.Keys) (name : String) (line column : Nat) :
    Prop :=
  ∃ i text w, (Text.lines source.text)[i]? = some text ∧ Text.WholeWord text w ∧
    keys.find? (Text.lower w.text) = some name ∧ line = i + 1 ∧ column = w.offset + 1

end Cpp

namespace Cvar

open Cpp Files Occurrence

/-! ### Mentions that are recorded -/

section Places

variable {o p : Occurrence}

theorem sameLine_congr (h : o.sameLine p = true) (q : Occurrence) : o.sameLine q = p.sameLine q := by
  rw [sameLine_iff] at h
  rw [Bool.eq_iff_iff, sameLine_iff, sameLine_iff, h.1, h.2]

theorem same_congr (h : o.same p = true) (q : Occurrence) : o.same q = p.same q := by
  rw [same_iff] at h
  rw [Bool.eq_iff_iff, same_iff, same_iff, sameLine_congr h.1, h.2]

end Places

theorem Places.has_iff {ps : Places} {o : Occurrence} :
    ps.has o = true ↔ o.key ∈ ps.map Occurrence.key := by
  simp only [has, List.any_eq_true, List.mem_map, ← key_eq_iff]
  exact exists_congr fun p => and_congr_right fun _ => eq_comm

/-- The role in which a finding is recorded; a use of no known shape is in none. -/
def Shape.role? : Shape → Option Role
  | .declaration _ isDefinition => some (if isDefinition then .define else .decl)
  | .fieldRead _ kind => some (.ofRead kind)
  | .setCall .. => some .set
  | .rangeCheck .. => some .range
  | .registration .. => some .get
  | .tableEntry .. => some .table
  | .addressOf _ => some .other
  | .unrecognized .. => none

/-- The cvar for which a finding is recorded; a write is recorded for the one to which its key leads. -/
def Shape.owner? (keys : Ledger.Keys) : Shape → Option String
  | .declaration name _ | .fieldRead name _ | .rangeCheck name .. | .registration name _
  | .tableEntry name _ | .addressOf name => some name
  | .setCall key .. => keys.find? key
  | .unrecognized .. => none

namespace Shape

variable {shape : Shape} {keys : Ledger.Keys} {name : String}

/-- Only table entries are recorded as such. -/
theorem role?_eq_table_iff : shape.role? = some .table ∧ shape.owner? keys = some name ↔
    ∃ data, shape = .tableEntry name data := by
  cases shape with
  | declaration name' isDefinition => cases isDefinition <;> simp [role?]
  | fieldRead name' kind => cases kind <;> simp [role?, Role.ofRead]
  | _ => simp [role?, owner?]

/-- No finding is recorded as a mention in a text. -/
theorem role?_ne_text : shape.role? ≠ some .text := by
  cases shape with
  | declaration name' isDefinition => cases isDefinition <;> simp [role?]
  | fieldRead name' kind => cases kind <;> simp [role?, Role.ofRead]
  | _ => simp [role?]

/-- What is recorded for a cvar is recorded in a role. -/
theorem exists_role? (h : shape.owner? keys = some name) : ∃ role, shape.role? = some role := by
  cases shape with
  | unrecognized name' context => cases h
  | _ => exact ⟨_, rfl⟩

end Shape

namespace Finding

variable {f : Finding} {keys : Ledger.Keys} {name : String} {role : Role} {k : Key}

/-- A finding tells of the mention as which it is recorded, unless it is a write. -/
theorem mention_mem_facts_iff (keys : Ledger.Keys) : (name, .mention role k) ∈ f.facts ↔
    role ≠ .set ∧ f.shape.role? = some role ∧ f.shape.owner? keys = some name ∧ f.place.key = k := by
  obtain ⟨shape, o⟩ := f
  have hdata : ∀ data : Registration, Fact.mention role k ∉ data.facts := by
    simp [Registration.facts]
  cases shape with
  | declaration name' isDefinition =>
      simp only [facts, mem_about, Shape.role?, Shape.owner?, List.mem_singleton]
      grind
  | fieldRead name' kind =>
      have hrole : Role.ofRead kind ≠ .set := by cases kind <;> decide
      simp only [facts, mem_about, Shape.role?, Shape.owner?, List.mem_singleton]
      grind
  | setCall key value call =>
      simp only [facts, Shape.role?, List.not_mem_nil, Option.some.injEq, false_iff]
      rintro ⟨hrole, rfl, -⟩
      exact hrole rfl
  | unrecognized name' context => simp [facts, Shape.role?]
  | _ =>
      simp only [facts, mem_about, Shape.role?, Shape.owner?, List.mem_cons, List.not_mem_nil, hdata]
      grind

/-- A write waits for the cvar to which its key leads. -/
theorem exists_write?_iff :
    (∃ w, f.write? = some w ∧ keys.find? w.key = some name ∧ w.place.key = k) ↔
      f.shape.role? = some .set ∧ f.shape.owner? keys = some name ∧ f.place.key = k := by
  obtain ⟨shape, o⟩ := f
  cases shape with
  | declaration name' isDefinition => cases isDefinition <;> simp [write?, Shape.role?]
  | fieldRead name' kind => cases kind <;> simp [write?, Shape.role?, Role.ofRead]
  | _ => simp [write?, Shape.role?, Shape.owner?]

end Finding

namespace Ledger

variable {l : Ledger} {keys : Keys} {name : String} {role : Role} {k : Key}

/-- A write that is attached adds its mention to the cvar to which its key leads. -/
theorem tells_mention_attach (h : l.Ordered) (w : PendingWrite) :
    (attach keys l w).Tells name (.mention role k) ↔ l.Tells name (.mention role k) ∨
      role = .set ∧ keys.find? w.key = some name ∧ w.place.key = k := by
  rw [attach]
  split
  · rename_i name' hkey
    by_cases hname : name = name'
    · subst hname
      have hadd : ∀ r : Record, r.Ordered →
          (((r.add .set w.place).noteWrite w.place w.site).Tells (.mention role k) ↔
            r.Tells (.mention role k) ∨ role = .set ∧ w.place.key = k) := by
        intro r hr
        change (r.add .set w.place).Tells (.mention role k) ↔ _
        rw [Record.tells_add hr, Fact.mention.injEq, eq_comm (a := k)]
      simp only [Tells, get?_modify_self h, Option.some.injEq, exists_eq_left', hkey, true_and]
      cases hget : l.get? name with
      | none => simp [hadd _ Record.ordered_empty, Record.tells_empty]
      | some r => simp [hadd r (h.of_get? hget)]
    · simp [Tells, get?_modify_of_ne hname, hkey, Ne.symm hname]
  · rename_i hkey
    simp [hkey]

theorem tells_mention_resolveWrites (h : l.Ordered) :
    l.resolveWrites.Tells name (.mention role k) ↔ l.Tells name (.mention role k) ∨
      ∃ w ∈ l.pending, role = .set ∧ l.textKeys.find? w.key = some name ∧ w.place.key = k := by
  have hall : ∀ (ws : List PendingWrite) {l' : Ledger}, l'.Ordered →
      ((ws.foldl (attach l.textKeys) l').Tells name (.mention role k) ↔
        l'.Tells name (.mention role k) ∨
          ∃ w ∈ ws, role = .set ∧ l.textKeys.find? w.key = some name ∧ w.place.key = k) := by
    intro ws
    induction ws with
    | nil => simp
    | cons w ws ih =>
        intro l' hl'
        rw [List.foldl_cons, ih (hl'.attach _ w), tells_mention_attach hl', or_assoc,
          List.exists_mem_cons_iff]
  have hcleared : Ordered { l with pending := [] } := ⟨h.names, h.records⟩
  exact hall l.pending hcleared

/-- **Mentions that are recorded come from findings.** -/
theorem tells_mention_ledgerOf {findings : List Finding} :
    (ledgerOf findings).Tells name (.mention role k) ↔ ∃ f ∈ findings, f.shape.role? = some role ∧
      f.shape.owner? (ledgerOf findings).textKeys = some name ∧ f.place.key = k := by
  have hrecorded := ordered_empty.recordAll findings
  rw [ledgerOf, textKeys_resolveWrites hrecorded, tells_mention_resolveWrites hrecorded,
    tells_recordAll ordered_empty, or_iff_right not_tells_empty, pending_recordAll]
  generalize (empty.recordAll findings).textKeys = keys
  simp only [Finding.mention_mem_facts_iff keys, empty, List.nil_append, List.mem_filterMap]
  constructor
  · rintro (⟨f, hf, -, hfacts⟩ | ⟨w, ⟨f, hf, hw⟩, rfl, hkey, hplace⟩)
    · exact ⟨f, hf, hfacts⟩
    · exact ⟨f, hf, Finding.exists_write?_iff.1 ⟨w, hw, hkey, hplace⟩⟩
  · rintro ⟨f, hf, hfacts⟩
    by_cases hrole : role = .set
    · subst hrole
      obtain ⟨w, hw, hkey, hplace⟩ := Finding.exists_write?_iff.2 hfacts
      exact .inr ⟨w, ⟨f, hf, hw⟩, rfl, hkey, hplace⟩
    · exact .inl ⟨f, hf, hrole, hfacts⟩

end Ledger

/-! ### What is left when all is done -/

namespace Record

variable {r : Record} {dedup : Dedup} {o p : Occurrence} {os : List Occurrence}

theorem tells_addTexts (h : r.Ordered) (os : List Occurrence) {fact : Fact} :
    (r.addTexts os).Tells fact ↔ r.Tells fact ∨ ∃ p ∈ os, fact = .mention .text p.key := by
  induction os generalizing r with
  | nil => simp [addTexts]
  | cons p os ih =>
      have hstep : r.addTexts (p :: os) = (r.add .text p).addTexts os := rfl
      rw [hstep, ih (h.add _ _), tells_add h, or_assoc, List.exists_mem_cons_iff]

/-- The lines of table entries are the same before and after. -/
theorem onTableLine_scrub_addTexts (r : Record) (os : List Occurrence) (o : Occurrence) :
    (r.addTexts os).scrub.onTableLine o = r.onTableLine o := by
  rw [onTableLine, places_scrub_table, places_addTexts_of_ne (by decide), onTableLine]

theorem onTableLine_congr (h : o.sameLine p = true) : r.onTableLine o = r.onTableLine p := by
  simp only [onTableLine, sameLine_congr h]

/-- What accounts for a word depends on its place alone, however its file is written. -/
theorem accountsFor_congr_place (h : o.same p = true) :
    r.accountsFor dedup o = r.accountsFor dedup p := by
  cases dedup with
  | line => simp only [accountsFor, sameLine_congr (sameLine_of_same h)]
  | exact => simp only [accountsFor, same_congr h]

/-- Off the lines of table entries the same words are accounted for before and after. -/
theorem accountsFor_scrub_addTexts (h : r.Ordered) (hline : r.onTableLine o = false) :
    (r.addTexts os).scrub.accountsFor dedup o = r.accountsFor dedup o := by
  rw [Bool.eq_iff_iff, accountsFor_iff (h.addTexts os).scrub, accountsFor_iff h]
  refine exists_congr fun role => and_congr_right fun hparsed => exists_congr fun q => ?_
  have hrole : role ≠ .text := by
    rintro rfl
    cases hparsed
  refine and_congr_left fun hcovers => ?_
  have hq : (r.addTexts os).onTableLine q = false := by
    rw [onTableLine, places_addTexts_of_ne (by decide), ← onTableLine,
      ← onTableLine_congr (Dedup.sameLine_of_covers hcovers), hline]
  rw [← places_addTexts_of_ne hrole r os]
  refine ⟨fun hmem => ?_, fun hmem => mem_places_scrub hmem hq⟩
  rw [places_scrub] at hmem
  split at hmem
  · exact hmem
  · exact (List.mem_filter.1 hmem).1

end Record

section Finished

variable {findings : List Finding} {dedup : Dedup} {texts : List (Path × List String)} {name : String}
  {r : Record} {o p : Occurrence}

theorem Ledger.tells_of_get? {l : Ledger} (hget : l.get? name = some r) {fact : Fact} :
    l.Tells name fact ↔ r.Tells fact := by
  simp [Ledger.Tells, hget]

/-- A record of the finished ledger is that of the findings, with the hits of the texts and without
what table entries account for. -/
theorem get?_finishedLedger (hget : (finishedLedger findings dedup texts).get? name = some r) :
    ∃ r₀, (ledgerOf findings).get? name = some r₀ ∧
      r = (r₀.addTexts (Ledger.hitsOn name (hits (ledgerOf findings) dedup texts))).scrub := by
  rw [finishedLedger, Ledger.get?_scrub, Option.map_eq_some_iff] at hget
  obtain ⟨r₁, hget, rfl⟩ := hget
  have hl := ordered_ledgerOf findings
  -- The search begins no record.
  obtain ⟨r₀, hget₀⟩ := Ledger.get?_of_nameTable hl (Ledger.nameTable_scanTexts hl) hget
  rw [Ledger.get?_scanTexts hl hget₀, Option.some.injEq] at hget
  exact ⟨r₀, hget₀, by rw [hget]⟩

/-- Table lines are those where an entry of the cvar begins. -/
theorem onTableLine_finishedLedger_iff
    (hget : (finishedLedger findings dedup texts).get? name = some r) :
    r.onTableLine o = true ↔ ∃ data p, ⟨.tableEntry name data, p⟩ ∈ findings ∧ o.sameLine p = true := by
  obtain ⟨r₀, hget₀, rfl⟩ := get?_finishedLedger hget
  have hentry : ∀ k, r₀.Tells (.mention .table k) ↔
      ∃ data p, ⟨.tableEntry name data, p⟩ ∈ findings ∧ p.key = k := by
    intro k
    rw [← Ledger.tells_of_get? hget₀, Ledger.tells_mention_ledgerOf]
    simp only [← and_assoc (a := _ = some Role.table), Shape.role?_eq_table_iff]
    constructor
    · rintro ⟨⟨_, p⟩, hf, ⟨data, rfl⟩, hk⟩
      exact ⟨data, p, hf, hk⟩
    · rintro ⟨data, p, hf, hk⟩
      exact ⟨_, hf, ⟨data, rfl⟩, hk⟩
  rw [Record.onTableLine_scrub_addTexts, Record.onTableLine_iff_tableLine, Record.TableLine]
  simp only [hentry]
  constructor
  · rintro ⟨_, ⟨data, p, hf, rfl⟩, hline⟩
    exact ⟨data, p, hf, sameLine_iff_key.2 hline⟩
  · rintro ⟨data, p, hf, hline⟩
    exact ⟨_, ⟨data, p, hf, rfl⟩, sameLine_iff_key.1 hline⟩

theorem mem_hitsOn_iff {l : Ledger} (hget : l.get? name = some r) :
    o ∈ Ledger.hitsOn name (hits l dedup texts) ↔
      ∃ t ∈ texts, (name, o) ∈ namedInLines l.textKeys t.1 t.2 ∧ r.accountsFor dedup o = false := by
  simp only [Ledger.hitsOn, hits, hitsIn, List.mem_map, List.mem_filter, List.mem_flatMap, beq_iff_eq,
    Prod.exists, exists_eq_right, Ledger.isNews, hget, Option.any_some, Bool.not_eq_true']

/-- **Which words of texts stay as mentions**: those that name the cvar, stand on no line where an entry
of it begins, and have no parsed mention that accounts for them. -/
theorem text_finishedLedger_iff (hget : (finishedLedger findings dedup texts).get? name = some r) :
    (r.places .text).has o = true ↔
      (∃ t ∈ texts, ∃ p, (name, p) ∈ namedInLines (finishedLedger findings dedup texts).textKeys t.1 t.2 ∧
        o.same p = true) ∧ r.onTableLine o = false ∧ r.accountsFor dedup o = false := by
  obtain ⟨r₀, hget₀, rfl⟩ := get?_finishedLedger hget
  have hr₀ := (ordered_ledgerOf findings).of_get? hget₀
  have hnone : ¬ r₀.Tells (.mention .text o.key) := by
    rw [← Ledger.tells_of_get? hget₀, Ledger.tells_mention_ledgerOf]
    rintro ⟨f, -, hrole, -⟩
    exact Shape.role?_ne_text hrole
  rw [Places.has_iff, textKeys_finishedLedger]
  change Record.Tells _ (.mention .text o.key) ↔ _
  rw [Record.tells_scrub (hr₀.addTexts _), Record.tells_addTexts hr₀, or_iff_right hnone,
    Record.onTableLine_scrub_addTexts]
  simp only [Record.Accounted, ne_eq, reduceCtorEq, not_false_eq_true, true_and,
    ← Record.onTableLine_iff_tableLine, mem_hitsOn_iff hget₀, Fact.mention.injEq, key_eq_iff]
  have htable : (r₀.addTexts (Ledger.hitsOn name (hits (ledgerOf findings) dedup texts))).onTableLine o =
      r₀.onTableLine o := by
    rw [Record.onTableLine, Record.places_addTexts_of_ne (by decide), Record.onTableLine]
  rw [htable, Bool.not_eq_true]
  constructor
  · rintro ⟨⟨p, ⟨t, ht, hnamed, hacc⟩, hsame⟩, hline⟩
    refine ⟨⟨t, ht, p, hnamed, hsame⟩, hline, ?_⟩
    rw [Record.accountsFor_scrub_addTexts hr₀ hline, Record.accountsFor_congr_place hsame, hacc]
  · rintro ⟨⟨t, ht, p, hnamed, hsame⟩, hline, hacc⟩
    rw [Record.accountsFor_scrub_addTexts hr₀ hline, Record.accountsFor_congr_place hsame] at hacc
    exact ⟨⟨p, ⟨t, ht, hnamed, hacc⟩, hsame⟩, hline⟩

end Finished

/-! ### Words inside entries -/

section Entries

variable {d : Disk} {cfg : Settings} {request : Request} {sources : List Path} {files : List Source}
  {a : Analysis} {findings : List Finding} {source : Source} {name : String} {o : Occurrence}

/-- The words of a parsed file are searched if the file is, perhaps under a path that is written
otherwise. -/
theorem exists_text_iff {texts : List (Path × List String)} {keys : Ledger.Keys} {w : Workspace}
    (hsources : texts.map Prod.fst = if request.textScan then sources else [])
    (htexts : ∀ t ∈ texts, w.held? t.1 = some t.2)
    (hheld : w.held? source.path = some (Text.lines source.text))
    (ho : o.file.same source.path = true) :
    (∃ t ∈ texts, ∃ p, (name, p) ∈ namedInLines keys t.1 t.2 ∧ o.same p = true) ↔
      request.textScan = true ∧ source.path.isIn sources = true ∧
        source.NamesAt keys name o.line o.column := by
  have hfile := Path.same_iff.1 ho
  constructor
  · rintro ⟨t, ht, p, hnamed, hsame⟩
    obtain ⟨i, text, w', hline, hword, hkey, rfl⟩ := mem_namedInLines.1 hnamed
    obtain ⟨hplace, hcolumn⟩ := same_iff.1 hsame
    obtain ⟨hpath, hrow⟩ := sameLine_iff.1 hplace
    have hsame : source.path.same t.1 = true := Path.same_iff.2 (hfile.symm.trans hpath)
    have hmem : t.1 ∈ texts.map Prod.fst := List.mem_map_of_mem ht
    have hlines := htexts t ht
    rw [← Workspace.held?_congr w hsame, hheld, Option.some.injEq] at hlines
    rw [← hlines] at hline
    rw [hsources] at hmem
    split at hmem
    · rename_i hscan
      exact ⟨hscan, List.any_eq_true.2 ⟨t.1, hmem, hsame⟩, i, text, w', hline, hword, hkey, hrow,
        hcolumn⟩
    · cases hmem
  · rintro ⟨hscan, hin, i, text, w', hline, hword, hkey, hrow, hcolumn⟩
    obtain ⟨f, hf, hsame⟩ := List.any_eq_true.1 hin
    rw [if_pos hscan] at hsources
    rw [← hsources] at hf
    obtain ⟨t, ht, rfl⟩ := List.mem_map.1 hf
    have hlines := htexts t ht
    rw [← Workspace.held?_congr w hsame, hheld, Option.some.injEq] at hlines
    refine ⟨t, ht, ⟨t.1, i + 1, w'.offset + 1⟩, mem_namedInLines.2 ⟨i, text, w', ?_, hword, hkey, rfl⟩, ?_⟩
    · rwa [← hlines]
    · exact same_iff.2 ⟨sameLine_iff.2 ⟨hfile.trans (Path.same_iff.1 hsame), hrow⟩, hcolumn⟩

/-- A cvar for which a finding is recorded has a record when all is done. -/
theorem exists_record_of_owner (dedup : Dedup) (texts : List (Path × List String)) {f : Finding}
    (hf : f ∈ findings) (howner : f.shape.owner? (ledgerOf findings).textKeys = some name) :
    ∃ r, (finishedLedger findings dedup texts).get? name = some r := by
  obtain ⟨role, hrole⟩ := Shape.exists_role? howner
  obtain ⟨r₀, hget₀, -⟩ : (ledgerOf findings).Tells name (.mention role f.place.key) :=
    Ledger.tells_mention_ledgerOf.2 ⟨f, hf, hrole, howner, rfl⟩
  rw [finishedLedger, Ledger.get?_scrub, Ledger.get?_scanTexts (ordered_ledgerOf findings) hget₀]
  exact ⟨_, rfl⟩

/-- **Which words of a table entry stay**: no mention in a text of the cvar of the entry is left on the
line where the entry begins, and so none inside an entry on one line.  Inside an entry on several lines
those words are left that name the cvar in a searched text, on whose line no entry of the cvar begins,
and which no parsed mention accounts for. -/
theorem words_of_entry (hd : Distinct files) (hwalk : walkAll cfg files = .ok findings)
    (ha : analyzeFiles d cfg request sources files = .ok a) (hsource : source ∈ files) {s : Spot}
    (hs : s ∈ spots [] source.tree) (htable : s.IsTable cfg) {entry : Node} {data : Registration}
    (henters : s.Enters ⟨cfg, collectGlobals cfg files, source⟩ entry name data) :
    ∃ r, a.ledger.get? name = some r ∧
      ∀ o : Occurrence, o.file.same source.path = true →
        (o.line = entry.line → (r.places .text).has o = false) ∧
        (entry.Spans o.line o.column → entry.stop.1 = entry.line → (r.places .text).has o = false) ∧
        (entry.Spans o.line o.column →
          ((r.places .text).has o = true ↔
            request.textScan = true ∧ source.path.isIn sources = true ∧
              source.NamesAt a.ledger.textKeys name o.line o.column ∧
              (∀ data' p, ⟨.tableEntry name data', p⟩ ∈ findings → o.sameLine p = false) ∧
              r.accountsFor cfg.textDedup o = false)) := by
  have hentry : foundAt ⟨cfg, collectGlobals cfg files, source⟩ entry (.tableEntry name data) ∈
      findings :=
    (tableEntry_mem_findings_iff hwalk).2 ⟨source, hsource, s, hs, htable, entry, henters, rfl⟩
  obtain ⟨findings', texts, hwalk', hledger, hsources, htexts, hheld⟩ :=
    finishedLedger_of_analyzeFiles hd ha
  obtain rfl : findings = findings' := Except.ok.inj (hwalk.symm.trans hwalk')
  rw [hledger]
  obtain ⟨r, hget⟩ := exists_record_of_owner cfg.textDedup texts hentry rfl
  refine ⟨r, hget, fun o ho => ?_⟩
  -- The line where the entry begins is a table line.
  have hfirst : o.line = entry.line → (r.places .text).has o = false := by
    intro hline
    have honTable : r.onTableLine o = true :=
      (onTableLine_finishedLedger_iff hget).2 ⟨data, _, hentry, sameLine_iff.2 ⟨Path.same_iff.1 ho, hline⟩⟩
    rw [← Bool.not_eq_true, text_finishedLedger_iff hget, honTable]
    simp
  refine ⟨hfirst, ?_, ?_⟩
  · rintro ⟨hbegin, hend⟩ hone
    exact hfirst (by omega)
  · intro _
    rw [text_finishedLedger_iff hget,
      exists_text_iff hsources htexts (hheld source hsource) ho, and_assoc, and_assoc]
    refine and_congr_right fun _ => and_congr_right fun _ => and_congr_right fun _ =>
      and_congr_left fun _ => ?_
    rw [← Bool.not_eq_true, onTableLine_finishedLedger_iff hget]
    simp only [not_exists, not_and, Bool.not_eq_true]

/-! ### Entries at work -/

/-- A table with an entry on two lines, the name of the cvar on the second. -/
def twoLines : Source :=
  sourceOf "vmCvar_t a;\ncvarTable_t t[] = \x7b\n \x7b &a,\n \"a\" \x7d,\n\x7d;\n"
    (definitionRows 0 1 ++
      [partRow 1 "declaration" none 12 49, partRow 2 "type_identifier" (some "type") 12 23,
        partRow 2 "init_declarator" (some "declarator") 24 48,
        partRow 3 "array_declarator" (some "declarator") 24 27,
        partRow 4 "identifier" (some "declarator") 24 25, markRow 4 "[" 25, markRow 4 "]" 26,
        markRow 3 "=" 28, partRow 3 "initializer_list" (some "value") 30 48, markRow 4 "\x7b" 30,
        partRow 4 "initializer_list" none 33 45, markRow 5 "\x7b" 33,
        partRow 5 "pointer_expression" none 35 37,
        ⟨6, "&", some "operator", false, false, false, false, 35, 36⟩,
        partRow 6 "identifier" (some "argument") 36 37, markRow 5 "," 37,
        partRow 5 "string_literal" none 40 43, markRow 6 "\"" 40,
        partRow 6 "string_content" none 41 42, markRow 6 "\"" 42, markRow 5 "\x7d" 44,
        markRow 4 "," 45, markRow 4 "\x7d" 47, markRow 2 ";" 48])

/-- What is known of the cvar in the end: it is mentioned in a text. -/
def twoLinesRecord : Record :=
  ⟨[(.define, [⟨twoLines.path, 1, 10⟩]), (.table, [⟨twoLines.path, 3, 2⟩]),
    (.text, [⟨twoLines.path, 4, 3⟩])], ["a"], [], [], [], []⟩

theorem exists_enters_twoLines :
    ∃ s ∈ spots [] twoLines.tree, s.IsTable {} ∧ ∃ entry,
      s.Enters ⟨{}, collectGlobals {} [twoLines], twoLines⟩ entry "a" ⟨some "a", none, []⟩ ∧
        entry.line = 3 ∧ entry.Spans 4 3 := by
  have hentry : ∃ s ∈ spots [] twoLines.tree, s.IsTable {} ∧ ∃ entry ∈ tableEntries s.node,
      ((tableEntry ⟨{}, collectGlobals {} [twoLines], twoLines⟩ entry).toOption =
        some ⟨[17, 19], [⟨.tableEntry "a" ⟨some "a", none, []⟩, ⟨twoLines.path, 3, 2⟩⟩]⟩) ∧
        entry.line = 3 ∧ entry.column = 2 ∧ entry.Spans 4 3 := by decide +kernel
  obtain ⟨s, hs, htable, entry, hentry, heffect, hline, hcolumn, hspans⟩ := hentry
  refine ⟨s, hs, htable, entry, ⟨hentry, [17, 19], ?_⟩, hline, hspans⟩
  rw [ok_of_toOption heffect, foundAt, placeOf, hline, hcolumn]

theorem words_of_entry_twoLines :
    ∃ a r, analyzeFiles ⟨[], []⟩ {} searching [twoLines.path] [twoLines] = .ok a ∧
      a.ledger.get? "a" = some r ∧
      (∀ column, (r.places .text).has ⟨twoLines.path, 3, column⟩ = false) ∧
      ((r.places .text).has ⟨twoLines.path, 4, 3⟩ = true ↔
        searching.textScan = true ∧ twoLines.path.isIn [twoLines.path] = true ∧
          twoLines.NamesAt a.ledger.textKeys "a" 4 3 ∧
          (∀ data p, ⟨.tableEntry "a" data, p⟩ ∈
            [(⟨.declaration "a" true, ⟨twoLines.path, 1, 10⟩⟩ : Finding),
              ⟨.tableEntry "a" ⟨some "a", none, []⟩, ⟨twoLines.path, 3, 2⟩⟩] →
            Occurrence.sameLine ⟨twoLines.path, 4, 3⟩ p = false) ∧
          r.accountsFor .line ⟨twoLines.path, 4, 3⟩ = false) := by
  have hwalk : walkAll {} [twoLines] = .ok [⟨.declaration "a" true, ⟨twoLines.path, 1, 10⟩⟩,
      ⟨.tableEntry "a" ⟨some "a", none, []⟩, ⟨twoLines.path, 3, 2⟩⟩] :=
    ok_of_toOption (by decide +kernel)
  have hledger : (analyzeFiles ⟨[], []⟩ {} searching [twoLines.path] [twoLines]).toOption.map
      (·.ledger) = some ⟨[("a", twoLinesRecord)], []⟩ := by decide +kernel
  obtain ⟨a, ha, -⟩ := Option.map_eq_some_iff.1 hledger
  obtain ⟨s, hs, htable, entry, henters, hline, hspans⟩ := exists_enters_twoLines
  obtain ⟨r, hget, hwords⟩ := words_of_entry (List.pairwise_singleton _ _) hwalk (ok_of_toOption ha)
    List.mem_cons_self hs htable henters
  have hpath : twoLines.path.same twoLines.path = true := by decide +kernel
  exact ⟨a, r, ok_of_toOption ha, hget,
    fun column => (hwords ⟨twoLines.path, 3, column⟩ hpath).1 hline.symm,
    (hwords ⟨twoLines.path, 4, 3⟩ hpath).2.2 hspans⟩

/-- **A word of an entry is left** on its second line, in either mode: the cvar is mentioned there by its
own table entry. -/
theorem entry_word_left :
    (analyzeFiles ⟨[], []⟩ {} searching [twoLines.path] [twoLines]).toOption.map (·.ledger) =
        some ⟨[("a", twoLinesRecord)], []⟩ ∧
      (analyzeFiles ⟨[], []⟩ { textDedup := .exact } searching [twoLines.path] [twoLines]).toOption.map
        (·.ledger) = some ⟨[("a", twoLinesRecord)], []⟩ ∧
      (twoLinesRecord.places .text).has ⟨twoLines.path, 4, 3⟩ = true ∧
      ∃ s ∈ spots [] twoLines.tree, s.IsTable {} ∧ ∃ entry,
        s.Enters ⟨{}, collectGlobals {} [twoLines], twoLines⟩ entry "a" ⟨some "a", none, []⟩ ∧
          entry.line = 3 ∧ entry.Spans 4 3 :=
  ⟨by decide +kernel, by decide +kernel, by decide +kernel, exists_enters_twoLines⟩

end Entries

end Cvar

end Upkeep
