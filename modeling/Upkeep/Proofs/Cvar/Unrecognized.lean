/-
**Uses without a known shape keep a cvar alive.**

A use that the walk does not recognise leaves nothing in the ledger but what the search in texts finds
of it again.  The search drops the word when another mention accounts for it, gives it to another
cvar when two names differ by case alone, and does not see it when the name is no word.  In all other
cases the cvar is not dead.

Main definitions:

* `Upkeep.Cpp.Source.Spells` — names that stand in a source as words.

Main results:

* `Upkeep.Cvar.shows_of_unrecognized` — the search finds the use again;
* `Upkeep.Cvar.unrecognized_not_dead` — **a cvar with a use of no known shape is not dead**, if none
  of these comes in between.
-/

import Upkeep.Cvar.Verdict
import Upkeep.Proofs.Cvar.Analysis
import Upkeep.Proofs.Cvar.Verdict
import Upkeep.Proofs.Cvar.Walk

set_option relaxedAutoImplicit false
set_option autoImplicit false

namespace Upkeep

/-- A name stands at a place of a source as a whole word. -/
def Cpp.Source.Spells (f : Source) (name : String) (o : Cvar.Occurrence) : Prop :=
  ∃ line ∈ (Text.lines f.text)[o.line - 1]?, Text.WholeWord line ⟨o.column - 1, name.toList⟩

instance (f : Cpp.Source) (name : String) (o : Cvar.Occurrence) : Decidable (f.Spells name o) :=
  inferInstanceAs (Decidable (∃ line ∈ (Text.lines f.text)[o.line - 1]?, _))

namespace Cvar

open Files Cpp

variable {d : Disk} {cfg : Settings} {request : Request} {sources : List Path}
  {files : List Source} {a : Analysis} {findings : List Finding}

/-- In texts a name stands for its cvar, if no other name differs from it by case alone. -/
theorem find?_textKeys_of_analyzeFiles (hscan : request.textScan = true) (hdistinct : Distinct files)
    (ha : analyzeFiles d cfg request sources files = .ok a) {name : String} {r : Record}
    (hget : a.ledger.get? name = some r)
    (hown : ∀ name' r', a.ledger.get? name' = some r' → Text.lower name' = Text.lower name →
      name' = name) : a.ledger.textKeys.find? (Text.lower name) = some name := by
  obtain ⟨findings, texts, -, hledger, -⟩ := ledger_of_analyzeFiles hscan hdistinct ha
  rw [hledger] at hget hown ⊢
  exact Ledger.find?_textKeys_own (ordered_finishedLedger findings) hget hown

/-- The search finds a use without a known shape again: it is represented in the record. -/
theorem shows_of_unrecognized (hscan : request.textScan = true) (hdistinct : Distinct files)
    (hwalk : walkAll cfg files = .ok findings)
    (ha : analyzeFiles d cfg request sources files = .ok a) {name context : String}
    {o : Occurrence} (hfound : ⟨.unrecognized name context, o⟩ ∈ findings)
    (hsource : o.file.isIn sources = true)
    (hspells : ∀ f ∈ files, f.path = o.file → f.Spells name o)
    {r : Record} (hget : a.ledger.get? name = some r)
    (hkey : a.ledger.textKeys.find? (Text.lower name) = some name) :
    r.Shows cfg.textDedup o := by
  -- The use is an identifier of a parsed file.
  obtain ⟨f, hf, n, -, hfoundBy⟩ := foundBy_of_mem_walkAll hwalk hfound
  obtain ⟨-, -, rfl⟩ := hfoundBy.of_unrecognized
  obtain ⟨line, hline, hword⟩ := hspells f hf rfl
  -- The text of this file is searched, perhaps under a path that is written otherwise.
  obtain ⟨findings, texts, -, hledger, hsources, htexts, hheld⟩ :=
    ledger_of_analyzeFiles hscan hdistinct ha
  obtain ⟨source, hmem, hsame⟩ := List.any_eq_true.1 hsource
  rw [← hsources] at hmem
  obtain ⟨⟨file, lines⟩, htext, rfl⟩ := List.mem_map.1 hmem
  have hpath : f.path.same file = true := hsame
  have hlines : lines = Text.lines f.text := by
    have hfile := htexts _ htext
    rw [← Workspace.held?_congr _ hpath, hheld f hf] at hfile
    exact (Option.some.inj hfile).symm
  have hplace : (placeOf ⟨cfg, collectGlobals cfg files, f⟩ n).same
      ⟨file, n.label.row + 1, n.label.column + 1⟩ = true := by
    rw [Occurrence.same_iff, Occurrence.sameLine_iff]
    exact ⟨⟨Path.same_iff.1 hpath, rfl⟩, rfl⟩
  rw [hledger] at hget hkey
  refine Record.Shows.congr (shows_finishedLedger hget htext ?_ hword ?_) hplace
  · rw [hlines]
    exact hline
  · rw [Text.Word.text, String.ofList_toList]
    exact hkey

/-- **A cvar with a use of no known shape is not dead**, if the use is in a searched file, its name
is a word there and stands for the cvar in texts, and no mention of the cvar's own accounts for it. -/
theorem unrecognized_not_dead (hscan : request.textScan = true) (hdistinct : Distinct files)
    (hwalk : walkAll cfg files = .ok findings)
    (ha : analyzeFiles d cfg request sources files = .ok a) {name context : String}
    {o : Occurrence} (hfound : ⟨.unrecognized name context, o⟩ ∈ findings)
    (hsource : o.file.isIn sources = true)
    (hspells : ∀ f ∈ files, f.path = o.file → f.Spells name o)
    {r : Record} (hget : a.ledger.get? name = some r)
    (hkey : a.ledger.textKeys.find? (Text.lower name) = some name)
    (htable : r.onTableLine o = false)
    (hcovers : ∀ role ∈ Role.bookkeeping, ∀ p ∈ r.places role, cfg.textDedup.covers o p = false)
    (p : Policy) : classify p r ≠ .dead := by
  intro hdead
  have hshows := shows_of_unrecognized hscan hdistinct hwalk ha hfound hsource hspells hget hkey
  rcases hshows.of_dead hdead with h | ⟨role, hbook, q, hq, hcover⟩
  · rw [htable] at h
    cases h
  · rw [hcovers role hbook q hq] at hcover
    cases hcover

/-! ### Uses at work -/

/-- The rows of the arguments `("c.x")` at a depth. -/
def argumentRows (depth i : Nat) : List Row :=
  [partRow depth "argument_list" (some "arguments") i (i + 7), markRow (depth + 1) "(" i,
    partRow (depth + 1) "string_literal" none (i + 1) (i + 6), markRow (depth + 2) "\"" (i + 1),
    partRow (depth + 2) "string_content" none (i + 2) (i + 5), markRow (depth + 2) "\"" (i + 5),
    markRow (depth + 1) ")" (i + 6)]

/-- The rows of `vmCvar_t a = Cvar_Get("c.x");`. -/
def registrationRows (i : Nat) : List Row :=
  [partRow 1 "declaration" none i (i + 29), partRow 2 "type_identifier" (some "type") i (i + 8),
    partRow 2 "init_declarator" (some "declarator") (i + 9) (i + 28),
    partRow 3 "identifier" (some "declarator") (i + 9) (i + 10), markRow 3 "=" (i + 11),
    partRow 3 "call_expression" (some "value") (i + 13) (i + 28),
    partRow 4 "identifier" (some "function") (i + 13) (i + 21)] ++
    argumentRows 4 (i + 21) ++ [markRow 2 ";" (i + 28)]

/-- The rows of `int y = a.f("c.x");`. -/
def methodRows (i : Nat) : List Row :=
  [partRow 1 "declaration" none i (i + 19), partRow 2 "primitive_type" (some "type") i (i + 3),
    partRow 2 "init_declarator" (some "declarator") (i + 4) (i + 18),
    partRow 3 "identifier" (some "declarator") (i + 4) (i + 5), markRow 3 "=" (i + 6),
    partRow 3 "call_expression" (some "value") (i + 8) (i + 18),
    partRow 4 "field_expression" (some "function") (i + 8) (i + 11),
    partRow 5 "identifier" (some "argument") (i + 8) (i + 9), markRow 5 "." (i + 9),
    partRow 5 "field_identifier" (some "field") (i + 10) (i + 11)] ++
    argumentRows 4 (i + 11) ++ [markRow 2 ";" (i + 18)]

/-- The use of a cvar stands on another line than its definition. -/
def apart : Source := sourceOf "vmCvar_t a;\nint y = a;\n" (definitionRows 0 1 ++ useRows 12 1)

/-- What is known of the cvar in the end: it is mentioned in a text. -/
def apartRecord : Record :=
  ⟨[(.define, [⟨apart.path, 1, 10⟩]), (.text, [⟨apart.path, 2, 9⟩])], [], [], [], [], []⟩

theorem unrecognized_not_dead_apart :
    ∃ a, analyzeFiles ⟨[], []⟩ {} searching [apart.path] [apart] = .ok a ∧
      walkAll {} [apart] = .ok [⟨.declaration "a" true, ⟨apart.path, 1, 10⟩⟩,
        ⟨.unrecognized "a" "int y = a;", ⟨apart.path, 2, 9⟩⟩] ∧
      apart.Spells "a" ⟨apart.path, 2, 9⟩ ∧ a.ledger = ⟨[("a", apartRecord)], []⟩ ∧
      classify ({} : Settings).policy apartRecord ≠ .dead := by
  have hwalk : walkAll {} [apart] = .ok [⟨.declaration "a" true, ⟨apart.path, 1, 10⟩⟩,
      ⟨.unrecognized "a" "int y = a;", ⟨apart.path, 2, 9⟩⟩] := ok_of_toOption (by decide +kernel)
  have hledger : (analyzeFiles ⟨[], []⟩ {} searching [apart.path] [apart]).toOption.map (·.ledger) =
      some ⟨[("a", apartRecord)], []⟩ := by decide +kernel
  obtain ⟨a, ha, hl⟩ := Option.map_eq_some_iff.1 hledger
  have hspells : apart.Spells "a" ⟨apart.path, 2, 9⟩ := by decide +kernel
  have hget : a.ledger.get? "a" = some apartRecord := by
    rw [hl]
    decide +kernel
  have hown : ∀ name' r', a.ledger.get? name' = some r' → Text.lower name' = Text.lower "a" →
      name' = "a" := by
    intro name' r' hget' _
    rw [hl] at hget'
    have hmem := Data.mem_of_lookupBy hget'
    simp_all
  have hdistinct : Distinct [apart] := List.pairwise_singleton _ _
  have hkey := find?_textKeys_of_analyzeFiles rfl hdistinct (ok_of_toOption ha) hget hown
  refine ⟨a, ok_of_toOption ha, hwalk, hspells, hl, ?_⟩
  exact unrecognized_not_dead rfl hdistinct hwalk (ok_of_toOption ha)
    (List.mem_cons_of_mem _ List.mem_cons_self) (by decide +kernel) (by simp [hspells]) hget
    hkey (by decide +kernel) (by decide +kernel) _

/-- Whether a cvar is dead although there is a use of it without a known shape, on no line with one
of its table entries, and all files are searched. -/
def deadInUse (cfg : Settings) (files : List Source) (name : String) : Bool :=
  match walkAll cfg files, analyzeFiles ⟨[], []⟩ cfg searching (files.map (·.path)) files with
  | .ok findings, .ok a =>
    (a.ledger.get? name).any fun r => classify cfg.policy r == .dead &&
      findings.any fun f => !r.onTableLine f.place &&
        match f.shape with
        | .unrecognized name' _ => name' == name
        | _ => false
  | _, _ => false

/-- The definition on the same line accounts for the use. -/
def besideDefinition : Source :=
  sourceOf "vmCvar_t a; int y = a;\n" (definitionRows 0 1 ++ useRows 12 1)

/-- A write that begins at the use accounts for it. -/
def atWrite : Source :=
  sourceOf "vmCvar_t a = Cvar_Get(\"c.x\");\nint y = a.f(\"c.x\");\n"
    (registrationRows 0 ++ methodRows 30)

/-- Of two names that differ by case the latter takes all uses. -/
def twins : Source :=
  sourceOf "vmCvar_t A;\nvmCvar_t a;\nint y = A;\n"
    (definitionRows 0 1 ++ definitionRows 12 1 ++ useRows 24 1)

/-- The name is no word. -/
def unspelled : Source :=
  sourceOf "vmCvar_t a$;\nint y = a$;\n" (definitionRows 0 2 ++ useRows 13 2)

/-- Every condition is needed, in either mode. -/
theorem dead_in_use :
    deadInUse {} [besideDefinition] "a" = true ∧
      deadInUse { textDedup := .exact, setFunctions := ["a.f"] } [atWrite] "a" = true ∧
      deadInUse {} [twins] "A" = true ∧
      deadInUse { textDedup := .exact } [twins] "A" = true ∧
      deadInUse {} [unspelled] "a$" = true ∧
      deadInUse { textDedup := .exact } [unspelled] "a$" = true := by
  decide +kernel

end Cvar

end Upkeep
