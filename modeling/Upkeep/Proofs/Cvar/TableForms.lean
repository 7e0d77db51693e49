/-
**Table entries with and without field names.**

The values of a table entry are given in the order of the fields, or each behind the designator of its
field.  Both forms are read by the same tests, field by field, but the fields of the values are found in
two ways: by counting, which fails when there are more values than fields, and from the text of the
designator.

Two entries that give the same values, one in each form, stand at two places, and so do their values.  A
value is the same wherever it stands, if it is spelled the same down to its last part.

Main definitions:

* `Upkeep.Cpp.Node.unplaced`, `Upkeep.Cpp.Node.SameValue` — trees regardless of where they stand;
* `Upkeep.Cvar.Designates` — the designators of a field;
* `Upkeep.Cvar.Positional`, `Upkeep.Cvar.Designated` — entries in the two forms;
* `Upkeep.Cvar.SameOutcome` — entries that come to the same.

Main results:

* `Upkeep.Cvar.designates_dot` — every name has a designator;
* `Upkeep.Cvar.readField_same` — one value more, at two places;
* `Upkeep.Cvar.readFields_designated` — the values of an entry in both forms;
* `Upkeep.Cvar.sameOutcome_of_designated` — **both forms come to the same**.
-/

import Upkeep.Cvar.Walk
import Upkeep.Proofs.Data.Outcome
import Upkeep.Proofs.Text.Words

set_option relaxedAutoImplicit false
set_option autoImplicit false

namespace Upkeep

namespace Text

variable {p : Char → Bool} {before s after : List Char}

theorem dropWhile_in_front (hbefore : ∀ c ∈ before, p c) (hhead : ∀ c ∈ s.head?, p c = false) :
    (before ++ s).dropWhile p = s := by
  rw [List.dropWhile_append_of_pos hbefore]
  cases s with
  | nil => rfl
  | cons c s => exact List.dropWhile_cons_of_neg (by simp [hhead c rfl])

/-- Trimming leaves what stands between blanks, if it neither begins nor ends with one. -/
theorem trimBoth_around (hbefore : ∀ c ∈ before, p c) (hafter : ∀ c ∈ after, p c)
    (hhead : ∀ c ∈ s.head?, p c = false) (hlast : ∀ c ∈ s.getLast?, p c = false) :
    trimBoth p (before ++ s ++ after) = s := by
  cases s with
  | nil =>
      rw [List.append_nil, ← List.append_nil (before ++ after), trimBoth,
        dropWhile_in_front (List.forall_mem_append.2 ⟨hbefore, hafter⟩) (by simp)]
      rfl
  | cons c s =>
      rw [trimBoth, List.append_assoc, dropWhile_in_front hbefore (by simpa using hhead), dropEndWhile,
        List.reverse_append, dropWhile_in_front (by simpa using hafter)
          (by rw [List.head?_reverse]; exact hlast), List.reverse_reverse]

end Text

/-! ### Trees regardless of where they stand -/

namespace Cpp

/-- A label without the place of its node. -/
def Label.unplaced (l : Label) : Label := { l with id := 0, start := 0, row := 0, column := 0 }

namespace Node

mutual

/-- A tree without the places of its nodes. -/
def unplaced : Node → Node
  | .mk l cs => .mk l.unplaced (unplacedOf cs)

def unplacedOf : List Node → List Node
  | [] => []
  | c :: cs => unplaced c :: unplacedOf cs

end

variable {a b : Node}

theorem unplacedOf_eq_map (cs : List Node) : unplacedOf cs = cs.map unplaced := by
  induction cs with
  | nil => rfl
  | cons c cs ih => rw [unplacedOf, ih, List.map_cons]

@[simp] theorem kind_unplaced (n : Node) : n.unplaced.kind = n.kind := by
  cases n
  rfl

@[simp] theorem text_unplaced (n : Node) : n.unplaced.text = n.text := by
  cases n
  rfl

@[simp] theorem field_unplaced (n : Node) : n.unplaced.label.field = n.label.field := by
  cases n
  rfl

/-- Two nodes stand for the same value: they are spelled the same down to the last part, at whichever
place and in whichever field of their parents. -/
structure SameValue (a b : Node) : Prop where
  kind : a.kind = b.kind
  text : a.text = b.text
  children : a.children.map unplaced = b.children.map unplaced

theorem SameValue.of_unplaced (h : a.unplaced = b.unplaced) : SameValue a b where
  kind := by rw [← kind_unplaced, h, kind_unplaced]
  text := by rw [← text_unplaced, h, text_unplaced]
  children := by
    cases a
    cases b
    rw [unplaced, unplaced, mk.injEq, unplacedOf_eq_map, unplacedOf_eq_map] at h
    exact h.2

/-- The same values have the same parts in their fields. -/
theorem SameValue.field? (h : SameValue a b) (f : String) :
    (a.field? f).map unplaced = (b.field? f).map unplaced := by
  have hfind : ∀ n : Node, (n.field? f).map unplaced =
      (n.children.map unplaced).find? (·.label.field == some f) := by
    intro n
    rw [List.find?_map, Node.field?]
    congr 2
    funext c
    rw [Function.comp_apply, field_unplaced]
  rw [hfind, hfind, h.children]

theorem SameValue.fieldText? (h : SameValue a b) (f : String) : a.fieldText? f = b.fieldText? f := by
  have htext : ∀ n : Node, n.fieldText? f = ((n.field? f).map unplaced).map Node.text := by
    intro n
    rw [Node.fieldText?, Option.map_map]
    congr 1
    funext c
    exact c.text_unplaced.symm
  rw [htext, htext, h.field?]

end Node

end Cpp

namespace Cvar

open Cpp

section SameValue

variable {a b : Node}

theorem isNull_congr (h : a.SameValue b) : isNull a = isNull b := by
  rw [isNull, isNull, h.kind, h.text]

theorem literal?_congr (h : a.SameValue b) : literal? a = literal? b := by
  rw [literal?, literal?, h.kind, h.text]

/-- The same values are addresses of the same names. -/
theorem address?_congr (h : a.SameValue b) : (address? a).map Node.text = (address? b).map Node.text := by
  have hfield := h.field? "argument"
  rw [address?, address?, h.kind, h.fieldText?]
  split
  · cases ha : a.field? "argument" with
    | none =>
        rw [ha, Option.map_none, eq_comm, Option.map_eq_none_iff] at hfield
        rw [hfield]
    | some x =>
        rw [ha, Option.map_some, eq_comm, Option.map_eq_some_iff] at hfield
        obtain ⟨y, hy, hxy⟩ := hfield
        have hsame := Node.SameValue.of_unplaced hxy
        rw [hy, Option.filter_some, Option.filter_some, hsame.kind]
        split
        · exact congrArg some hsame.text.symm
        · rfl
  · rfl

end SameValue

/-! ### What is read of an entry -/

/-- What a draft says, without the nodes that it says it by. -/
def EntryDraft.said (d : EntryDraft) : Option String × Registration := (d.cvar.map Prod.fst, d.data)

/-- What is read of an entry, without the nodes that it is read from. -/
def EntryState.said : EntryState → Option (Option String × Registration)
  | reading d => some d.said
  | skipped => none

variable {v v' : Survey} {draft draft' : EntryDraft}

/-- One value more, at two places. -/
theorem readField_same (hcfg : v'.cfg = v.cfg) {x y : Node} (hvalue : x.SameValue y)
    (hsaid : draft.said = draft'.said) (field : String) :
    (readField v draft field x).map EntryState.said =
      (readField v' draft' field y).map EntryState.said := by
  have hcvar : draft.cvar.map Prod.fst = draft'.cvar.map Prod.fst := congrArg Prod.fst hsaid
  have hdata : draft.data = draft'.data := congrArg Prod.snd hsaid
  rw [readField, readField, hcfg, ← isNull_congr hvalue, ← literal?_congr hvalue, ← hvalue.text, ← hdata]
  by_cases hfield : (field == v.cfg.tableCvarField) = true
  · rw [if_pos hfield, if_pos hfield]
    by_cases hnull : isNull x = true
    · rw [if_pos hnull, if_pos hnull]
    · rw [if_neg hnull, if_neg hnull]
      have haddress := address?_congr hvalue
      cases hx : address? x with
      | none =>
          rw [hx, Option.map_none, eq_comm, Option.map_eq_none_iff] at haddress
          rw [haddress]
      | some target =>
          rw [hx, Option.map_some, eq_comm, Option.map_eq_some_iff] at haddress
          obtain ⟨target', hy, htext⟩ := haddress
          rw [hy]
          simp only [htext]
          split <;> rfl
  · rw [if_neg hfield, if_neg hfield]
    have hkeeps : ∀ data : Registration, (EntryState.reading { draft with data := data }).said =
        (EntryState.reading { draft' with data := data }).said := by
      intro data
      simp only [EntryState.said, EntryDraft.said, hcvar]
    split
    · cases literal? x with
      | none => rfl
      | some s => exact congrArg Except.ok (hkeeps _)
    · split
      · exact congrArg Except.ok (hkeeps _)
      · split
        · exact congrArg Except.ok (hkeeps _)
        · exact congrArg (fun t => Except.ok (some t)) hsaid

/-! ### Designators -/

/-- A text designates a field: it is the name of the field behind dots, with blanks around it, and neither
belongs to the name. -/
structure Designates (designator field : String) : Prop where
  text : ∃ dots before after, designator.toList = dots ++ (before ++ field.toList ++ after) ∧
    (∀ c ∈ dots, c = '.') ∧ (∀ c ∈ before, Unicode.isBlank c) ∧ ∀ c ∈ after, Unicode.isBlank c
  head : ∀ c ∈ field.toList.head?, c ≠ '.' ∧ Unicode.isBlank c = false
  last : ∀ c ∈ field.toList.getLast?, Unicode.isBlank c = false

/-- A name behind a dot designates the field of this name. -/
theorem designates_dot (field : String) (h : field.toList.all Unicode.isWord) :
    Designates ("." ++ field) field := by
  have hblank : ∀ c ∈ field.toList, Unicode.isBlank c = false := by
    intro c hc
    by_contra hblank
    rw [Bool.not_eq_false] at hblank
    exact absurd (List.all_eq_true.1 h c hc) (by rw [Text.isWord_of_isBlank hblank]; exact Bool.false_ne_true)
  have hdot : ∀ c ∈ field.toList, c ≠ '.' := by
    rintro c hc rfl
    exact absurd (List.all_eq_true.1 h _ hc) (by decide)
  exact ⟨⟨['.'], [], [], by simp, by simp, by simp, by simp⟩,
    fun c hc => ⟨hdot c (List.mem_of_head? hc), hblank c (List.mem_of_head? hc)⟩,
    fun c hc => hblank c (List.mem_of_getLast? hc)⟩

theorem Designates.read {designator field : String} (h : Designates designator field) :
    Text.trim (String.ofList (designator.toList.dropWhile (· == '.'))) = field := by
  obtain ⟨dots, before, after, htext, hdots, hbefore, hafter⟩ := h.text
  have hrest : ∀ c ∈ (before ++ field.toList ++ after).head?, (c == '.') = false := by
    intro c hc
    rw [Option.mem_def, List.head?_append, List.head?_append, Option.or_eq_some_iff,
      Option.or_eq_some_iff] at hc
    have hblank : Unicode.isBlank c → (c == '.') = false := by
      intro hc
      refine beq_eq_false_iff_ne.2 ?_
      rintro rfl
      revert hc
      decide
    rcases hc with (hc | ⟨-, hc⟩) | ⟨-, hc⟩
    · exact hblank (hbefore c (List.mem_of_head? hc))
    · exact beq_eq_false_iff_ne.2 (h.head c hc).1
    · exact hblank (hafter c (List.mem_of_head? hc))
  have hname : Text.trimChars (before ++ field.toList ++ after) = field.toList :=
    Text.trimBoth_around hbefore hafter (fun c hc => (h.head c hc).2) h.last
  rw [htext, Text.dropWhile_in_front (fun c hc => beq_iff_eq.2 (hdots c hc)) hrest, Text.trim,
    String.toList_ofList, hname, String.ofList_toList]

/-- An element of an entry gives a value behind the designator of a field. -/
structure GivesFor (field : String) (value element : Node) : Prop where
  kind : element.kind = "initializer_pair"
  designator : ∃ d, element.field? "designator" = some d ∧ Designates d.text field
  value : ∃ x, element.field? "value" = some x ∧ value.SameValue x

theorem fieldOfValue_positional {i : Nat} {value : Node} {field : String}
    (hkind : value.kind ≠ "initializer_pair") (hfield : v.globals.tableFields[i]? = some field) :
    fieldOfValue v i value = .ok (some (field, value)) := by
  rw [fieldOfValue, if_neg (fun h => hkind (beq_iff_eq.1 h)), hfield]

theorem fieldOfValue_designated {value element : Node} {field : String} (h : GivesFor field value element)
    (i : Nat) : ∃ x, fieldOfValue v i element = .ok (some (field, x)) ∧ value.SameValue x := by
  obtain ⟨d, hd, hdesignates⟩ := h.designator
  obtain ⟨x, hx, hsame⟩ := h.value
  refine ⟨x, ?_, hsame⟩
  rw [fieldOfValue, if_pos (beq_iff_eq.2 h.kind), hd, hx]
  simp only [Option.map_some, Option.getD_some, hdesignates.read]

/-! ### Entries in two forms -/

/-- An entry gives some values by their places. -/
structure Positional (entry : Node) (values : List Node) : Prop where
  parts : entry.parts = values
  bare : ∀ x ∈ values, x.kind ≠ "initializer_pair"

/-- An entry gives some values, in their order, behind the designators of the fields that are first. -/
def Designated (fields : List String) (entry : Node) (values : List Node) : Prop :=
  List.Forall₂ (fun e element => GivesFor e.1 e.2 element) (fields.zip values) entry.parts

/-- Two entries come to the same: they enter one cvar with the same data, or both are passed over, or both
are malformed for the same reason. -/
inductive SameOutcome (v : Survey) (entry : Node) (v' : Survey) (entry' : Node) : Prop where
  | entered (name : String) (data : Registration) (claims claims' : List Nat)
      (h : tableEntry v entry = .ok ⟨claims, [foundAt v entry (.tableEntry name data)]⟩)
      (h' : tableEntry v' entry' = .ok ⟨claims', [foundAt v' entry' (.tableEntry name data)]⟩)
  | skipped (h : tableEntry v entry = .ok .none) (h' : tableEntry v' entry' = .ok .none)
  | malformed (reason : String)
      (h : tableEntry v entry =
        .error (.malformedTable v.source.path entry.line entry.column reason))
      (h' : tableEntry v' entry' =
        .error (.malformedTable v'.source.path entry'.line entry'.column reason))

/-- What is read of an entry. -/
def reading (v : Survey) (entry : Node) : Except String (Option (Option String × Registration)) :=
  (readFields v ⟨none, ⟨none, none, []⟩⟩ 0 entry.parts).map EntryState.said

theorem tableEntry_of_reading (v : Survey) (entry : Node) :
    match reading v entry with
    | .error reason =>
      tableEntry v entry = .error (.malformedTable v.source.path entry.line entry.column reason)
    | .ok (some (some name, data)) =>
      ∃ claims, tableEntry v entry = .ok ⟨claims, [foundAt v entry (.tableEntry name data)]⟩
    | .ok _ => tableEntry v entry = .ok .none := by
  rw [reading, tableEntry]
  rcases readFields v ⟨none, ⟨none, none, []⟩⟩ 0 entry.parts with reason | ⟨⟨_ | ⟨name, claims⟩, data⟩⟩ | _
  · rfl
  · rfl
  · exact ⟨claims, rfl⟩
  · rfl

/-- What is read of two entries decides whether they come to the same. -/
theorem sameOutcome_of_reading {entry entry' : Node} (h : reading v entry = reading v' entry') :
    SameOutcome v entry v' entry' := by
  have hentry := tableEntry_of_reading v entry
  have hentry' := tableEntry_of_reading v' entry'
  rw [← h] at hentry'
  generalize reading v entry = r at hentry hentry'
  rcases r with reason | (_ | ⟨_ | name, data⟩)
  · exact .malformed reason hentry hentry'
  · exact .skipped hentry hentry'
  · exact .skipped hentry hentry'
  · obtain ⟨claims, hentry⟩ := hentry
    obtain ⟨claims', hentry'⟩ := hentry'
    exact .entered name data claims claims' hentry hentry'

/-- A value that its field is found for is read next. -/
theorem readFields_cons {i : Nat} {value x : Node} {values : List Node} {field : String}
    (h : fieldOfValue v i value = .ok (some (field, x))) :
    readFields v draft i (value :: values) = readField v draft field x >>= fun
      | .skipped => .ok .skipped
      | .reading draft => readFields v draft (i + 1) values := by
  rw [readFields, h]
  rfl

/-- The values of an entry in both forms, from one field on. -/
theorem readFields_designated (hcfg : v'.cfg = v.cfg) {fields : List String} {values elements : List Node}
    {i : Nat} (hfields : v.globals.tableFields.drop i = fields) (hroom : values.length ≤ fields.length)
    (hbare : ∀ x ∈ values, x.kind ≠ "initializer_pair")
    (helements : List.Forall₂ (fun e element => GivesFor e.1 e.2 element) (fields.zip values) elements)
    (hsaid : draft.said = draft'.said) :
    (readFields v draft i values).map EntryState.said =
      (readFields v' draft' i elements).map EntryState.said := by
  induction values generalizing fields elements i draft draft' with
  | nil =>
      rw [List.zip_nil_right] at helements
      cases helements
      exact congrArg (fun t => Except.ok (some t)) hsaid
  | cons value values ih =>
      cases fields with
      | nil => exact absurd hroom (Nat.not_succ_le_zero _)
      | cons field fields =>
          rw [List.zip_cons_cons, List.forall₂_cons_left_iff] at helements
          obtain ⟨element, elements, hgives, helements, rfl⟩ := helements
          have hfield : v.globals.tableFields[i]? = some field := by
            rw [← List.head?_drop, hfields, List.head?_cons]
          have hnext : v.globals.tableFields.drop (i + 1) = fields := by
            rw [← List.tail_drop, hfields, List.tail_cons]
          obtain ⟨x, hx, hsame⟩ := fieldOfValue_designated (v := v') hgives i
          rw [readFields_cons (fieldOfValue_positional (hbare value List.mem_cons_self) hfield),
            readFields_cons hx]
          have hstep := readField_same hcfg hsame hsaid field
          cases hr : readField v draft field value <;> cases hr' : readField v' draft' field x <;>
            rw [hr, hr'] at hstep
          case error.error => exact congrArg Except.error (Except.error.inj hstep)
          case error.ok => cases hstep
          case ok.error => cases hstep
          case ok.ok t t' =>
            have hsaid' : t.said = t'.said := Except.ok.inj hstep
            cases t with
            | skipped =>
                cases t' with
                | skipped => rfl
                | reading draft' => cases hsaid'
            | reading draft =>
                cases t' with
                | skipped => cases hsaid'
                | reading draft' =>
                    exact ih hnext (Nat.le_of_succ_le_succ hroom)
                      (fun x hx => hbare x (List.mem_cons_of_mem _ hx)) helements (Option.some.inj hsaid')

/-- **Both forms come to the same.**  An entry that gives some values by their places, and an entry that
gives the same values behind the designators of the fields at these places, enter the same cvar with the
same data, are both passed over, or are malformed for the same reason. -/
theorem sameOutcome_of_designated (cfg : Settings) (globals : Globals) (source source' : Source)
    {entry entry' : Node} {values : List Node} (hroom : values.length ≤ globals.tableFields.length)
    (hplaces : Positional entry values) (hnames : Designated globals.tableFields entry' values) :
    SameOutcome ⟨cfg, globals, source⟩ entry ⟨cfg, globals, source'⟩ entry' := by
  refine sameOutcome_of_reading ?_
  rw [reading, reading, hplaces.parts]
  refine readFields_designated ?_ List.drop_zero hroom hplaces.bare hnames ?_ <;> rfl

/-- The address of a cvar, as it is given in a table. -/
def fovAddress (id column : Nat) (field : Option String) : Node :=
  .mk ⟨id, "pointer_expression", field, true, false, false, false, column, 0, column, "&cg_fov"⟩
    [.mk ⟨id + 1, "&", some "operator", false, false, false, false, column, 0, column, "&"⟩ [],
      .mk ⟨id + 2, "identifier", some "argument", true, false, false, false, column + 1, 0, column + 1,
        "cg_fov"⟩ []]

/-- The name of this cvar in quotes. -/
def fovName (id column : Nat) (field : Option String) : Node :=
  .mk ⟨id, "string_literal", field, true, false, false, false, column, 0, column, "\"cg_fov\""⟩ []

/-- An element that gives a value behind a designator. -/
def fovPair (id column : Nat) (designator : String) (value : Node) : Node :=
  .mk ⟨id, "initializer_pair", none, true, false, false, false, column, 0, column,
      designator ++ " = " ++ value.text⟩
    [.mk ⟨id + 1, "field_designator", some "designator", true, false, false, false, column, 0, column,
      designator⟩ [], value]

/-- The address and the name by their places. -/
def fovPlaces : Node :=
  .mk ⟨1, "initializer_list", none, true, false, false, false, 20, 0, 20,
      "\x7b &cg_fov, \"cg_fov\" \x7d"⟩
    [fovAddress 2 22 none, fovName 5 31 none]

/-- The same behind designators. -/
def fovNames : Node :=
  .mk ⟨6, "initializer_list", none, true, false, false, false, 43, 0, 43,
      "\x7b .vmCvar = &cg_fov, .cvarName = \"cg_fov\" \x7d"⟩
    [fovPair 7 45 ".vmCvar" (fovAddress 9 55 (some "value")),
      fovPair 12 64 ".cvarName" (fovName 14 76 (some "value"))]

/-- A table of both entries. -/
def fovTable : Source :=
  let list := "\x7b " ++ fovPlaces.text ++ ", " ++ fovNames.text ++ " \x7d"
  ⟨⟨"a.cpp"⟩, "cvarTable_t t[] = " ++ list ++ ";",
    .mk ⟨0, "initializer_list", none, true, false, false, false, 18, 0, 18, list⟩ [fovPlaces, fovNames]⟩

theorem sameOutcome_of_designated_fov :
    ({} : Settings).tableFields.take 2 = ["vmCvar", "cvarName"] ∧
      Positional fovPlaces fovPlaces.parts ∧
      Designated ({} : Settings).tableFields fovNames fovPlaces.parts ∧
      tableEntry ⟨{}, collectGlobals {} [fovTable], fovTable⟩ fovPlaces =
        .ok ⟨[2, 4], [⟨.tableEntry "cg_fov" ⟨some "cg_fov", none, []⟩, ⟨⟨"a.cpp"⟩, 1, 21⟩⟩]⟩ ∧
      SameOutcome ⟨{}, collectGlobals {} [fovTable], fovTable⟩ fovPlaces
        ⟨{}, collectGlobals {} [fovTable], fovTable⟩ fovNames := by
  have hplaces : Positional fovPlaces fovPlaces.parts := ⟨rfl, by decide⟩
  have hnames : Designated ({} : Settings).tableFields fovNames fovPlaces.parts :=
    .cons ⟨rfl, ⟨_, rfl, designates_dot "vmCvar" (by decide)⟩, _, rfl, rfl, rfl, rfl⟩
      (.cons ⟨rfl, ⟨_, rfl, designates_dot "cvarName" (by decide)⟩, _, rfl, rfl, rfl, rfl⟩ .nil)
  exact ⟨rfl, hplaces, hnames, ok_of_toOption (by decide +kernel),
    sameOutcome_of_designated {} (collectGlobals {} [fovTable]) fovTable fovTable (by decide +kernel)
      hplaces hnames⟩

end Cvar

end Upkeep
