/-
**The names that users see.**

A registration or a table entry gives the name of a cvar as a string literal, and what is kept of it is
the spelling of its content.  A migration writes the least of these spellings as a literal of its own,
into the definition and into the calls that write by force, with a backslash in front of every backslash
and every quote.  So the literal that is written denotes the characters that the source is spelled with,
which is what the source denotes if and only if its content has no backslash.

Main definitions:

* `Upkeep.Cvar.Finding.registered?` — what a registration or a table entry says of a cvar;
* `Upkeep.Cvar.GivesName` — the node that gives the name.

Main results:

* `Upkeep.Cvar.exists_givesName` — every name is the content of a literal that gives it;
* `Upkeep.Cvar.mem_displayNames_iff` — the names in the ledger are those of registrations and entries;
* `Upkeep.Cvar.written_name_denotes_iff` — **which literals denote the same when they are migrated**.
-/

import Upkeep.Cvar.Migration
import Upkeep.Proofs.Cpp.Literal
import Upkeep.Proofs.Cvar.Declarations
import Upkeep.Proofs.Cvar.TextKeys
import Upkeep.Proofs.Diff.Reading

set_option relaxedAutoImplicit false
set_option autoImplicit false

namespace Upkeep

namespace Cvar

open Cpp Files

/-! ### Literals -/

theorem betweenQuotes?_of_quotes (cs : List Char) : betweenQuotes? ('"' :: cs ++ ['"']) = some cs := by
  have hfirst : Text.splitOnce? ['"'] ('"' :: (cs ++ ['"'])) = some ([], cs ++ ['"']) :=
    Text.splitOnce?_append [] [] _ List.not_mem_nil
  have hreversed : Text.splitOnce? ['"'] ('"' :: cs.reverse) = some ([], cs.reverse) :=
    Text.splitOnce?_append [] [] _ List.not_mem_nil
  have hlast : Text.splitLast? ['"'] (cs ++ ['"']) = some (cs, []) := by
    simp [Text.splitLast?, hreversed]
  simp [betweenQuotes?, hfirst, hlast]

/-- The content of a literal is what stands between its quotes. -/
theorem literal?_of_quotes {x : Node} {cs : List Char} (h : x.text.toList = '"' :: cs ++ ['"']) {s : String}
    (hs : literal? x = some s) : s.toList = cs := by
  rw [literal?, h, betweenQuotes?_of_quotes] at hs
  split at hs
  · cases hs
    exact String.toList_ofList
  · cases hs

/-- What is written between quotes denotes its characters, if these are one line. -/
theorem literalUnits?_quoted (s : String) :
    literalUnits? (quoted s) = if '\n' ∈ s.toList then none else some (plainUnits s.toList) := by
  have htext : (quoted s).toList = '"' :: escaped s.toList ++ ['"'] := String.toList_ofList
  rw [literalUnits?_of_quotes htext, unitsFrom_escaped]

/-- A literal and the one that is written for its content denote the same if and only if the content has
no backslash. -/
theorem literalUnits?_quoted_iff {x : Node} {s : String} {us : List UInt8} (hs : literal? x = some s)
    (hus : literalUnits? x.text = some us) :
    literalUnits? (quoted s) = some us ↔ '\\' ∉ s.toList := by
  obtain ⟨cs, htext, hcs⟩ := exists_content hus
  obtain rfl := literal?_of_quotes htext hs
  rw [literalUnits?_quoted, ← unitsFrom_escaped, unitsFrom_escaped_iff hcs]

/-! ### Nodes that give names -/

/-- What a finding registers: a cvar, and what the call or the table entry says of it. -/
def Finding.registered? (f : Finding) : Option (String × Registration) :=
  match f.shape with
  | .registration name data => some (name, data)
  | .tableEntry name data => some (name, data)
  | _ => none

/-- The node that gives the name which users see: the first argument of the call that registers the cvar,
or the value for the name field of the table entry. -/
inductive GivesName (v : Survey) : Finding → Node → Prop where
  | argument (name : String) {call x : Node} (hx : (arguments call)[0]? = some x) :
      GivesName v (foundAt v call (.registration name (registrationOf call))) x
  | field (name : String) (data : Registration) {entry value x : Node} {i : Nat}
      (hvalue : entry.parts[i]? = some value)
      (hx : fieldOfValue v i value = .ok (some (v.cfg.tableNameField, x))) :
      GivesName v (foundAt v entry (.tableEntry name data)) x

/-- If a finding registers a cvar with a name, a literal inside the node gives it. -/
def NamedInside (v : Survey) (n : Node) (f : Finding) : Prop :=
  ∀ name data s, f.registered? = some (name, data) → data.display = some s →
    ∃ x ∈ n.inside, GivesName v f x ∧ literal? x = some s

section Walk

variable {v : Survey} {s : Scope} {claimed : List Nat} {n call : Node}

theorem NamedInside.of_none {f : Finding} (h : f.registered? = none) : NamedInside v n f := by
  intro name data s hf
  rw [h] at hf
  cases hf

theorem named_registration (name : String) (hcall : call ∈ n.inside) :
    (registration v name call).Finds (NamedInside v n) := by
  rw [registration]
  split
  · refine Effect.finds_single ?_
    intro name' data s hf hs
    obtain ⟨rfl, rfl⟩ := Prod.mk.inj (Option.some.inj hf)
    obtain ⟨x, hx, hliteral⟩ := Option.bind_eq_some_iff.1 hs
    have hin := mem_inside_of_mem_arguments (List.mem_of_getElem? hx)
    exact ⟨x, Node.mem_inside_trans hcall (Node.mem_nodes_of_mem_inside hin), .argument name hx, hliteral⟩
  · exact Effect.finds_none

/-- A value of a table entry leaves the name as it is, or gives it. -/
theorem display_readField {draft draft' : EntryDraft} {field : String} {x : Node}
    (h : readField v draft field x = .ok (.reading draft')) :
    draft'.data.display = draft.data.display ∨
      field = v.cfg.tableNameField ∧ draft'.data.display = literal? x := by
  rw [readField] at h
  split at h
  · split at h
    · cases h
    · split at h
      · cases h
      · split at h
        · cases h
          exact .inl rfl
        · cases h
  · split at h
    · rename_i hname
      split at h
      · cases h
      · rename_i s hs
        cases h
        exact .inr ⟨beq_iff_eq.1 hname, hs.symm⟩
    · split at h
      · cases h
        exact .inl rfl
      · split at h
        · cases h
          exact .inl rfl
        · cases h
          exact .inl rfl

/-- What every value of a table entry keeps, the whole entry keeps. -/
theorem readFields_keeps {P : EntryDraft → Prop} {draft draft' : EntryDraft} {i : Nat} {values : List Node}
    (h : readFields v draft i values = .ok (.reading draft')) (hdraft : P draft)
    (hstep : ∀ j value field x draft draft', values[j]? = some value →
      fieldOfValue v (i + j) value = .ok (some (field, x)) →
      readField v draft field x = .ok (.reading draft') → P draft → P draft') : P draft' := by
  induction values generalizing draft i with
  | nil =>
      cases h
      exact hdraft
  | cons value values ih =>
      have hrest : ∀ {draft₁}, readFields v draft₁ (i + 1) values = .ok (.reading draft') →
          P draft₁ → P draft' := by
        intro draft₁ h₁ hdraft₁
        refine ih h₁ hdraft₁ ?_
        intro j value' field x d d' hvalue hfield
        rw [Nat.add_right_comm, Nat.add_assoc] at hfield
        exact hstep (j + 1) value' field x d d' hvalue hfield
      rw [readFields] at h
      cases hfield : fieldOfValue v i value with
      | error reason =>
          rw [hfield] at h
          cases h
      | ok found =>
          rw [hfield] at h
          cases found with
          | none => exact hrest h hdraft
          | some pair =>
              obtain ⟨field, x⟩ := pair
              cases hread : readField v draft field x with
              | error reason =>
                  simp only [hread, bind, Except.bind] at h
                  cases h
              | ok state =>
                  simp only [hread, bind, Except.bind] at h
                  cases state with
                  | skipped => cases h
                  | reading draft₁ =>
                      exact hrest h (hstep 0 value field x draft draft₁ rfl hfield hread hdraft)

theorem named_tableEntry {entry : Node} {e : Effect} (hentry : entry ∈ n.inside)
    (h : tableEntry v entry = .ok e) : e.Finds (NamedInside v n) := by
  rw [tableEntry] at h
  split at h
  · cases h
  · cases h
    exact Effect.finds_none
  · cases h
    exact Effect.finds_none
  · rename_i name claims data hread
    cases h
    refine Effect.finds_single ?_
    intro name' data' s hf hs
    obtain ⟨rfl, rfl⟩ := Prod.mk.inj (Option.some.inj hf)
    -- Whatever name the draft holds was given by one of the values.
    have hgiven := readFields_keeps (P := fun draft => ∀ s, draft.data.display = some s →
      ∃ i value x, entry.parts[i]? = some value ∧
        fieldOfValue v i value = .ok (some (v.cfg.tableNameField, x)) ∧ literal? x = some s)
      hread (by simp) (by
        intro i value field x draft draft' hvalue hfield hread hdraft s hs
        rw [Nat.zero_add] at hfield
        rcases display_readField hread with hsame | ⟨rfl, hgiven⟩
        · exact hdraft s (hsame ▸ hs)
        · exact ⟨i, value, x, hvalue, hfield, hgiven ▸ hs⟩)
    obtain ⟨i, value, x, hvalue, hfield, hliteral⟩ := hgiven s hs
    have hin := mem_inside_of_valueOf? (List.mem_of_getElem? hvalue) (valueOf?_of_fieldOfValue hfield)
    exact ⟨x, Node.mem_inside_trans hentry (Node.mem_nodes_of_mem_inside hin),
      .field name data hvalue hfield, hliteral⟩

theorem named_declarator {d : Node} (external : Bool) (hd : d ∈ n.fields "declarator") :
    (declarator v s external d).Finds (NamedInside v n) := by
  rw [declarator]
  split
  · exact Effect.finds_none
  · rename_i x hx
    have hdeclared : ∀ isDefinition : Bool,
        (⟨[x.id], [foundAt v x (.declaration x.text isDefinition)]⟩ : Effect).Finds (NamedInside v n) :=
      fun isDefinition => Effect.finds_single (.of_none rfl)
    dsimp only
    split
    · rename_i call hcall
      split
      · refine (hdeclared _).append (named_registration _ ?_)
        exact mem_inside_of_initializer? hd (Option.filter_eq_some_iff.1 hcall).1
      · exact hdeclared _
    · exact hdeclared _

theorem named_declaration {e : Effect} (h : declaration v s n = .ok e) : e.Finds (NamedInside v n) := by
  rcases declaration_ok h with ⟨es, hentries, rfl⟩ | rfl | rfl
  · refine Effect.finds_all ?_
    intro e he
    obtain ⟨entry, hentry, he⟩ := exists_of_mem_mapM hentries he
    exact named_tableEntry (mem_inside_of_mem_tableEntries hentry) he
  · refine Effect.finds_all ?_
    intro e he
    obtain ⟨d, hd, rfl⟩ := List.mem_map.1 he
    exact named_declarator _ hd
  · exact Effect.finds_none

theorem named_fieldRead : (fieldRead v s claimed n).Finds (NamedInside v n) := by
  rw [fieldRead]
  split
  · split
    · exact Effect.finds_none
    · exact Effect.finds_single (.of_none rfl)
  · exact Effect.finds_none

theorem named_rangeCheck : (rangeCheck v s n).Finds (NamedInside v n) := by
  rw [rangeCheck]
  split
  · exact Effect.finds_none
  · split
    · exact Effect.finds_none
    · split
      · exact Effect.finds_single (.of_none rfl)
      · exact Effect.finds_none

theorem named_call : (Cvar.call v s claimed n).Finds (NamedInside v n) := by
  rw [Cvar.call]
  split
  · exact Effect.finds_none
  · split
    · exact Effect.finds_none
    · split
      · rw [setCall]
        split
        · exact Effect.finds_none
        · exact Effect.finds_single (.of_none rfl)
      · split
        · exact named_rangeCheck
        · exact Effect.finds_none

theorem named_assignment : (assignment v s n).Finds (NamedInside v n) := by
  rw [assignment]
  split
  · rename_i left right hleft hright
    split
    · exact Effect.Finds.append Effect.finds_none (named_registration _ (mem_inside_of_field? hright))
    · exact Effect.finds_none
  · exact Effect.finds_none

theorem named_addressOf : (addressOf v s claimed n).Finds (NamedInside v n) := by
  rw [addressOf]
  split
  · exact Effect.finds_none
  · split
    · exact Effect.finds_none
    · split
      · exact Effect.finds_none
      · exact Effect.finds_single (.of_none rfl)

theorem named_unrecognized : (unrecognized v s claimed n).Finds (NamedInside v n) := by
  rw [unrecognized]
  split
  · exact Effect.finds_none
  · exact Effect.finds_single (.of_none rfl)

theorem named_effectOf {e : Effect} (h : effectOf v s claimed n = .ok e) : e.Finds (NamedInside v n) := by
  rw [effectOf] at h
  split at h
  · exact named_declaration h
  · cases h
    exact named_fieldRead
  · cases h
    exact named_call
  · cases h
    exact named_assignment
  · cases h
    exact named_addressOf
  · cases h
    exact named_unrecognized
  · cases h
    exact Effect.finds_none

end Walk

/-- The name in a registration or a table entry is the content of a literal in the sources that gives
it. -/
theorem exists_givesName {cfg : Settings} {files : List Source} {findings : List Finding}
    (h : walkAll cfg files = .ok findings) {f : Finding} (hf : f ∈ findings) {name : String}
    {data : Registration} (hregistered : f.registered? = some (name, data)) {s : String}
    (hs : data.display = some s) :
    ∃ source ∈ files, ∃ x ∈ source.tree.nodes,
      GivesName ⟨cfg, collectGlobals cfg files, source⟩ f x ∧ literal? x = some s := by
  obtain ⟨source, hsource, n, hn, scope, claimed, e, he, hfound⟩ := foundBy_of_mem_walkAll h hf
  obtain ⟨x, hx, hgives, hliteral⟩ := named_effectOf he f hfound name data s hregistered hs
  exact ⟨source, hsource, x, Node.mem_nodes_trans _ hn (Node.mem_nodes_of_mem_inside hx), hgives,
    hliteral⟩

/-! ### Names in the ledger -/

theorem Finding.mem_facts_display_iff {f : Finding} {name s : String} :
    (name, .display s) ∈ f.facts ↔
      ∃ data, f.registered? = some (name, data) ∧ data.display = some s := by
  obtain ⟨shape, o⟩ := f
  cases shape <;>
    simp [facts, mem_about, registered?, Registration.facts, eq_comm]

section Analysis

variable {d : Disk} {cfg : Settings} {request : Request} {sources : List Path} {files : List Source}
  {a : Analysis} {findings : List Finding} {name : String} {r : Record}

/-- The names of an analysis are those of its findings. -/
theorem nameTable_of_analyzeFiles (h : analyzeFiles d cfg request sources files = .ok a)
    (hwalk : walkAll cfg files = .ok findings) :
    a.ledger.nameTable = (Ledger.empty.recordAll findings).nameTable := by
  have hrecorded := Ledger.ordered_empty.recordAll findings
  have hledger : (ledgerOf findings).nameTable = (Ledger.empty.recordAll findings).nameTable :=
    Ledger.nameTable_resolveWrites hrecorded
  obtain ⟨findings', hwalk', hfinish, -⟩ := analyzeFiles_ok h
  obtain rfl : findings = findings' := Except.ok.inj (hwalk.symm.trans hwalk')
  cases hscan : request.textScan with
  | false =>
      rw [hscan] at hfinish
      rw [← Except.ok.inj (Prod.mk.inj hfinish).1, Ledger.nameTable_scrub, hledger]
  | true =>
      rw [hscan] at hfinish
      obtain ⟨texts, hl, -, -⟩ := finish_texts hfinish
      rw [hl, Ledger.nameTable_scrub, Ledger.nameTable_scanTexts (ordered_ledgerOf findings), hledger]

/-- The display names of a cvar are the names that its registrations and table entries give. -/
theorem mem_displayNames_iff (h : analyzeFiles d cfg request sources files = .ok a)
    (hwalk : walkAll cfg files = .ok findings) (hget : a.ledger.get? name = some r) {s : String} :
    s ∈ r.displayNames ↔
      ∃ f ∈ findings, ∃ data, f.registered? = some (name, data) ∧ data.display = some s := by
  have hrecorded := Ledger.ordered_empty.recordAll findings
  obtain ⟨r', hget', hnames⟩ :=
    Ledger.displayNames_of_nameTable hrecorded (nameTable_of_analyzeFiles h hwalk) hget
  have hown : (Ledger.empty.recordAll findings).Tells name (.display s) ↔ s ∈ r'.displayNames := by
    simp [Ledger.Tells, hget', Record.Tells]
  rw [← hnames, ← hown, Ledger.tells_recordAll Ledger.ordered_empty, or_iff_right Ledger.not_tells_empty]
  simp only [Finding.mem_facts_display_iff]

/-- A migration shows the least of the names. -/
theorem displayName_le (h : analyzeFiles d cfg request sources files = .ok a)
    (hget : a.ledger.get? name = some r) (type : ValueType) (description : String) {s : String}
    (hs : s ∈ r.displayNames) :
    (Migration.mk name r type description).displayName ∈ r.displayNames ∧
      compare (Migration.mk name r type description).displayName s ≠ .gt := by
  have hascending : Data.Ascending compare r.displayNames :=
    ((Ledger.reachable_of_analyzeFiles h).tidy.records _ (Data.mem_of_lookupBy hget)).displayNames
  rw [Migration.displayName]
  cases hnames : r.displayNames with
  | nil => simp [hnames] at hs
  | cons t names =>
      rw [hnames] at hs hascending
      refine ⟨List.mem_cons_self, ?_⟩
      rcases List.mem_cons.1 hs with rfl | hs
      · simp
      · simp [(List.pairwise_cons.1 hascending).1 s hs]

/-- **Which literals denote the same when they are migrated**: the definition and the calls that write by
force have one literal for the name, and it denotes the characters of the name as the sources spell it.
The name is the least of those that registrations and table entries give.  Each of these is the content
of a literal that gives it; if this is the name that is shown, the literal that is written denotes the
same if and only if the content has no backslash. -/
theorem written_name_denotes_iff (h : analyzeFiles d cfg request sources files = .ok a)
    (hget : a.ledger.get? name = some r) (type : ValueType) (description : String) :
    let m : Migration := ⟨name, r, type, description⟩
    (m.definitionArgs.head? = some (quoted m.displayName) ∧
      (m.readOnly = true → ∀ value, m.writeCall value =
        "Cvar::SetValueForce(" ++ quoted m.displayName ++ ", " ++ Text.trim value ++ ")")) ∧
    (Diff.OneLine m.displayName →
      literalUnits? (quoted m.displayName) = some (Text.Utf8.encode m.displayName)) ∧
    ∃ findings, walkAll cfg files = .ok findings ∧
      ∀ f ∈ findings, ∀ data s, f.registered? = some (name, data) → data.display = some s →
        (compare m.displayName s ≠ .gt ∧ ∃ f' ∈ findings, ∃ data',
          f'.registered? = some (name, data') ∧ data'.display = some m.displayName) ∧
        ∃ source ∈ files, ∃ x ∈ source.tree.nodes,
          GivesName ⟨cfg, collectGlobals cfg files, source⟩ f x ∧ literal? x = some s ∧
          ∀ us, literalUnits? x.text = some us → s = m.displayName →
            (literalUnits? (quoted m.displayName) = some us ↔ '\\' ∉ s.toList) := by
  intro m
  refine ⟨⟨rfl, ?_⟩, ?_, ?_⟩
  · intro hreadOnly value
    rw [Migration.writeCall, if_pos hreadOnly]
  · intro hline
    rw [literalUnits?_quoted, if_neg hline, plainUnits_toList]
  · obtain ⟨findings, hwalk, -⟩ := analyzeFiles_ok h
    refine ⟨findings, hwalk, ?_⟩
    intro f hf data s hregistered hs
    have hshown := (mem_displayNames_iff h hwalk hget).2 ⟨f, hf, data, hregistered, hs⟩
    obtain ⟨hmem, hle⟩ := displayName_le h hget type description hshown
    obtain ⟨source, hsource, x, hx, hgives, hliteral⟩ := exists_givesName hwalk hf hregistered hs
    refine ⟨⟨hle, (mem_displayNames_iff h hwalk hget).1 hmem⟩, source, hsource, x, hx, hgives, hliteral, ?_⟩
    rintro us hus rfl
    exact literalUnits?_quoted_iff hliteral hus

end Analysis

/-! ### A name with a quote -/

/-- A source that registers a cvar which users cannot change, by a literal with this content. -/
def namedBy (content : String) : Source :=
  let k := content.utf8ByteSize
  sourceOf ("cvar_t *x = Cvar_Get(\"" ++ content ++ "\", \"0\", CVAR_ROM);\n")
    [partRow 1 "declaration" none 0 (k + 40), partRow 2 "type_identifier" (some "type") 0 6,
      partRow 2 "init_declarator" (some "declarator") 7 (k + 39),
      partRow 3 "pointer_declarator" (some "declarator") 7 9, markRow 4 "*" 7,
      partRow 4 "identifier" (some "declarator") 8 9, markRow 3 "=" 10,
      partRow 3 "call_expression" (some "value") 12 (k + 39),
      partRow 4 "identifier" (some "function") 12 20,
      partRow 4 "argument_list" (some "arguments") 20 (k + 39), markRow 5 "(" 20,
      partRow 5 "string_literal" none 21 (k + 23), markRow 5 "," (k + 23),
      partRow 5 "string_literal" none (k + 25) (k + 28), markRow 5 "," (k + 28),
      partRow 5 "identifier" none (k + 30) (k + 38), markRow 5 ")" (k + 38), markRow 2 ";" (k + 39)]

/-- The record of the cvar. -/
def namedByRecord (content : String) : Record :=
  ⟨[(.define, [⟨⟨"a.cpp"⟩, 1, 9⟩]), (.get, [⟨⟨"a.cpp"⟩, 1, 13⟩])], [content], ["CVAR_ROM"], [], ["\"0\""],
    []⟩

/-- What the walk of the source finds. -/
def namedByFindings (content : String) : List Finding :=
  [⟨.declaration "x" true, ⟨⟨"a.cpp"⟩, 1, 9⟩⟩,
    ⟨.registration "x" ⟨some content, some "\"0\"", ["CVAR_ROM"]⟩, ⟨⟨"a.cpp"⟩, 1, 13⟩⟩]

theorem written_name_denotes_iff_spaced :
    ∃ a, analyzeFiles ⟨[], []⟩ {} searching [⟨"a.cpp"⟩] [namedBy "my x"] = .ok a ∧
      a.ledger.get? "x" = some (namedByRecord "my x") ∧
      ∃ n ∈ (namedBy "my x").tree.nodes, literal? n = some "my x" ∧
        ∃ us, literalUnits? n.text = some us ∧ literalUnits? (quoted "my x") = some us := by
  have hcomputed : (analyzeFiles ⟨[], []⟩ {} searching [⟨"a.cpp"⟩] [namedBy "my x"]).toOption.map
      (fun a => a.ledger.get? "x") = some (some (namedByRecord "my x")) := by decide +kernel
  obtain ⟨a, ha, hget⟩ := Option.map_eq_some_iff.1 hcomputed
  have ha := ok_of_toOption ha
  have hwalk : walkAll {} [namedBy "my x"] = .ok (namedByFindings "my x") :=
    ok_of_toOption (by decide +kernel)
  have hliterals : ∀ n ∈ (namedBy "my x").tree.nodes, literal? n = some "my x" →
      literalUnits? n.text = some [0x6D, 0x79, 0x20, 0x78] := by decide +kernel
  obtain ⟨-, -, findings, hfindings, hnames⟩ := written_name_denotes_iff ha hget .int ""
  obtain rfl : namedByFindings "my x" = findings := Except.ok.inj (hwalk.symm.trans hfindings)
  obtain ⟨-, source, hsource, n, hn, -, hliteral, hiff⟩ :=
    hnames _ (List.mem_cons_of_mem _ List.mem_cons_self) _ "my x" rfl rfl
  obtain rfl := List.mem_singleton.1 hsource
  have hus := hliterals n hn hliteral
  exact ⟨a, ha, hget, n, hn, hliteral, _, hus, (hiff _ hus rfl).2 (by decide)⟩

/-- **An escape is escaped again**: a name with a quote in it is written with a backslash in front of the
quote, into the definition and into the calls that write by force. -/
theorem escape_escaped_again :
    ∃ a, analyzeFiles ⟨[], []⟩ {} searching [⟨"a.cpp"⟩] [namedBy "x\\\"y"] = .ok a ∧
      a.ledger.get? "x" = some (namedByRecord "x\\\"y") ∧
      (∃ n ∈ (namedBy "x\\\"y").tree.nodes, n.kind = "string_literal" ∧ n.text = "\"x\\\"y\"") ∧
      (Migration.definition ⟨"x", namedByRecord "x\\\"y", .int, ""⟩ "" false =
          "Cvar::Cvar<int> x(\"x\\\\\\\"y\", \"\", Cvar::ROM, 0);" ∧
        Migration.writeCall ⟨"x", namedByRecord "x\\\"y", .int, ""⟩ "1" =
          "Cvar::SetValueForce(\"x\\\\\\\"y\", 1)") ∧
      literalUnits? "\"x\\\"y\"" = some [0x78, 0x22, 0x79] ∧
      literalUnits? "\"x\\\\\\\"y\"" = some [0x78, 0x5C, 0x22, 0x79] := by
  have hcomputed : (analyzeFiles ⟨[], []⟩ {} searching [⟨"a.cpp"⟩] [namedBy "x\\\"y"]).toOption.map
      (fun a => a.ledger.get? "x") = some (some (namedByRecord "x\\\"y")) := by decide +kernel
  obtain ⟨a, ha, hget⟩ := Option.map_eq_some_iff.1 hcomputed
  refine ⟨a, ok_of_toOption ha, hget, ?_, ?_, ?_⟩
  · decide +kernel
  · decide +kernel
  · decide +kernel

end Cvar

end Upkeep
