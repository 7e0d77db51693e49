/-
**Claims and findings go together.**

A node of a known shape claims the nodes that it is made of, and these are passed over when the walk
comes to them.  So a mention would be lost if something claimed it without a finding, and counted twice
if something found it without a claim.  Neither happens at any node.

Main definitions:

* `Upkeep.Cvar.AccountsFor` — the findings that account for an identifier;
* `Upkeep.Cvar.Effect.AccountsForClaim`, `Upkeep.Cvar.Effect.Accounted` — a claim that goes with a finding,
  and effects that claim nothing without one.

Main results:

* `Upkeep.Cvar.accounted_effectOf` — what a node claims it accounts for;
* `Upkeep.Cvar.claims_of_accountsFor` — what a node accounts for it claims, unless it is given by its
  address in a table.
-/

import Upkeep.Proofs.Cvar.Steps

set_option relaxedAutoImplicit false
set_option autoImplicit false

namespace Upkeep

namespace Cvar

open Cpp

/-! ### What accounts for a mention -/

/-- The value of an element of a table entry, which may be given with a field name. -/
def valueOf? (element : Node) : Option Node :=
  if element.kind == "initializer_pair" then element.field? "value" else some element

/-- What is reported about an identifier: it is declared, read or not recognised itself, its address
is taken, it or its address is the first argument of a range check, a call is assigned to it or gives
it its value, or its address stands in a table entry. -/
inductive AccountsFor (v : Survey) (n : Node) : Report → Prop where
  | declared {m d : Node} {isDefinition : Bool} (hm : m.kind = "declaration")
      (hd : d ∈ m.fields "declarator") (hn : declaredBy? d = some n) :
      AccountsFor v n ⟨m, foundAt v n (.declaration n.text isDefinition)⟩
  | read {m : Node} {kind : ReadKind} (hm : m.kind = "field_expression")
      (hn : m.field? "argument" = some n) :
      AccountsFor v n ⟨m, foundAt v n (.fieldRead n.text kind)⟩
  | unrecognized {context : String} :
      AccountsFor v n ⟨n, foundAt v n (.unrecognized n.text context)⟩
  | address {m : Node} (hn : address? m = some n) :
      AccountsFor v n ⟨m, foundAt v m (.addressOf n.text)⟩
  | checked {m first : Node} {min max : String} (hm : m.kind = "call_expression")
      (hfirst : (arguments m)[0]? = some first) (hn : first = n ∨ address? first = some n) :
      AccountsFor v n ⟨m, foundAt v m (.rangeCheck n.text min max)⟩
  | assigned {m call : Node} {data : Registration} (hm : m.kind = "assignment_expression")
      (hn : m.field? "left" = some n) (hcall : m.field? "right" = some call) :
      AccountsFor v n ⟨m, foundAt v call (.registration n.text data)⟩
  | initialized {m d call : Node} {data : Registration} (hm : m.kind = "declaration")
      (hd : d ∈ m.fields "declarator") (hn : declaredBy? d = some n)
      (hcall : initializer? d = some call) :
      AccountsFor v n ⟨m, foundAt v call (.registration n.text data)⟩
  | entered {m entry element value : Node} {data : Registration} (hm : m.kind = "declaration")
      (hentry : entry ∈ tableEntries m) (helement : element ∈ entry.parts)
      (hvalue : valueOf? element = some value) (hn : address? value = some n) :
      AccountsFor v n ⟨m, foundAt v entry (.tableEntry n.text data)⟩

/-! ### Kinds of nodes -/

section Kinds

variable {m n x : Node}

theorem kind_of_address? (h : address? m = some x) :
    m.kind = "pointer_expression" ∧ m.field? "argument" = some x ∧ x.kind = "identifier" := by
  rw [address?] at h
  split at h
  · rename_i hm
    obtain ⟨hfield, hx⟩ := Option.filter_eq_some_iff.1 h
    simp only [Bool.and_eq_true, beq_iff_eq] at hm hx
    exact ⟨hm.1, hfield, hx⟩
  · cases h

theorem address?_eq_none (h : m.kind ≠ "pointer_expression") : address? m = none := by
  rw [Option.eq_none_iff_forall_ne_some]
  intro x hx
  exact h (kind_of_address? hx).1

theorem mem_inside_of_address? (h : address? m = some x) : x ∈ m.inside :=
  Node.mem_inside_of_mem_children (Node.mem_children_of_field? (kind_of_address? h).2.1)

/-- A declarator introduces a variable that is written in it. -/
theorem declaredBy?_spec (d : Node) :
    ∀ x, declaredBy? d = some x → isVariableKind x.kind = true ∧ x ∈ d.nodes := by
  induction d using declaredBy?.induct with
  | case1 d hkind =>
      intro x hx
      rw [declaredBy?, if_pos hkind] at hx
      cases hx
      exact ⟨hkind, d.mem_nodes_self⟩
  | case2 d hkind hwrapper c hinner ih =>
      intro x hx
      rw [declaredBy?, if_neg hkind, if_pos hwrapper] at hx
      split at hx
      · rename_i c' hc'
        rw [hinner, Option.some.injEq] at hc'
        obtain rfl := hc'
        obtain ⟨hx, hmem⟩ := ih x hx
        refine ⟨hx, ?_⟩
        have hc := Node.mem_inside_of_mem_children (mem_children_of_innerDeclarator? hinner)
        exact Node.mem_nodes_of_mem_inside (Node.mem_inside_trans hc hmem)
      · cases hx
  | case3 d hkind hwrapper hinner =>
      intro x hx
      rw [declaredBy?, if_neg hkind, if_pos hwrapper] at hx
      split at hx
      · rename_i c' hc'
        rw [hinner] at hc'
        cases hc'
      · cases hx
  | case4 d hkind hwrapper =>
      intro x hx
      rw [declaredBy?, if_neg hkind, if_neg hwrapper] at hx
      cases hx

theorem mem_inside_of_mem_fields {f : String} (h : x ∈ m.fields f) : x ∈ m.inside :=
  Node.mem_inside_of_mem_children (Node.mem_children_of_mem_fields h)

theorem mem_inside_of_field? {f : String} (h : m.field? f = some x) : x ∈ m.inside :=
  Node.mem_inside_of_mem_children (Node.mem_children_of_field? h)

theorem mem_inside_of_declared {d : Node} (hd : d ∈ m.fields "declarator")
    (hx : declaredBy? d = some x) : x ∈ m.inside :=
  Node.mem_inside_trans (mem_inside_of_mem_fields hd) (declaredBy?_spec d x hx).2

/-- The value of a declarator is written in it. -/
theorem mem_inside_of_initializer? {d call : Node} (hd : d ∈ m.fields "declarator")
    (hcall : initializer? d = some call) : call ∈ m.inside := by
  rw [initializer?] at hcall
  split at hcall
  · have hin := Node.mem_nodes_of_mem_inside (mem_inside_of_field? hcall)
    exact Node.mem_inside_trans (mem_inside_of_mem_fields hd) hin
  · cases hcall

theorem mem_inside_of_mem_parts (h : x ∈ m.parts) : x ∈ m.inside :=
  Node.mem_inside_of_mem_children (Node.mem_children_of_mem_parts h)

/-- The arguments of a call are written in it. -/
theorem mem_inside_of_mem_arguments (h : x ∈ arguments m) : x ∈ m.inside := by
  rw [arguments] at h
  cases hargs : m.field? "arguments" with
  | none =>
      rw [hargs] at h
      simp at h
  | some list =>
      rw [hargs] at h
      have hin := Node.mem_nodes_of_mem_inside (mem_inside_of_mem_parts h)
      exact Node.mem_inside_trans (mem_inside_of_field? hargs) hin

/-- The entries of the tables of a declaration are written in it. -/
theorem mem_inside_of_mem_tableEntries (h : x ∈ tableEntries m) : x ∈ m.inside := by
  obtain ⟨list, hlist, hx⟩ := List.mem_flatMap.1 h
  obtain ⟨d, hd, hlist⟩ := List.mem_filterMap.1 hlist
  have hlist := mem_inside_of_field? (Option.filter_eq_some_iff.1 hlist).1
  have hx := mem_inside_of_mem_parts (List.mem_filter.1 hx).1
  have hin := Node.mem_nodes_of_mem_inside (Node.mem_inside_trans hlist (Node.mem_nodes_of_mem_inside hx))
  exact Node.mem_inside_trans (mem_inside_of_mem_fields hd) hin

/-- The values of a table entry are written in it. -/
theorem mem_inside_of_valueOf? {element value : Node} (helement : element ∈ m.parts)
    (hvalue : valueOf? element = some value) : value ∈ m.inside := by
  refine Node.mem_inside_trans (mem_inside_of_mem_parts helement) ?_
  rw [valueOf?] at hvalue
  split at hvalue
  · exact Node.mem_nodes_of_mem_inside (mem_inside_of_field? hvalue)
  · cases hvalue
    exact Node.mem_nodes_self _

end Kinds

/-! ### What is claimed is accounted for -/

/-- A node that an effect of another node claims: it lies in that node; if it is an identifier, a finding
of a known shape accounts for it; and if it takes an address, what it takes the address of is claimed as
well. -/
def Effect.AccountsForClaim (v : Survey) (m : Node) (e : Effect) (c : Nat) : Prop :=
  ∃ x ∈ m.nodes, x.id = c ∧
    (x.kind = "identifier" → ∃ f ∈ e.finds, f.shape.isKnown = true ∧ AccountsFor v x ⟨m, f⟩) ∧
    ∀ y, address? x = some y → y.id ∈ e.claims

/-- Whatever an effect of a node claims, it accounts for. -/
def Effect.Accounted (v : Survey) (m : Node) (e : Effect) : Prop :=
  ∀ c ∈ e.claims, e.AccountsForClaim v m c

variable {v : Survey} {s : Scope} {claimed : List Nat} {m n : Node}

namespace Effect

theorem accounted_none : none.Accounted v m := by simp [Accounted, none]

theorem Accounted.append {a b : Effect} (ha : a.Accounted v m) (hb : b.Accounted v m) :
    (a ++ b).Accounted v m := by
  intro c hc
  rcases List.mem_append.1 hc with hc | hc
  · obtain ⟨x, hx, hid, hfound, haddress⟩ := ha c hc
    refine ⟨x, hx, hid, ?_, fun y hy => List.mem_append_left _ (haddress y hy)⟩
    intro hkind
    obtain ⟨f, hf, hknown⟩ := hfound hkind
    exact ⟨f, List.mem_append_left _ hf, hknown⟩
  · obtain ⟨x, hx, hid, hfound, haddress⟩ := hb c hc
    refine ⟨x, hx, hid, ?_, fun y hy => List.mem_append_right _ (haddress y hy)⟩
    intro hkind
    obtain ⟨f, hf, hknown⟩ := hfound hkind
    exact ⟨f, List.mem_append_right _ hf, hknown⟩

theorem accounted_all {es : List Effect} (h : ∀ e ∈ es, e.Accounted v m) :
    (all es).Accounted v m := by
  induction es with
  | nil => exact accounted_none
  | cons e es ih =>
      rw [all_cons]
      exact (h e List.mem_cons_self).append (ih fun e' he' => h e' (List.mem_cons_of_mem _ he'))

section Claims

variable {e : Effect} {x : Node}

/-- What takes no address is claimed with a finding that accounts for it. -/
theorem accountsForClaim_of_finding {f : Finding} (hx : x ∈ m.nodes)
    (hkind : x.kind ≠ "pointer_expression") (hmem : f ∈ e.finds) (hknown : f.shape.isKnown = true)
    (hf : AccountsFor v x ⟨m, f⟩) : e.AccountsForClaim v m x.id := by
  refine ⟨x, hx, rfl, fun _ => ⟨f, hmem, hknown, hf⟩, ?_⟩
  intro y hy
  rw [address?_eq_none hkind] at hy
  cases hy

/-- A call is neither an identifier nor an address. -/
theorem accountsForClaim_of_call (hx : x ∈ m.nodes) (hkind : x.kind = "call_expression") :
    e.AccountsForClaim v m x.id := by
  refine ⟨x, hx, rfl, ?_, ?_⟩
  · intro hid
    simp [hkind] at hid
  · intro y hy
    rw [address?_eq_none (by simp [hkind])] at hy
    cases hy

/-- An address is claimed together with what it is the address of. -/
theorem accountsForClaim_of_address {y : Node} (hx : x ∈ m.nodes) (hy : address? x = some y)
    (hmem : y.id ∈ e.claims) : e.AccountsForClaim v m x.id := by
  refine ⟨x, hx, rfl, ?_, ?_⟩
  · intro hid
    simp [(kind_of_address? hy).1] at hid
  · intro y' hy'
    rw [hy, Option.some.injEq] at hy'
    rwa [← hy']

/-- One identifier is claimed, with a finding that accounts for it. -/
theorem accounted_one {f : Finding} (hx : x ∈ m.nodes) (hkind : x.kind ≠ "pointer_expression")
    (hknown : f.shape.isKnown = true) (hf : AccountsFor v x ⟨m, f⟩) :
    (⟨[x.id], [f]⟩ : Effect).Accounted v m := by
  intro c hc
  obtain rfl := List.mem_singleton.1 hc
  exact accountsForClaim_of_finding hx hkind (List.mem_singleton_self f) hknown hf

/-- A call is claimed. -/
theorem accounted_call {fs : List Finding} (hx : x ∈ m.nodes) (hkind : x.kind = "call_expression") :
    (⟨[x.id], fs⟩ : Effect).Accounted v m := by
  intro c hc
  obtain rfl := List.mem_singleton.1 hc
  exact accountsForClaim_of_call hx hkind

end Claims

end Effect

theorem ne_pointer_of_isVariableKind {x : Node} (h : isVariableKind x.kind = true) :
    x.kind ≠ "pointer_expression" := by
  intro hkind
  rw [hkind] at h
  cases h

theorem accounted_registration {call : Node} (name : String) (hcall : call ∈ m.nodes)
    (hkind : call.kind = "call_expression") : (registration v name call).Accounted v m := by
  rw [registration]
  split
  · exact Effect.accounted_call hcall hkind
  · exact Effect.accounted_none

theorem accounted_declarator {d : Node} (external : Bool) (hm : m.kind = "declaration")
    (hd : d ∈ m.fields "declarator") : (declarator v s external d).Accounted v m := by
  rw [declarator]
  split
  · exact Effect.accounted_none
  · rename_i x hx
    have hdeclared : ∀ isDefinition : Bool,
        (⟨[x.id], [foundAt v x (.declaration x.text isDefinition)]⟩ : Effect).Accounted v m := by
      intro isDefinition
      refine Effect.accounted_one (Node.mem_nodes_of_mem_inside (mem_inside_of_declared hd hx)) ?_ rfl
        (.declared hm hd hx)
      exact ne_pointer_of_isVariableKind (declaredBy?_spec d x hx).1
    dsimp only
    split
    · rename_i call hcall
      obtain ⟨hcall, hkind⟩ := Option.filter_eq_some_iff.1 hcall
      split
      · refine (hdeclared _).append (accounted_registration _ ?_ (by simpa using hkind))
        exact Node.mem_nodes_of_mem_inside (mem_inside_of_initializer? hd hcall)
      · exact hdeclared _
    · exact hdeclared _

/-- A value of a table entry that was read with its field is the value of an element. -/
theorem valueOf?_of_fieldOfValue {i : Nat} {element value : Node} {field : String}
    (h : fieldOfValue v i element = .ok (some (field, value))) : valueOf? element = some value := by
  rw [fieldOfValue] at h
  rw [valueOf?]
  split at h
  · rename_i hpair
    rw [if_pos hpair]
    cases hvalue : element.field? "value" with
    | none =>
        rw [hvalue] at h
        cases h
    | some value' =>
        rw [hvalue] at h
        cases h
        rfl
  · rename_i hpair
    rw [if_neg hpair]
    split at h
    · cases h
      rfl
    · cases h

/-- The cvar that a table entry names is the one whose address is one of its values. -/
theorem readField_ok {draft draft' : EntryDraft} {field : String} {value : Node}
    (h : readField v draft field value = .ok (.reading draft')) :
    draft'.cvar = draft.cvar ∨ ∃ target, address? value = some target ∧
      isPlainName target.text = true ∧ draft'.cvar = some (target.text, [value.id, target.id]) := by
  rw [readField] at h
  split at h
  · split at h
    · cases h
    · split at h
      · cases h
      · rename_i target htarget
        split at h
        · rename_i hplain
          cases h
          exact .inr ⟨target, htarget, hplain, rfl⟩
        · cases h
  · left
    split at h
    · split at h
      · cases h
      · cases h
        rfl
    · split at h
      · cases h
        rfl
      · split at h <;>
          · cases h
            rfl

theorem readFields_ok {draft draft' : EntryDraft} {i : Nat} {elements : List Node}
    (h : readFields v draft i elements = .ok (.reading draft')) :
    draft'.cvar = draft.cvar ∨ ∃ element ∈ elements, ∃ value target,
      valueOf? element = some value ∧ address? value = some target ∧
      isPlainName target.text = true ∧ draft'.cvar = some (target.text, [value.id, target.id]) := by
  induction elements generalizing draft i with
  | nil =>
      cases h
      exact .inl rfl
  | cons element elements ih =>
      rw [readFields] at h
      have hrest : ∀ {draft₁}, readFields v draft₁ (i + 1) elements = .ok (.reading draft') →
          draft'.cvar = draft₁.cvar ∨ ∃ element' ∈ element :: elements, ∃ value target,
            valueOf? element' = some value ∧ address? value = some target ∧
            isPlainName target.text = true ∧
            draft'.cvar = some (target.text, [value.id, target.id]) := by
        intro draft₁ h₁
        rcases ih h₁ with h₁ | ⟨element', hmem, hread⟩
        · exact .inl h₁
        · exact .inr ⟨element', List.mem_cons_of_mem _ hmem, hread⟩
      cases hfield : fieldOfValue v i element with
      | error reason =>
          rw [hfield] at h
          cases h
      | ok found =>
          rw [hfield] at h
          cases found with
          | none => exact hrest h
          | some pair =>
              obtain ⟨field, value⟩ := pair
              cases hread : readField v draft field value with
              | error reason =>
                  simp only [hread, bind, Except.bind] at h
                  cases h
              | ok state =>
                  simp only [hread, bind, Except.bind] at h
                  cases state with
                  | skipped => cases h
                  | reading draft₁ =>
                      rcases hrest h with h₁ | h₁
                      · rcases readField_ok hread with h₂ | ⟨target, htarget, hplain, h₂⟩
                        · exact .inl (h₁.trans h₂)
                        · exact .inr ⟨element, List.mem_cons_self, value, target,
                            valueOf?_of_fieldOfValue hfield, htarget, hplain, h₁.trans h₂⟩
                      · exact .inr h₁

/-- What a table entry does: nothing, or it names the cvar whose address is one of its values. -/
theorem tableEntry_ok {entry : Node} {e : Effect} (h : tableEntry v entry = .ok e) :
    e = .none ∨ ∃ element ∈ entry.parts, ∃ value target data,
      valueOf? element = some value ∧ address? value = some target ∧
      isPlainName target.text = true ∧
      e = ⟨[value.id, target.id], [foundAt v entry (.tableEntry target.text data)]⟩ := by
  rw [tableEntry] at h
  split at h
  · cases h
  · cases h
    exact .inl rfl
  · cases h
    exact .inl rfl
  · rename_i name claims data hread
    cases h
    rcases readFields_ok hread with hcvar | ⟨element, helement, value, target, hvalue, htarget,
      hplain, hcvar⟩
    · cases hcvar
    · cases hcvar
      exact .inr ⟨element, helement, value, target, data, hvalue, htarget, hplain, rfl⟩

theorem accounted_tableEntry {entry : Node} {e : Effect} (hm : m.kind = "declaration")
    (hentry : entry ∈ tableEntries m) (h : tableEntry v entry = .ok e) : e.Accounted v m := by
  rcases tableEntry_ok h with rfl | ⟨element, helement, value, target, data, hvalue, htarget, -, rfl⟩
  · exact Effect.accounted_none
  · have hin := mem_inside_of_mem_tableEntries hentry
    have hvaluein := Node.mem_inside_trans hin
      (Node.mem_nodes_of_mem_inside (mem_inside_of_valueOf? helement hvalue))
    have htargetin := Node.mem_inside_trans hvaluein
      (Node.mem_nodes_of_mem_inside (mem_inside_of_address? htarget))
    intro c hc
    rcases List.mem_cons.1 hc with rfl | hc
    · exact Effect.accountsForClaim_of_address (Node.mem_nodes_of_mem_inside hvaluein) htarget
        (List.mem_cons_of_mem _ (List.mem_singleton_self _))
    · obtain rfl := List.mem_singleton.1 hc
      exact Effect.accountsForClaim_of_finding (Node.mem_nodes_of_mem_inside htargetin)
        (by simp [(kind_of_address? htarget).2.2]) (List.mem_singleton_self _) rfl
        (.entered hm hentry helement hvalue htarget)

/-- What a declaration does: what the entries of its tables do, what its declarators do, or nothing. -/
theorem declaration_ok {e : Effect} (h : declaration v s m = .ok e) :
    (∃ es, (tableEntries m).mapM (tableEntry v) = .ok es ∧ e = .all es) ∨
      e = .all ((m.fields "declarator").map (declarator v s (isExternal m))) ∨ e = .none := by
  rw [declaration] at h
  split at h
  · cases hentries : (tableEntries m).mapM (tableEntry v) with
    | error e =>
        rw [hentries] at h
        cases h
    | ok es =>
        rw [hentries] at h
        cases h
        exact .inl ⟨es, rfl, rfl⟩
  · split at h
    · cases h
      exact .inr (.inl rfl)
    · cases h
      exact .inr (.inr rfl)

theorem accounted_declaration {e : Effect} (hm : m.kind = "declaration")
    (h : declaration v s m = .ok e) : e.Accounted v m := by
  rcases declaration_ok h with ⟨es, hentries, rfl⟩ | rfl | rfl
  · apply Effect.accounted_all
    intro e he
    obtain ⟨entry, hentry, he⟩ := exists_of_mem_mapM hentries he
    exact accounted_tableEntry hm hentry he
  · apply Effect.accounted_all
    intro e he
    obtain ⟨d, hd, rfl⟩ := List.mem_map.1 he
    exact accounted_declarator _ hm hd
  · exact Effect.accounted_none

theorem accounted_fieldRead (hm : m.kind = "field_expression") :
    (fieldRead v s claimed m).Accounted v m := by
  rw [fieldRead]
  split
  · rename_i x kind hx _
    obtain ⟨hx, hkind⟩ := Option.filter_eq_some_iff.1 hx
    rw [beq_iff_eq] at hkind
    split
    · exact Effect.accounted_none
    · exact Effect.accounted_one (Node.mem_nodes_of_mem_inside (mem_inside_of_field? hx))
        (by simp [hkind]) rfl (.read hm hx)
  · exact Effect.accounted_none

/-- A range check is about its first argument, or about what that is the address of. -/
theorem checked_spec {first x : Node}
    (h : (address? first).or (if first.kind == "identifier" then some first else none) = some x) :
    x.kind = "identifier" ∧ x ∈ first.nodes ∧ (first = x ∨ address? first = some x) := by
  cases haddress : address? first with
  | some y =>
      rw [haddress, Option.some_or, Option.some.injEq] at h
      subst h
      exact ⟨(kind_of_address? haddress).2.2,
        Node.mem_nodes_of_mem_inside (mem_inside_of_address? haddress), .inr rfl⟩
  | none =>
      rw [haddress, Option.none_or] at h
      split at h
      · rename_i hkind
        cases h
        exact ⟨by simpa using hkind, first.mem_nodes_self, .inl rfl⟩
      · cases h

/-- A range check claims its first argument, what that is about, and itself. -/
theorem accounted_rangeCheck (hm : m.kind = "call_expression") :
    (rangeCheck v s m).Accounted v m := by
  rw [rangeCheck]
  split
  · exact Effect.accounted_none
  · rename_i first hfirst
    split
    · exact Effect.accounted_none
    · rename_i x hx
      split
      · obtain ⟨hkind, hxin, htarget⟩ := checked_spec hx
        have hin := mem_inside_of_mem_arguments (List.mem_of_getElem? hfirst)
        have hx : ∀ {e : Effect}, foundAt v m (.rangeCheck x.text (argumentText (arguments m) 1)
            (argumentText (arguments m) 2)) ∈ e.finds → e.AccountsForClaim v m x.id :=
          fun hmem => Effect.accountsForClaim_of_finding
            (Node.mem_nodes_of_mem_inside (Node.mem_inside_trans hin hxin)) (by simp [hkind]) hmem rfl
            (.checked hm hfirst htarget)
        intro c hc
        simp only [List.mem_cons, List.not_mem_nil, or_false] at hc
        rcases hc with rfl | rfl | rfl
        · rcases htarget with rfl | haddress
          · exact hx (List.mem_singleton_self _)
          · exact Effect.accountsForClaim_of_address (Node.mem_nodes_of_mem_inside hin) haddress (by simp)
        · exact hx (List.mem_singleton_self _)
        · exact Effect.accountsForClaim_of_call m.mem_nodes_self hm
      · exact Effect.accounted_none

theorem accounted_call (hm : m.kind = "call_expression") : (call v s claimed m).Accounted v m := by
  rw [call]
  split
  · exact Effect.accounted_none
  · split
    · exact Effect.accounted_none
    · split
      · rw [setCall]
        split
        · exact Effect.accounted_none
        · exact Effect.accounted_call m.mem_nodes_self hm
      · split
        · exact accounted_rangeCheck hm
        · exact Effect.accounted_none

theorem accounted_assignment (hm : m.kind = "assignment_expression") :
    (assignment v s m).Accounted v m := by
  rw [assignment]
  split
  · rename_i left right hleft hright
    split
    · rename_i hshape
      simp only [Bool.and_eq_true, beq_iff_eq] at hshape
      obtain ⟨⟨⟨hleftkind, hrightkind⟩, -⟩, hget⟩ := hshape
      -- The call registers, so the finding is there.
      rw [registration, if_pos hget]
      have hl : (⟨[left.id], [foundAt v right (.registration left.text (registrationOf right))]⟩ :
          Effect).Accounted v m :=
        Effect.accounted_one (Node.mem_nodes_of_mem_inside (mem_inside_of_field? hleft))
          (by simp [hleftkind]) rfl (.assigned hm hleft hright)
      have hr : (⟨[right.id], []⟩ : Effect).Accounted v m :=
        Effect.accounted_call (Node.mem_nodes_of_mem_inside (mem_inside_of_field? hright)) hrightkind
      exact hl.append hr
    · exact Effect.accounted_none
  · exact Effect.accounted_none

theorem accounted_addressOf : (addressOf v s claimed m).Accounted v m := by
  rw [addressOf]
  split
  · exact Effect.accounted_none
  · split
    · exact Effect.accounted_none
    · rename_i x hx
      split
      · exact Effect.accounted_none
      · exact Effect.accounted_one (Node.mem_nodes_of_mem_inside (mem_inside_of_address? hx))
          (by simp [(kind_of_address? hx).2.2]) rfl (.address hx)

/-- What a node claims it accounts for. -/
theorem accounted_effectOf {e : Effect} (h : effectOf v s claimed m = .ok e) : e.Accounted v m := by
  rw [effectOf] at h
  split at h
  · rename_i hm
    exact accounted_declaration hm h
  · rename_i hm
    cases h
    exact accounted_fieldRead hm
  · rename_i hm
    cases h
    exact accounted_call hm
  · rename_i hm
    cases h
    exact accounted_assignment hm
  · cases h
    exact accounted_addressOf
  · cases h
    rw [unrecognized]
    split
    · exact Effect.accounted_none
    · simp [Effect.Accounted]
  · cases h
    exact Effect.accounted_none

/-! ### What is accounted for is claimed -/

/-- The findings of the entries of tables name their cvars by plain names. -/
theorem tableEntry_of_mem {es : List Effect} {entries : List Node} {f : Finding}
    (hentries : entries.mapM (tableEntry v) = .ok es) (hf : f ∈ (Effect.all es).finds) :
    ∃ name data, isPlainName name = true ∧ f.shape = .tableEntry name data := by
  obtain ⟨e, he, hf⟩ := List.mem_flatMap.1 hf
  obtain ⟨entry, -, he⟩ := exists_of_mem_mapM hentries he
  rcases tableEntry_ok he with rfl | ⟨_, _, _, target, data, -, -, hplain, rfl⟩
  · cases hf
  · obtain rfl := List.mem_singleton.1 hf
    exact ⟨target.text, data, hplain, rfl⟩

/-- Declarators find no table entries. -/
theorem ne_tableEntry_of_mem_declarator {d : Node} {external : Bool} {f : Finding}
    (hf : f ∈ (declarator v s external d).finds) (name : String) (data : Registration) :
    f.shape ≠ .tableEntry name data := by
  rw [declarator] at hf
  split at hf
  · cases hf
  · rename_i x hx
    -- The variable is declared, and perhaps registered.
    have hshape : (∃ isDefinition, f = foundAt v x (.declaration x.text isDefinition)) ∨
        ∃ call, f ∈ (registration v x.text call).finds := by
      dsimp only at hf
      split at hf
      · split at hf
        · rcases List.mem_append.1 hf with hf | hf
          · exact .inl ⟨_, List.mem_singleton.1 hf⟩
          · exact .inr ⟨_, hf⟩
        · exact .inl ⟨_, List.mem_singleton.1 hf⟩
      · exact .inl ⟨_, List.mem_singleton.1 hf⟩
    rcases hshape with ⟨isDefinition, rfl⟩ | ⟨call, hf⟩
    · simp [foundAt]
    · rw [registration] at hf
      split at hf
      · obtain rfl := List.mem_singleton.1 hf
        simp [foundAt]
      · cases hf

/-- A declarator claims the variable that it introduces. -/
theorem mem_claims_declarator {d x : Node} (external : Bool) (hx : declaredBy? d = some x) :
    x.id ∈ (declarator v s external d).claims := by
  rw [declarator, hx]
  dsimp only
  split
  · split
    · exact List.mem_append_left _ (List.mem_singleton_self _)
    · exact List.mem_singleton_self _
  · exact List.mem_singleton_self _

/-- A declaration that finds something else than table entries claims its variables. -/
theorem mem_claims_declaration {d x : Node} {e : Effect} {f : Finding}
    (h : declaration v s m = .ok e) (hf : f ∈ e.finds)
    (htable : ∀ name data, f.shape ≠ .tableEntry name data) (hd : d ∈ m.fields "declarator")
    (hx : declaredBy? d = some x) : x.id ∈ e.claims := by
  rcases declaration_ok h with ⟨es, hentries, rfl⟩ | rfl | rfl
  · obtain ⟨name, data, -, hshape⟩ := tableEntry_of_mem hentries hf
    exact absurd hshape (htable name data)
  · exact List.mem_flatMap.2 ⟨_, List.mem_map_of_mem hd, mem_claims_declarator _ hx⟩
  · cases hf

/-- A declaration that finds a table entry finds it by a plain name. -/
theorem plain_of_tableEntry {e : Effect} {f : Finding} {name : String} {data : Registration}
    (h : declaration v s m = .ok e) (hf : f ∈ e.finds) (hshape : f.shape = .tableEntry name data) :
    isPlainName name = true := by
  rcases declaration_ok h with ⟨es, hentries, rfl⟩ | rfl | rfl
  · obtain ⟨name', data', hplain, hshape'⟩ := tableEntry_of_mem hentries hf
    rw [hshape, Shape.tableEntry.injEq] at hshape'
    rwa [hshape'.1]
  · obtain ⟨e, he, hf⟩ := List.mem_flatMap.1 hf
    obtain ⟨d, -, rfl⟩ := List.mem_map.1 he
    exact absurd hshape (ne_tableEntry_of_mem_declarator hf name data)
  · cases hf

theorem mem_claims_fieldRead (hn : m.field? "argument" = some n) {f : Finding}
    (hf : f ∈ (fieldRead v s claimed m).finds) : n.id ∈ (fieldRead v s claimed m).claims := by
  revert hf
  rw [fieldRead]
  split
  · rename_i x kind hx _
    rw [hn, Option.filter_eq_some_iff, Option.some.injEq] at hx
    obtain rfl := hx.1
    split
    · intro hf
      cases hf
    · intro _
      exact List.mem_singleton_self _
  · intro hf
    cases hf

theorem mem_claims_addressOf (hn : address? m = some n) {f : Finding}
    (hf : f ∈ (addressOf v s claimed m).finds) : n.id ∈ (addressOf v s claimed m).claims := by
  revert hf
  rw [addressOf, hn]
  dsimp only
  split
  · intro hf
    cases hf
  · split
    · intro hf
      cases hf
    · intro _
      exact List.mem_singleton_self _

theorem mem_claims_assignment (hn : m.field? "left" = some n) {f : Finding}
    (hf : f ∈ (assignment v s m).finds) : n.id ∈ (assignment v s m).claims := by
  revert hf
  rw [assignment, hn]
  split
  · rename_i left right hleft hright
    cases hleft
    split
    · intro _
      exact List.mem_append_left _ (List.mem_singleton_self _)
    · intro hf
      cases hf
  · intro hf
    cases hf

theorem mem_claims_rangeCheck {first : Node} (hfirst : (arguments m)[0]? = some first)
    (hn : first = n ∨ address? first = some n) {f : Finding} (hf : f ∈ (rangeCheck v s m).finds) :
    n.id ∈ (rangeCheck v s m).claims := by
  rw [rangeCheck, hfirst] at hf ⊢
  dsimp only at hf ⊢
  split at hf
  · cases hf
  · rename_i x hx
    split at hf
    · rename_i hlive
      rw [if_pos hlive]
      rcases hn with rfl | hn
      · simp
      · rw [hn, Option.some_or, Option.some.injEq] at hx
        simp [hx]
    · cases hf

/-- A call that reports a range check is one. -/
theorem call_eq_rangeCheck {name min max : String} {f : Finding}
    (hshape : f.shape = .rangeCheck name min max) (hf : f ∈ (call v s claimed m).finds) :
    call v s claimed m = rangeCheck v s m := by
  revert hf
  rw [call]
  split
  · intro hf
    cases hf
  · split
    · intro hf
      cases hf
    · split
      · rw [setCall]
        split
        · intro hf
          cases hf
        · intro hf
          obtain rfl := List.mem_singleton.1 hf
          cases hshape
      · split
        · intro _
          rfl
        · intro hf
          cases hf

/-- What a node accounts for by a known shape lies in the node; the node claims it, or it is given by
its address in a table. -/
theorem claims_of_accountsFor {e : Effect} (h : effectOf v s claimed m = .ok e) {f : Finding}
    (hf : f ∈ e.finds) (hknown : f.shape.isKnown = true) (hn : AccountsFor v n ⟨m, f⟩) :
    n ∈ m.inside ∧ (n.id ∈ e.claims ∨
      ∃ x ∈ m.inside, address? x = some n ∧ isPlainName n.text = true) := by
  cases hn with
  | declared hm hd hn =>
      simp only [effectOf, hm] at h
      exact ⟨mem_inside_of_declared hd hn,
        .inl (mem_claims_declaration h hf (by simp [foundAt]) hd hn)⟩
  | initialized hm hd hn hcall =>
      simp only [effectOf, hm] at h
      exact ⟨mem_inside_of_declared hd hn,
        .inl (mem_claims_declaration h hf (by simp [foundAt]) hd hn)⟩
  | read hm hn =>
      simp only [effectOf, hm, Except.ok.injEq] at h
      subst h
      exact ⟨mem_inside_of_field? hn, .inl (mem_claims_fieldRead hn hf)⟩
  | unrecognized => cases hknown
  | address hn =>
      simp only [effectOf, (kind_of_address? hn).1, Except.ok.injEq] at h
      subst h
      exact ⟨mem_inside_of_address? hn, .inl (mem_claims_addressOf hn hf)⟩
  | checked hm hfirst hn =>
      simp only [effectOf, hm, Except.ok.injEq] at h
      subst h
      have hcheck := call_eq_rangeCheck rfl hf
      rw [hcheck] at hf ⊢
      refine ⟨?_, .inl (mem_claims_rangeCheck hfirst hn hf)⟩
      have hin := mem_inside_of_mem_arguments (List.mem_of_getElem? hfirst)
      rcases hn with rfl | hn
      · exact hin
      · exact Node.mem_inside_trans hin (Node.mem_nodes_of_mem_inside (mem_inside_of_address? hn))
  | assigned hm hn hcall =>
      simp only [effectOf, hm, Except.ok.injEq] at h
      subst h
      exact ⟨mem_inside_of_field? hn, .inl (mem_claims_assignment hn hf)⟩
  | entered hm hentry helement hvalue hn =>
      simp only [effectOf, hm] at h
      have hvaluein := Node.mem_inside_trans (mem_inside_of_mem_tableEntries hentry)
        (Node.mem_nodes_of_mem_inside (mem_inside_of_valueOf? helement hvalue))
      have hin := Node.mem_inside_trans hvaluein
        (Node.mem_nodes_of_mem_inside (mem_inside_of_address? hn))
      exact ⟨hin, .inr ⟨_, hvaluein, hn, plain_of_tableEntry h hf rfl⟩⟩

end Cvar

end Upkeep
