/-
**What declarations find, and which names are tracked.**

Variables and table entries are found at declarations and nowhere else.  A declaration whose type names
the type of registration tables finds the entries of its tables; any other one finds the variables of a
cvar type, if it stands outside of functions, types and parameter lists.

The first sweep asks for the latter alone.  So the names that it tracks are those that the walk finds
declared, and besides them the names of tables whose type names a type of cvars as well: these are
tracked, but no declaration of them is ever found.

Main definitions:

* `Upkeep.Cpp.Node.BareMarks` — trees in which marks and comments have no children;
* `Upkeep.Cvar.Spot.IsTable`, `Upkeep.Cvar.Spot.OfCvars` — declarations by what their type names.

Main results:

* `Upkeep.Cvar.mem_sweep` — the first sweep reaches every node with children;
* `Upkeep.Cvar.mem_findings_iff` — the findings of a walk are those of its steps;
* `Upkeep.Cvar.declaration_mem_findings_iff`, `Upkeep.Cvar.tableEntry_mem_findings_iff` — where
  variables and table entries are found;
* `Upkeep.Cvar.tracked_iff` — **which names are tracked**.
-/

import Upkeep.Proofs.Cvar.Mentions

set_option relaxedAutoImplicit false
set_option autoImplicit false

namespace Upkeep

/-! ### The reach of the first sweep -/

namespace Cpp.Node

/-- Marks and comments have no children. -/
def BareMarks (t : Node) : Prop :=
  ∀ n ∈ t.nodes, ∀ c ∈ n.children, (c.label.named && c.kind != "comment") = false → c.children = []

instance (t : Node) : Decidable t.BareMarks :=
  inferInstanceAs (Decidable (∀ n ∈ t.nodes, ∀ c ∈ n.children, _ → _))

end Cpp.Node

namespace Cvar

open Cpp

variable {s : Spot}

mutual

/-- The first sweep comes to nodes of the tree alone. -/
theorem mem_spots_of_mem_sweep {above : List Node} :
    (n : Node) → s ∈ sweep above n → s ∈ spots above n
  | .mk l cs, h => by
      rw [sweep] at h
      rw [spots]
      rcases List.mem_cons.1 h with rfl | h
      · exact List.mem_cons_self
      · exact List.mem_cons_of_mem _ (mem_spotsOf_of_mem_sweepOf cs h)

theorem mem_spotsOf_of_mem_sweepOf {above : List Node} :
    (ns : List Node) → s ∈ sweepOf above ns → s ∈ spotsOf above ns
  | [], h => by simp [sweepOf] at h
  | n :: ns, h => by
      rw [sweepOf, List.mem_append] at h
      rw [spotsOf, List.mem_append]
      rcases h with h | h
      · exact .inr (mem_spotsOf_of_mem_sweepOf ns h)
      · split at h
        · exact .inl (mem_spots_of_mem_sweep n h)
        · cases h

end

mutual

/-- The first sweep comes to every node with children, if marks and comments have none. -/
theorem mem_sweep {above : List Node} :
    (n : Node) → n.BareMarks → s ∈ spots above n → s.node.children ≠ [] → s ∈ sweep above n
  | .mk l cs, hbare, h, hs => by
      rw [spots] at h
      rw [sweep]
      rcases List.mem_cons.1 h with rfl | h
      · exact List.mem_cons_self
      · refine List.mem_cons_of_mem _ (mem_sweepOf cs ?_ h hs)
        intro c hc
        refine ⟨hbare _ (Node.mem_nodes_self _) c hc, fun m hm => hbare m ?_⟩
        exact List.mem_cons_of_mem _ (Node.mem_nodesOf_of_mem hc hm)

theorem mem_sweepOf {above : List Node} :
    (ns : List Node) → (∀ c ∈ ns, ((c.label.named && c.kind != "comment") = false →
        c.children = []) ∧ c.BareMarks) →
      s ∈ spotsOf above ns → s.node.children ≠ [] → s ∈ sweepOf above ns
  | [], _, h, _ => by simp [spotsOf] at h
  | n :: ns, hbare, h, hs => by
      obtain ⟨⟨hmark, hn⟩, hns⟩ := List.forall_mem_cons.1 hbare
      rw [spotsOf, List.mem_append] at h
      rw [sweepOf, List.mem_append]
      rcases h with h | h
      · right
        cases hpart : n.label.named && n.kind != "comment" with
        | true => exact mem_sweep n hn h hs
        | false =>
            -- A mark has no spot but its own, and no children.
            cases n with
            | mk l cs =>
                obtain rfl : cs = [] := hmark hpart
                obtain rfl := List.mem_singleton.1 h
                exact absurd rfl hs
      · exact .inl (mem_sweepOf ns hns h hs)

end

/-! ### Kinds of declarations -/

/-- The type that a declaration gives. -/
def Spot.typeText (s : Spot) : String := (s.node.fieldText? "type").getD ""

/-- A declaration whose type names the type of registration tables. -/
structure Spot.IsTable (cfg : Settings) (s : Spot) : Prop where
  kind : s.node.kind = "declaration"
  type : mentionsType [cfg.tableType] s.typeText = true

/-- A declaration outside of functions, types and parameter lists whose type names a type of cvars. -/
structure Spot.OfCvars (cfg : Settings) (s : Spot) : Prop where
  kind : s.node.kind = "declaration"
  scope : atFileScope s.above = true
  type : mentionsType cfg.cvarTypes s.typeText = true

instance (cfg : Settings) (s : Spot) : Decidable (s.IsTable cfg) :=
  decidable_of_iff (s.node.kind = "declaration" ∧ mentionsType [cfg.tableType] s.typeText = true)
    ⟨fun h => ⟨h.1, h.2⟩, fun h => ⟨h.kind, h.type⟩⟩

instance (cfg : Settings) (s : Spot) : Decidable (s.OfCvars cfg) :=
  decidable_of_iff (s.node.kind = "declaration" ∧ atFileScope s.above = true ∧
      mentionsType cfg.cvarTypes s.typeText = true)
    ⟨fun h => ⟨h.1, h.2.1, h.2.2⟩, fun h => ⟨h.kind, h.scope, h.type⟩⟩

variable {cfg : Settings} {files : List Source} {findings : List Finding} {name : String}

theorem mem_trackedAt_iff :
    name ∈ trackedAt cfg s ↔ s.OfCvars cfg ∧ ∃ x ∈ declaredNodes s.node, x.text = name := by
  rw [trackedAt]
  split
  · rename_i h
    simp only [Bool.and_eq_true, beq_iff_eq] at h
    rw [List.mem_map]
    exact ⟨fun hx => ⟨⟨h.1.1, h.1.2, h.2⟩, hx⟩, And.right⟩
  · rename_i h
    constructor
    · intro hname
      cases hname
    · rintro ⟨hs, -⟩
      refine absurd ?_ h
      simp only [Bool.and_eq_true, beq_iff_eq]
      exact ⟨⟨hs.kind, hs.scope⟩, hs.type⟩

/-- The tracked names are those of the variables of a cvar type. -/
theorem mem_tracked_iff (hbare : ∀ source ∈ files, source.tree.BareMarks) :
    name ∈ (collectGlobals cfg files).tracked ↔ ∃ source ∈ files, ∃ s ∈ spots [] source.tree,
      s.OfCvars cfg ∧ ∃ x ∈ declaredNodes s.node, x.text = name := by
  simp only [collectGlobals, List.mem_eraseDups, List.mem_flatMap, mem_trackedAt_iff]
  constructor
  · rintro ⟨s, ⟨source, hsource, hs⟩, hname⟩
    exact ⟨source, hsource, s, mem_spots_of_mem_sweep _ hs, hname⟩
  · rintro ⟨source, hsource, s, hs, hof, x, hx, hname⟩
    refine ⟨s, ⟨source, hsource, mem_sweep _ (hbare source hsource) hs ?_⟩, hof, x, hx, hname⟩
    obtain ⟨d, hd, -⟩ := List.mem_filterMap.1 hx
    exact List.ne_nil_of_mem (Node.mem_children_of_mem_fields hd)

/-! ### Where variables and table entries are found -/

/-- The findings of a walk are those of its steps. -/
theorem mem_findings_iff (h : walkAll cfg files = .ok findings) {f : Finding} :
    f ∈ findings ↔ ∃ source ∈ files, ∃ ss,
      steps ⟨cfg, collectGlobals cfg files, source⟩ [] [] source.tree = .ok ss ∧
        ∃ st ∈ ss, f ∈ st.effect.finds := by
  constructor
  · intro hf
    obtain ⟨found, hall, hok⟩ := Outcome.bind_ok.1 h
    cases hok
    obtain ⟨fs, hfs, hf⟩ := List.mem_flatten.1 hf
    obtain ⟨source, hsource, hwalk⟩ := exists_of_mem_mapM hall hfs
    rw [walk_eq_reports, reports] at hwalk
    cases hss : steps ⟨cfg, collectGlobals cfg files, source⟩ [] [] source.tree with
    | error e =>
        rw [hss] at hwalk
        cases hwalk
    | ok ss =>
        rw [hss] at hwalk
        cases hwalk
        obtain ⟨r, hr, rfl⟩ := List.mem_map.1 hf
        obtain ⟨st, hst, hf, -⟩ := mem_reports.1 hr
        exact ⟨source, hsource, ss, hss, st, hst, hf⟩
  · rintro ⟨source, hsource, ss, hss, st, hst, hf⟩
    obtain ⟨ss', hss', -, hfindings⟩ := exists_steps_of_walkAll h hsource
    rw [hss] at hss'
    cases hss'
    exact hfindings ⟨st.spot.node, f⟩ (mem_reports.2 ⟨st, hst, hf, rfl⟩)

/-- Whether a shape is found at declarations alone: that of a variable or of a table entry. -/
def Shape.isOfDeclaration : Shape → Bool
  | .declaration .. => true
  | .tableEntry .. => true
  | _ => false

section Effects

variable {v : Survey} {scope : Scope} {claimed : List Nat} {n : Node}

/-- A finding that is no variable and no table entry. -/
def Finding.IsUse (f : Finding) : Prop := f.shape.isOfDeclaration = false

theorem uses_registration (call : Node) : (registration v name call).Finds Finding.IsUse := by
  rw [registration]
  split
  · exact Effect.finds_single rfl
  · exact Effect.finds_none

theorem uses_fieldRead : (fieldRead v scope claimed n).Finds Finding.IsUse := by
  rw [fieldRead]
  split
  · split
    · exact Effect.finds_none
    · exact Effect.finds_single rfl
  · exact Effect.finds_none

theorem uses_rangeCheck : (rangeCheck v scope n).Finds Finding.IsUse := by
  rw [rangeCheck]
  split
  · exact Effect.finds_none
  · split
    · exact Effect.finds_none
    · split
      · exact Effect.finds_single rfl
      · exact Effect.finds_none

theorem uses_call : (call v scope claimed n).Finds Finding.IsUse := by
  rw [call]
  split
  · exact Effect.finds_none
  · split
    · exact Effect.finds_none
    · split
      · rw [setCall]
        split
        · exact Effect.finds_none
        · exact Effect.finds_single rfl
      · split
        · exact uses_rangeCheck
        · exact Effect.finds_none

theorem uses_assignment : (assignment v scope n).Finds Finding.IsUse := by
  rw [assignment]
  split
  · split
    · exact Effect.Finds.append Effect.finds_none (uses_registration _)
    · exact Effect.finds_none
  · exact Effect.finds_none

theorem uses_addressOf : (addressOf v scope claimed n).Finds Finding.IsUse := by
  rw [addressOf]
  split
  · exact Effect.finds_none
  · split
    · exact Effect.finds_none
    · split
      · exact Effect.finds_none
      · exact Effect.finds_single rfl

theorem uses_unrecognized : (unrecognized v scope claimed n).Finds Finding.IsUse := by
  rw [unrecognized]
  split
  · exact Effect.finds_none
  · exact Effect.finds_single rfl

theorem effectOf_declaration (hkind : n.kind = "declaration") :
    effectOf v scope claimed n = declaration v scope n := by
  simp only [effectOf, hkind]

/-- Variables and table entries are found at declarations. -/
theorem declaration_of_finds {e : Effect} (he : effectOf v scope claimed n = .ok e) {f : Finding}
    (hf : f ∈ e.finds) (hshape : f.shape.isOfDeclaration = true) :
    n.kind = "declaration" ∧ declaration v scope n = .ok e := by
  have huse : ¬ e.Finds Finding.IsUse := by
    intro h
    have hno := h f hf
    rw [Finding.IsUse, hshape] at hno
    cases hno
  rw [effectOf] at he
  split at he
  · rename_i hkind
    exact ⟨hkind, he⟩
  · cases he
    exact absurd uses_fieldRead huse
  · cases he
    exact absurd uses_call huse
  · cases he
    exact absurd uses_assignment huse
  · cases he
    exact absurd uses_addressOf huse
  · cases he
    exact absurd uses_unrecognized huse
  · cases he
    exact absurd Effect.finds_none huse

end Effects

/-! ### What declarations find -/

/-- A declaration introduces a variable with a name at a place.  It is a definition unless it is external
and gives no value. -/
def Spot.Introduces (v : Survey) (s : Spot) (name : String) (isDefinition : Bool) (o : Occurrence) :
    Prop :=
  ∃ d ∈ s.node.fields "declarator", ∃ x, declaredBy? d = some x ∧ x.text = name ∧
    isDefinition = (!isExternal s.node || (initializer? d).isSome) ∧ o = placeOf v x

/-- A declaration has a table with an entry of a cvar. -/
def Spot.Enters (v : Survey) (s : Spot) (entry : Node) (name : String) (data : Registration) : Prop :=
  entry ∈ tableEntries s.node ∧
    ∃ claims, tableEntry v entry = .ok ⟨claims, [foundAt v entry (.tableEntry name data)]⟩

section Finds

variable {v : Survey} {shadowed : List String} {e : Effect} {isDefinition : Bool} {o : Occurrence}
  {data : Registration}

theorem declaration_mem_declarator_iff {scope : Scope} {external : Bool} {d : Node} :
    ⟨.declaration name isDefinition, o⟩ ∈ (declarator v scope external d).finds ↔
      ∃ x, declaredBy? d = some x ∧ x.text = name ∧
        isDefinition = (!external || (initializer? d).isSome) ∧ o = placeOf v x := by
  rw [declarator]
  cases hd : declaredBy? d with
  | none => simp [Effect.none]
  | some x =>
      have hself : ∀ b : Bool, (⟨.declaration name isDefinition, o⟩ : Finding) ∈
          (⟨[x.id], [foundAt v x (.declaration x.text b)]⟩ : Effect).finds ↔
            x.text = name ∧ isDefinition = b ∧ o = placeOf v x := by
        intro b
        rw [List.mem_singleton, foundAt, Finding.mk.injEq, Shape.declaration.injEq, and_assoc]
        exact ⟨fun h => ⟨h.1.symm, h.2⟩, fun h => ⟨h.1.symm, h.2⟩⟩
      have hregistration : ∀ call : Node, (⟨.declaration name isDefinition, o⟩ : Finding) ∉
          (registration v x.text call).finds := by
        intro call hf
        cases uses_registration call _ hf
      simp only [Option.some.injEq, exists_eq_left']
      split
      · split
        · rw [Effect.finds_append, List.mem_append, hself]
          simp [hregistration]
        · exact hself _
      · exact hself _

/-- A table finds its entries and no variables. -/
theorem mem_table_iff {es : List Effect} (h : (tableEntries s.node).mapM (tableEntry v) = .ok es)
    {f : Finding} : f ∈ (Effect.all es).finds ↔
      ∃ entry name data, s.Enters v entry name data ∧ f = foundAt v entry (.tableEntry name data) := by
  constructor
  · intro hf
    obtain ⟨e, he, hf⟩ := List.mem_flatMap.1 hf
    obtain ⟨entry, hentry, he⟩ := exists_of_mem_mapM h he
    rcases tableEntry_ok he with rfl | ⟨_, _, value, target, data, -, -, -, rfl⟩
    · cases hf
    · exact ⟨entry, _, data, ⟨hentry, _, he⟩, List.mem_singleton.1 hf⟩
  · rintro ⟨entry, name, data, ⟨hentry, claims, he⟩, rfl⟩
    obtain ⟨e, hmem, he'⟩ := exists_mapM_of_mem h hentry
    rw [he, Except.ok.injEq] at he'
    exact List.mem_flatMap.2 ⟨e, hmem, he' ▸ List.mem_singleton_self _⟩

/-- A declaration finds the variables that it introduces if their type is one of cvars and not one of
tables. -/
theorem declaration_mem_finds_iff (hkind : s.node.kind = "declaration")
    (h : declaration v ⟨s.above, shadowed⟩ s.node = .ok e) :
    ⟨.declaration name isDefinition, o⟩ ∈ e.finds ↔
      s.OfCvars v.cfg ∧ ¬ s.IsTable v.cfg ∧ s.Introduces v name isDefinition o := by
  rw [declaration] at h
  split at h
  · rename_i htable
    obtain ⟨es, hentries, h⟩ := Outcome.bind_ok.1 h
    cases h
    rw [mem_table_iff hentries]
    constructor
    · rintro ⟨entry, name', data, -, hf⟩
      cases hf
    · rintro ⟨-, hno, -⟩
      exact absurd ⟨hkind, htable⟩ hno
  · rename_i htable
    have hno : ¬ s.IsTable v.cfg := fun h => htable h.type
    split at h
    · rename_i hof
      cases h
      rw [Bool.and_eq_true] at hof
      simp only [Effect.all, List.mem_flatMap, List.mem_map, exists_exists_and_eq_and,
        declaration_mem_declarator_iff]
      exact ⟨fun h => ⟨⟨hkind, hof.2, hof.1⟩, hno, h⟩, fun h => h.2.2⟩
    · rename_i hof
      cases h
      constructor
      · intro hf
        cases hf
      · rintro ⟨h, -⟩
        exact absurd (Bool.and_eq_true _ _ ▸ ⟨h.type, h.scope⟩) hof

/-- A declaration finds the entries of its tables, if its type names that of tables. -/
theorem tableEntry_mem_finds_iff (hkind : s.node.kind = "declaration")
    (h : declaration v ⟨s.above, shadowed⟩ s.node = .ok e) :
    ⟨.tableEntry name data, o⟩ ∈ e.finds ↔
      s.IsTable v.cfg ∧ ∃ entry, s.Enters v entry name data ∧ o = placeOf v entry := by
  rw [declaration] at h
  split at h
  · rename_i htable
    obtain ⟨es, hentries, h⟩ := Outcome.bind_ok.1 h
    cases h
    rw [mem_table_iff hentries]
    simp only [foundAt, Finding.mk.injEq, Shape.tableEntry.injEq]
    constructor
    · rintro ⟨entry, _, _, henters, ⟨rfl, rfl⟩, rfl⟩
      exact ⟨⟨hkind, htable⟩, entry, henters, rfl⟩
    · rintro ⟨-, entry, henters, rfl⟩
      exact ⟨entry, _, _, henters, ⟨rfl, rfl⟩, rfl⟩
  · rename_i htable
    have hno : ∀ es : List Effect, e = .all es →
        (∀ e ∈ es, ∀ f ∈ e.finds, f.shape ≠ .tableEntry name data) →
        (⟨.tableEntry name data, o⟩ : Finding) ∉ e.finds := by
      rintro es rfl hes hf
      obtain ⟨e, he, hf⟩ := List.mem_flatMap.1 hf
      exact hes e he _ hf rfl
    refine ⟨fun hf => absurd hf ?_, fun h => absurd h.1.type htable⟩
    split at h
    · cases h
      refine hno _ rfl fun e he f hf => ?_
      obtain ⟨d, -, rfl⟩ := List.mem_map.1 he
      exact ne_tableEntry_of_mem_declarator hf name data
    · cases h
      exact hno [] rfl (by simp)

end Finds

/-! ### The whole walk -/

section Walk

variable {isDefinition : Bool} {o : Occurrence} {data : Registration}

/-- Variables and table entries are found by the declarations of the trees. -/
theorem exists_declaration_of_mem (h : walkAll cfg files = .ok findings) {f : Finding}
    (hf : f ∈ findings) (hshape : f.shape.isOfDeclaration = true) :
    ∃ source ∈ files, ∃ s ∈ spots [] source.tree, s.node.kind = "declaration" ∧
      ∃ e, declaration ⟨cfg, collectGlobals cfg files, source⟩
        ⟨s.above, shadowedAt (s.node :: s.above)⟩ s.node = .ok e ∧ f ∈ e.finds := by
  obtain ⟨source, hsource, ss, hss, st, hst, hf⟩ := (mem_findings_iff h).1 hf
  obtain ⟨hkind, he⟩ := declaration_of_finds (sound_steps _ hss st hst).effect hf hshape
  exact ⟨source, hsource, st.spot, spot_mem_spots hss hst, hkind, _, he, hf⟩

/-- When a walk ends, every declaration has come through, and what it finds is found. -/
theorem exists_declaration (h : walkAll cfg files = .ok findings) {source : Source}
    (hsource : source ∈ files) (hs : s ∈ spots [] source.tree) (hkind : s.node.kind = "declaration") :
    ∃ e, declaration ⟨cfg, collectGlobals cfg files, source⟩
      ⟨s.above, shadowedAt (s.node :: s.above)⟩ s.node = .ok e ∧ ∀ f ∈ e.finds, f ∈ findings := by
  obtain ⟨ss, hss, -, -⟩ := exists_steps_of_walkAll h hsource
  obtain ⟨st, hst, rfl⟩ := exists_step hss hs
  refine ⟨st.effect, ?_, fun f hf => (mem_findings_iff h).2 ⟨source, hsource, ss, hss, st, hst, hf⟩⟩
  rw [← effectOf_declaration hkind]
  exact (sound_steps _ hss st hst).effect

/-- Variables are found where declarations of cvars that are no tables introduce them. -/
theorem declaration_mem_findings_iff (h : walkAll cfg files = .ok findings) :
    ⟨.declaration name isDefinition, o⟩ ∈ findings ↔
      ∃ source ∈ files, ∃ s ∈ spots [] source.tree, s.OfCvars cfg ∧ ¬ s.IsTable cfg ∧
        s.Introduces ⟨cfg, collectGlobals cfg files, source⟩ name isDefinition o := by
  constructor
  · intro hf
    obtain ⟨source, hsource, s, hs, hkind, e, he, hf⟩ := exists_declaration_of_mem h hf rfl
    exact ⟨source, hsource, s, hs, (declaration_mem_finds_iff hkind he).1 hf⟩
  · rintro ⟨source, hsource, s, hs, hdeclares⟩
    obtain ⟨e, he, hfinds⟩ := exists_declaration h hsource hs hdeclares.1.kind
    exact hfinds _ ((declaration_mem_finds_iff hdeclares.1.kind he).2 hdeclares)

/-- Table entries are found where they begin, in the tables of the trees. -/
theorem tableEntry_mem_findings_iff (h : walkAll cfg files = .ok findings) :
    ⟨.tableEntry name data, o⟩ ∈ findings ↔
      ∃ source ∈ files, ∃ s ∈ spots [] source.tree, s.IsTable cfg ∧
        ∃ entry, s.Enters ⟨cfg, collectGlobals cfg files, source⟩ entry name data ∧
          o = placeOf ⟨cfg, collectGlobals cfg files, source⟩ entry := by
  constructor
  · intro hf
    obtain ⟨source, hsource, s, hs, hkind, e, he, hf⟩ := exists_declaration_of_mem h hf rfl
    exact ⟨source, hsource, s, hs, (tableEntry_mem_finds_iff hkind he).1 hf⟩
  · rintro ⟨source, hsource, s, hs, henters⟩
    obtain ⟨e, he, hfinds⟩ := exists_declaration h hsource hs henters.1.kind
    exact hfinds _ ((tableEntry_mem_finds_iff henters.1.kind he).2 henters)

/-- **Which names are tracked**: a name is tracked if the walk finds a variable with this name
declared, and besides if a declaration introduces it whose type names a type of cvars and that of
tables as well. -/
theorem tracked_iff (hbare : ∀ source ∈ files, source.tree.BareMarks)
    (h : walkAll cfg files = .ok findings) :
    name ∈ (collectGlobals cfg files).tracked ↔
      (∃ isDefinition o, ⟨.declaration name isDefinition, o⟩ ∈ findings) ∨
      ∃ source ∈ files, ∃ s ∈ spots [] source.tree, s.OfCvars cfg ∧ s.IsTable cfg ∧
        ∃ x ∈ declaredNodes s.node, x.text = name := by
  simp only [mem_tracked_iff hbare, declaration_mem_findings_iff h]
  constructor
  · rintro ⟨source, hsource, s, hs, hof, x, hx, hname⟩
    by_cases htable : s.IsTable cfg
    · exact .inr ⟨source, hsource, s, hs, hof, htable, x, hx, hname⟩
    · obtain ⟨d, hd, hdx⟩ := List.mem_filterMap.1 hx
      exact .inl ⟨_, _, source, hsource, s, hs, hof, htable, d, hd, x, hdx, hname, rfl, rfl⟩
  · rintro (⟨_, _, source, hsource, s, hs, hof, -, d, hd, x, hdx, hname, -, -⟩ |
      ⟨source, hsource, s, hs, hof, -, hx⟩)
    · exact ⟨source, hsource, s, hs, hof, x, List.mem_filterMap.2 ⟨d, hd, hdx⟩, hname⟩
    · exact ⟨source, hsource, s, hs, hof, hx⟩

end Walk

/-! ### Sweeps at work -/

theorem tracked_iff_readOnce :
    ∃ findings, walkAll {} [readOnce] = .ok findings ∧
      ("a" ∈ (collectGlobals {} [readOnce]).tracked ↔
        (∃ isDefinition o, ⟨.declaration "a" isDefinition, o⟩ ∈ findings) ∨
        ∃ source ∈ [readOnce], ∃ s ∈ spots [] source.tree, s.OfCvars {} ∧ s.IsTable {} ∧
          ∃ x ∈ declaredNodes s.node, x.text = "a") := by
  have hwalk : walkAll {} [readOnce] = .ok [⟨.declaration "a" true, ⟨readOnce.path, 1, 10⟩⟩,
      ⟨.fieldRead "a" .int, ⟨readOnce.path, 2, 9⟩⟩] := ok_of_toOption (by decide +kernel)
  exact ⟨_, hwalk, tracked_iff (by decide +kernel) hwalk⟩

/-- A variable whose type is defined with it: the type of tables, with a field for the cvar. -/
def tableOfOne : Source :=
  sourceOf "struct cvarTable_t \x7b vmCvar_t *vmCvar; \x7d cvarTable;\n"
    [partRow 1 "declaration" none 0 51, partRow 2 "struct_specifier" (some "type") 0 40,
      markRow 3 "struct" 0, partRow 3 "type_identifier" (some "name") 7 18,
      partRow 3 "field_declaration_list" (some "body") 19 40, markRow 4 "\x7b" 19,
      partRow 4 "field_declaration" none 21 38, partRow 5 "type_identifier" (some "type") 21 29,
      partRow 5 "pointer_declarator" (some "declarator") 30 37, markRow 6 "*" 30,
      partRow 6 "field_identifier" (some "declarator") 31 37, markRow 5 ";" 37,
      markRow 4 "\x7d" 39, partRow 2 "identifier" (some "declarator") 41 50, markRow 2 ";" 50]

/-- **A tracked name without a declaration**: a table is tracked when its type names a type of cvars,
no declaration of it is found, and its own name is taken for a use. -/
theorem table_tracked_undeclared :
    ∃ findings, walkAll {} [tableOfOne] = .ok findings ∧
      "cvarTable" ∈ (collectGlobals {} [tableOfOne]).tracked ∧
      (∀ isDefinition o, ⟨.declaration "cvarTable" isDefinition, o⟩ ∉ findings) ∧
      findings = [⟨.unrecognized "cvarTable" "struct cvarTable_t \x7b vmCvar_t *vmCvar; \x7d cvarTable;",
        ⟨tableOfOne.path, 1, 42⟩⟩] :=
  ⟨_, ok_of_toOption (by decide +kernel), by decide +kernel, by simp, rfl⟩

end Cvar

end Upkeep
