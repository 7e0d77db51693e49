/-
**Names that functions introduce.**

The walk hands its scope down: every function adds the names of its parameters and local variables for
itself and what is inside it, and nothing is handed from one node to the next.  So the scope of a node
is that of the functions around it, and no use is found there under a name that one of them introduces.

The names of a function are looked up in all its parts, but for the insides of other functions.

Main definitions:

* `Upkeep.Cvar.Visit`, `Upkeep.Cvar.visits` — the nodes that the walk comes to, with their scopes;
* `Upkeep.Cvar.Visit.Emits` — what the walk may find at a node;
* `Upkeep.Cvar.Names`, `Upkeep.Cvar.PartOf`, `Upkeep.Cvar.Introduces` — the variables of declarators, the
  parts of functions, and the names that functions introduce;
* `Upkeep.Cvar.Shape.use?` — the cvar that is used where it is mentioned.

Main results:

* `Upkeep.Cvar.visit_eq_foldlM` — **the walk goes from visit to visit**;
* `Upkeep.Cvar.visits_eq_spots` — **the scope of a node is that of the nodes above it**;
* `Upkeep.Cvar.mem_localNames_iff` — the names that a function introduces;
* `Upkeep.Cvar.isLive_of_mem_effectOf` — what is used stands for a cvar;
* `Upkeep.Cvar.locals_hide_cvars` — **inside a function no use is found under its own names**.
-/

import Upkeep.Proofs.Cvar.Mentions

set_option relaxedAutoImplicit false
set_option autoImplicit false

namespace Upkeep

namespace Cvar

open Cpp

/-! ### Visits -/

/-- A node that the walk comes to, with its own scope. -/
structure Visit where
  scope : Scope
  node : Node

mutual

/-- The visits of the walk of a tree, given the scope around it. -/
def visits (s : Scope) : Node → List Visit
  | .mk l cs =>
    ⟨s.enter (.mk l cs), .mk l cs⟩ :: visitsAll ((s.enter (.mk l cs)).below (.mk l cs)) cs

/-- The visits of the walk of some trees, one after the other. -/
def visitsAll (s : Scope) : List Node → List Visit
  | [] => []
  | c :: cs => visits s c ++ visitsAll s cs

end

/-- What was done once the node is visited. -/
def Visit.run (v : Survey) (done : Effect) (x : Visit) : Outcome Effect := do
  return done ++ (← effectOf v x.scope done.claims x.node)

mutual

/-- **The walk goes from visit to visit**, also where it fails. -/
theorem visit_eq_foldlM (v : Survey) (s : Scope) (done : Effect) :
    (n : Node) → visit v s done n = (visits s n).foldlM (Visit.run v) done
  | .mk l cs => by
      rw [visit, visits, List.foldlM_cons, Visit.run]
      cases effectOf v (s.enter (.mk l cs)) done.claims (.mk l cs) with
      | error e => rfl
      | ok e => exact visitAll_eq_foldlM v _ (done ++ e) cs

theorem visitAll_eq_foldlM (v : Survey) (s : Scope) (done : Effect) :
    (ns : List Node) → visitAll v s done ns = (visitsAll s ns).foldlM (Visit.run v) done
  | [] => rfl
  | n :: ns => by
      rw [visitAll, visitsAll, List.foldlM_append, visit_eq_foldlM v s done n]
      cases (visits s n).foldlM (Visit.run v) done with
      | error e => rfl
      | ok done' => exact visitAll_eq_foldlM v s done' ns

end

mutual

/-- **The scope of a node is that of the nodes above it**, whatever was visited before. -/
theorem visits_eq_spots (above : List Node) :
    (n : Node) → visits ⟨above, shadowedAt above⟩ n =
      (spots above n).map fun s => ⟨⟨s.above, shadowedAt (s.node :: s.above)⟩, s.node⟩
  | .mk l cs => by
      rw [visits, spots, List.map_cons, enter_scope, Scope.below, visitsAll_eq_spots _ cs]

theorem visitsAll_eq_spots (above : List Node) :
    (ns : List Node) → visitsAll ⟨above, shadowedAt above⟩ ns =
      (spotsOf above ns).map fun s => ⟨⟨s.above, shadowedAt (s.node :: s.above)⟩, s.node⟩
  | [] => rfl
  | n :: ns => by
      rw [visitsAll, spotsOf, List.map_append, visits_eq_spots above n, visitsAll_eq_spots above ns]

end

/-- What the walk may find at a node, whatever was claimed before. -/
def Visit.Emits (v : Survey) (x : Visit) (f : Finding) : Prop :=
  ∃ claimed e, effectOf v x.scope claimed x.node = .ok e ∧ f ∈ e.finds

/-- What was found in the end was found before, or at one of the nodes. -/
theorem emits_of_mem_foldlM {v : Survey} {xs : List Visit} {done done' : Effect} {f : Finding}
    (h : xs.foldlM (Visit.run v) done = .ok done') (hf : f ∈ done'.finds) :
    f ∈ done.finds ∨ ∃ x ∈ xs, x.Emits v f := by
  induction xs generalizing done with
  | nil =>
      cases h
      exact .inl hf
  | cons x xs ih =>
      rw [List.foldlM_cons, Outcome.bind_ok] at h
      obtain ⟨mid, hmid, h⟩ := h
      obtain ⟨e, he, hmid⟩ := Outcome.bind_ok.1 hmid
      cases hmid
      rcases ih h with hf | ⟨x', hx', hemits⟩
      · rcases List.mem_append.1 hf with hf | hf
        · exact .inl hf
        · exact .inr ⟨x, List.mem_cons_self, done.claims, e, he, hf⟩
      · exact .inr ⟨x', List.mem_cons_of_mem _ hx', hemits⟩

/-! ### Names of functions -/

/-- The declarator introduces a variable: it is its name, or it is wrapped around a declarator that
introduces the variable. -/
inductive Names : Node → Node → Prop where
  | name {x : Node} (hkind : isVariableKind x.kind = true) : Names x x
  | wrapped {d inner x : Node} (hkind : isWrapperKind d.kind = true)
      (hinner : innerDeclarator? d = some inner) (h : Names inner x) : Names d x

/-- No name of a variable is wrapped around another declarator. -/
theorem not_isVariableKind_of_isWrapperKind {kind : String} (h : isWrapperKind kind = true) :
    isVariableKind kind = false := by
  simp only [isWrapperKind, List.contains_eq_mem, List.mem_cons, List.not_mem_nil, or_false,
    decide_eq_true_eq] at h
  rcases h with rfl | rfl | rfl | rfl | rfl | rfl <;> decide

theorem names_of_declaredBy? (d : Node) : ∀ x, declaredBy? d = some x → Names d x := by
  induction d using declaredBy?.induct with
  | case1 d hkind =>
      intro x hx
      rw [declaredBy?, if_pos hkind] at hx
      cases hx
      exact .name hkind
  | case2 d hkind hwrapper c hinner ih =>
      intro x hx
      rw [declaredBy?, if_neg hkind, if_pos hwrapper] at hx
      split at hx
      · rename_i c' hc'
        obtain rfl := Option.some.inj (hinner.symm.trans hc')
        exact .wrapped hwrapper hinner (ih x hx)
      · cases hx
  | case3 d hkind hwrapper hinner =>
      intro x hx
      rw [declaredBy?, if_neg hkind, if_pos hwrapper] at hx
      split at hx
      · rename_i c' hc'
        rw [hinner] at hc'
        cases hc'
      · cases hx
  | case4 d hkind hwrapper =>
      intro x hx
      rw [declaredBy?, if_neg hkind, if_neg hwrapper] at hx
      cases hx

theorem declaredBy?_of_names {d x : Node} (h : Names d x) : declaredBy? d = some x := by
  induction h with
  | name hkind => rw [declaredBy?, if_pos hkind]
  | wrapped hkind hinner _ ih =>
      rw [declaredBy?, if_neg (by simp [not_isVariableKind_of_isWrapperKind hkind]), if_pos hkind]
      split
      · rename_i c' hc'
        obtain rfl := Option.some.inj (hinner.symm.trans hc')
        exact ih
      · rename_i hc'
        rw [hinner] at hc'
        cases hc'

/-- A node is reached from another one, or is this one, without entering a function. -/
inductive Reaches : Node → Node → Prop where
  | self {n : Node} : Reaches n n
  | deeper {n c m : Node} (hscope : opensScope n = false) (hc : c ∈ n.parts) (h : Reaches c m) : Reaches n m

/-- A node belongs to a function: it is reached from a part of it without entering another function. -/
def PartOf (f n : Node) : Prop := ∃ c ∈ f.parts, Reaches c n

/-- The kinds of nodes with one declarator that introduce a variable into a function: parameters and
loops over ranges. -/
def isBinderKind (kind : String) : Bool :=
  ["parameter_declaration", "optional_parameter_declaration", "for_range_loop"].contains kind

/-- A function introduces a name: one of its parts is a parameter, a loop over a range or a declaration
whose declarator introduces a variable with the name. -/
def Introduces (f : Node) (name : String) : Prop :=
  ∃ n, PartOf f n ∧ ∃ d x, Names d x ∧ x.text = name ∧
    (isBinderKind n.kind = true ∧ n.field? "declarator" = some d ∨
      n.kind = "declaration" ∧ d ∈ n.fields "declarator")

theorem mem_introduced_iff {n : Node} {name : String} : name ∈ introduced n ↔
    ∃ d x, Names d x ∧ x.text = name ∧
      (isBinderKind n.kind = true ∧ n.field? "declarator" = some d ∨
        n.kind = "declaration" ∧ d ∈ n.fields "declarator") := by
  rw [introduced]
  split
  · rename_i hkind
    have hdeclaration : n.kind ≠ "declaration" := by
      intro heq
      rw [heq] at hkind
      revert hkind
      decide
    simp only [List.mem_map, Option.mem_toList, Option.bind_eq_some_iff]
    constructor
    · rintro ⟨x, ⟨d, hd, hx⟩, rfl⟩
      exact ⟨d, x, names_of_declaredBy? d x hx, rfl, .inl ⟨hkind, hd⟩⟩
    · rintro ⟨d, x, hx, rfl, ⟨-, hd⟩ | ⟨heq, -⟩⟩
      · exact ⟨x, ⟨d, hd, declaredBy?_of_names hx⟩, rfl⟩
      · exact absurd heq hdeclaration
  · rename_i hkind
    split
    · rename_i hdeclaration
      simp only [List.mem_map, declaredNodes, List.mem_filterMap]
      constructor
      · rintro ⟨x, ⟨d, hd, hx⟩, rfl⟩
        exact ⟨d, x, names_of_declaredBy? d x hx, rfl, .inr ⟨by simpa using hdeclaration, hd⟩⟩
      · rintro ⟨d, x, hx, rfl, ⟨hbinder, -⟩ | ⟨-, hd⟩⟩
        · exact absurd hbinder hkind
        · exact ⟨x, ⟨d, hd, declaredBy?_of_names hx⟩, rfl⟩
    · rename_i hdeclaration
      refine iff_of_false (by simp) ?_
      rintro ⟨d, x, -, -, ⟨hbinder, -⟩ | ⟨heq, -⟩⟩
      · exact hkind hbinder
      · exact hdeclaration (by simpa using heq)

mutual

theorem mem_introducedBelow_iff {name : String} : (n : Node) →
    (name ∈ introducedBelow n ↔ ∃ m, Reaches n m ∧ name ∈ introduced m)
  | .mk l cs => by
      rw [introducedBelow, List.mem_append]
      constructor
      · rintro (h | h)
        · exact ⟨_, .self, h⟩
        · split at h
          · cases h
          · rename_i hscope
            obtain ⟨c, hc, m, hm, hname⟩ := (mem_introducedBelowAll_iff cs).1 h
            exact ⟨m, .deeper (by simpa using hscope) hc hm, hname⟩
      · rintro ⟨m, hm, hname⟩
        cases hm with
        | self => exact .inl hname
        | deeper hscope hc hm =>
            right
            rw [if_neg (by simp [hscope])]
            exact (mem_introducedBelowAll_iff cs).2 ⟨_, hc, m, hm, hname⟩

theorem mem_introducedBelowAll_iff {name : String} : (ns : List Node) →
    (name ∈ introducedBelowAll ns ↔
      ∃ c ∈ ns.filter (fun c => c.label.named && c.kind != "comment"),
        ∃ m, Reaches c m ∧ name ∈ introduced m)
  | [] => by simp [introducedBelowAll]
  | n :: ns => by
      rw [introducedBelowAll, List.mem_append, mem_introducedBelowAll_iff ns, List.filter_cons]
      cases hpart : n.label.named && n.kind != "comment" with
      | false => simp
      | true => simp [mem_introducedBelow_iff n]

end

/-- The names that a function introduces. -/
theorem mem_localNames_iff {f : Node} {name : String} : name ∈ localNames f ↔ Introduces f name := by
  rw [localNames, mem_introducedBelowAll_iff]
  constructor
  · rintro ⟨c, hc, m, hm, hname⟩
    exact ⟨m, ⟨c, hc, hm⟩, mem_introduced_iff.1 hname⟩
  · rintro ⟨m, ⟨c, hc, hm⟩, hname⟩
    exact ⟨c, hc, m, hm, mem_introduced_iff.2 hname⟩

/-! ### Uses -/

/-- The cvar that is used where it is mentioned: it is read, checked, registered or given by its address,
or there is no known shape to it. -/
def Shape.use? : Shape → Option String
  | .fieldRead name _ => some name
  | .rangeCheck name _ _ => some name
  | .registration name _ => some name
  | .addressOf name => some name
  | .unrecognized name _ => some name
  | .declaration .. => none
  | .setCall .. => none
  | .tableEntry .. => none

section Live

variable {v : Survey} {s : Scope} {claimed : List Nat} {n : Node}

/-- Where a cvar is used, its name stands for it. -/
def LiveUse (v : Survey) (s : Scope) (f : Finding) : Prop :=
  ∀ name, f.shape.use? = some name → isLive v s name = true

/-- What is used stands for a cvar. -/
theorem isLive_of_mem_effectOf {e : Effect} (he : effectOf v s claimed n = .ok e) :
    e.Finds (LiveUse v s) := by
  intro f hf name hname
  cases reports_effectOf he f hf with
  | declaration x isDefinition => cases hname
  | registration c hlive =>
      cases hname
      exact hlive
  | tableEntry entry name data => cases hname
  | fieldRead kind hlive =>
      cases hname
      exact hlive
  | setCall key => cases hname
  | rangeCheck min max hlive =>
      cases hname
      exact hlive
  | addressOf hlive =>
      cases hname
      exact hlive
  | unrecognized hkind hlive =>
      cases hname
      exact hlive

end Live

/-! ### Functions and their names -/

/-- **Inside a function no use is found under its own names.**  The walk of a source goes from visit to
visit, and all its findings are found there.  Every visited node is in the tree, with the nodes above
it, and the shadowed names are exactly those of the functions among it and these, whatever was visited
before.  If such a function introduces a name by a parameter, a loop over a range or a declaration in
it, nothing is found at the node that uses a cvar of this name. -/
theorem locals_hide_cvars (cfg : Settings) (sources : List Source) :
    (∀ source ∈ sources, walk cfg (collectGlobals cfg sources) source =
      ((visits ⟨[], []⟩ source.tree).foldlM
        (Visit.run ⟨cfg, collectGlobals cfg sources, source⟩) .none).map Effect.finds) ∧
    (∀ findings, walkAll cfg sources = .ok findings → ∀ found ∈ findings, ∃ source ∈ sources,
      ∃ x ∈ visits ⟨[], []⟩ source.tree,
        x.Emits ⟨cfg, collectGlobals cfg sources, source⟩ found) ∧
    ∀ source ∈ sources, ∀ x ∈ visits ⟨[], []⟩ source.tree,
      ⟨x.scope.above, x.node⟩ ∈ spots [] source.tree ∧
      (∀ name, name ∈ x.scope.shadowed ↔
        ∃ f ∈ x.node :: x.scope.above, opensScope f = true ∧ name ∈ localNames f) ∧
      ∀ f ∈ x.node :: x.scope.above, opensScope f = true → ∀ name, Introduces f name →
        ∀ found, x.Emits ⟨cfg, collectGlobals cfg sources, source⟩ found →
          found.shape.use? ≠ some name := by
  have hwalk : ∀ source : Source, walk cfg (collectGlobals cfg sources) source =
      ((visits ⟨[], []⟩ source.tree).foldlM
        (Visit.run ⟨cfg, collectGlobals cfg sources, source⟩) .none).map Effect.finds := by
    intro source
    rw [walk, visit_eq_foldlM]
    cases (visits ⟨[], []⟩ source.tree).foldlM
      (Visit.run ⟨cfg, collectGlobals cfg sources, source⟩) .none <;> rfl
  refine ⟨fun source _ => hwalk source, ?_, ?_⟩
  · intro findings h found hfound
    obtain ⟨lists, hlists, h⟩ := Outcome.bind_ok.1 h
    cases h
    obtain ⟨list, hlist, hfound⟩ := List.mem_flatten.1 hfound
    obtain ⟨source, hsource, hrun⟩ := exists_of_mem_mapM hlists hlist
    rw [hwalk] at hrun
    refine ⟨source, hsource, ?_⟩
    cases hdone : (visits ⟨[], []⟩ source.tree).foldlM
        (Visit.run ⟨cfg, collectGlobals cfg sources, source⟩) .none with
    | error e =>
        rw [hdone] at hrun
        cases hrun
    | ok done =>
        rw [hdone] at hrun
        cases hrun
        exact (emits_of_mem_foldlM hdone hfound).resolve_left (by simp [Effect.none])
  · intro source _ x hx
    have hvisits : visits ⟨[], []⟩ source.tree = _ := visits_eq_spots [] source.tree
    rw [hvisits] at hx
    obtain ⟨s, hs, rfl⟩ := List.mem_map.1 hx
    refine ⟨hs, fun name => mem_shadowedAt, ?_⟩
    rintro f hf hscope name hname found ⟨claimed, e, he, hfound⟩ huse
    have hlive := isLive_of_mem_effectOf he found hfound name huse
    have hshadowed : name ∈ shadowedAt (s.node :: s.above) :=
      mem_shadowedAt.2 ⟨f, hf, hscope, mem_localNames_iff.2 hname⟩
    simp [isLive, hshadowed] at hlive

/-- A parameter has the name of a cvar. -/
def hidden : Source :=
  sourceOf "vmCvar_t g;\nvoid f(int g) \x7b h(g); \x7d\n"
    (definitionRows 0 1 ++
      [partRow 1 "function_definition" none 12 35, partRow 2 "primitive_type" (some "type") 12 16,
        partRow 2 "function_declarator" (some "declarator") 17 25,
        partRow 3 "identifier" (some "declarator") 17 18,
        partRow 3 "parameter_list" (some "parameters") 18 25, markRow 4 "(" 18,
        partRow 4 "parameter_declaration" none 19 24, partRow 5 "primitive_type" (some "type") 19 22,
        partRow 5 "identifier" (some "declarator") 23 24, markRow 4 ")" 24,
        partRow 2 "compound_statement" (some "body") 26 35, markRow 3 "\x7b" 26,
        partRow 3 "expression_statement" none 28 33, partRow 4 "call_expression" none 28 32,
        partRow 5 "identifier" (some "function") 28 29,
        partRow 5 "argument_list" (some "arguments") 29 32, markRow 6 "(" 29,
        partRow 6 "identifier" none 30 31, markRow 6 ")" 31, markRow 4 ";" 32, markRow 3 "\x7d" 34])

theorem locals_hide_cvars_parameter :
    "g" ∈ (collectGlobals {} [hidden]).tracked ∧
      ∃ x ∈ visits ⟨[], []⟩ hidden.tree, x.node.kind = "identifier" ∧ x.node.text = "g" ∧
        placeOf ⟨{}, collectGlobals {} [hidden], hidden⟩ x.node = ⟨hidden.path, 2, 19⟩ ∧
        ∃ f ∈ x.scope.above, opensScope f = true ∧ Introduces f "g" ∧
          ∀ found, x.Emits ⟨{}, collectGlobals {} [hidden], hidden⟩ found →
            found.shape.use? ≠ some "g" := by
  have hvisit : ∃ x ∈ visits ⟨[], []⟩ hidden.tree, x.node.kind = "identifier" ∧ x.node.text = "g" ∧
      placeOf ⟨{}, collectGlobals {} [hidden], hidden⟩ x.node = ⟨hidden.path, 2, 19⟩ ∧
      ∃ f ∈ x.scope.above, opensScope f = true ∧ "g" ∈ localNames f := by decide +kernel
  obtain ⟨x, hx, hkind, htext, hplace, f, hf, hscope, hname⟩ := hvisit
  have hname := mem_localNames_iff.1 hname
  obtain ⟨-, -, hvisits⟩ := locals_hide_cvars {} [hidden]
  obtain ⟨-, -, hhidden⟩ := hvisits hidden List.mem_cons_self x hx
  exact ⟨by decide +kernel, x, hx, hkind, htext, hplace, f, hf, hscope, hname,
    hhidden f (List.mem_cons_of_mem _ hf) hscope "g" hname⟩

/-- A function declares another one inside, with the name of a cvar. -/
def declaring : Source :=
  sourceOf "vmCvar_t cg_foo;\nvoid f(int a) \x7b\n  int (cg_foo)(int); cg_foo;\n\x7d\n"
    (definitionRows 0 6 ++
      [partRow 1 "function_definition" none 17 63, partRow 2 "primitive_type" (some "type") 17 21,
        partRow 2 "function_declarator" (some "declarator") 22 30,
        partRow 3 "identifier" (some "declarator") 22 23,
        partRow 3 "parameter_list" (some "parameters") 23 30, markRow 4 "(" 23,
        partRow 4 "parameter_declaration" none 24 29, partRow 5 "primitive_type" (some "type") 24 27,
        partRow 5 "identifier" (some "declarator") 28 29, markRow 4 ")" 29,
        partRow 2 "compound_statement" (some "body") 31 63, markRow 3 "\x7b" 31,
        partRow 3 "declaration" none 35 53, partRow 4 "primitive_type" (some "type") 35 38,
        partRow 4 "function_declarator" (some "declarator") 39 52,
        partRow 5 "parenthesized_declarator" (some "declarator") 39 47, markRow 6 "(" 39,
        partRow 6 "identifier" none 40 46, markRow 6 ")" 46,
        partRow 5 "parameter_list" (some "parameters") 47 52, markRow 6 "(" 47,
        partRow 6 "parameter_declaration" none 48 51, partRow 7 "primitive_type" (some "type") 48 51,
        markRow 6 ")" 51, markRow 4 ";" 52, partRow 3 "expression_statement" none 54 61,
        partRow 4 "identifier" none 54 60, markRow 4 ";" 60, markRow 3 "\x7d" 62])

/-- **Functions hide no cvars**: where a function declares another one inside, a mention of its name is
found as a use of the cvar with this name. -/
theorem local_function_hides_nothing :
    walkAll {} [declaring] = .ok [⟨.declaration "cg_foo" true, ⟨declaring.path, 1, 10⟩⟩,
      ⟨.unrecognized "cg_foo" "int (cg_foo)(int); cg_foo;", ⟨declaring.path, 3, 8⟩⟩,
      ⟨.unrecognized "cg_foo" "int (cg_foo)(int); cg_foo;", ⟨declaring.path, 3, 22⟩⟩] ∧
    ∃ s ∈ spots [] declaring.tree,
      placeOf ⟨{}, collectGlobals {} [declaring], declaring⟩ s.node = ⟨declaring.path, 3, 22⟩ ∧
      ∃ f ∈ s.above, f.kind = "function_definition" ∧ ∃ n ∈ f.nodes, n.kind = "declaration" ∧
        ∃ d ∈ n.fields "declarator", d.kind = "function_declarator" ∧
          ((d.field? "declarator").bind innerDeclarator?).map Node.text = some s.node.text :=
  ⟨ok_of_toOption (by decide +kernel), by decide +kernel⟩

end Cvar

end Upkeep
