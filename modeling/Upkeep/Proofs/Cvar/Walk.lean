/-
**Where findings come from.**

The walk hands on what was done from node to node.  Whatever it finds is found by one node of the
tree, and a mention without a known shape by an identifier with the name.

Main definitions:

* `Upkeep.Cpp.Node.nodes` — all nodes of a tree;
* `Upkeep.Cvar.FoundBy` — what a node finds;
* `Upkeep.Cvar.Reports` — what may be found at a node.

Main results:

* `Upkeep.Cvar.foundBy_of_mem_walkAll` — every finding is found by a node of a tree;
* `Upkeep.Cvar.reports_effectOf` — **what a node finds**;
* `Upkeep.Cvar.FoundBy.of_unrecognized`, `Upkeep.Cvar.FoundBy.of_setCall` — mentions without a known
  shape are identifiers, and writes are calls.
-/

import Upkeep.Cvar.Walk
import Upkeep.Proofs.Data.Outcome

set_option relaxedAutoImplicit false
set_option autoImplicit false

namespace Upkeep

/-! ### Nodes -/

namespace Cpp.Node

mutual

/-- A node and all nodes below it. -/
def nodes : Node → List Node
  | .mk l cs => .mk l cs :: nodesOf cs

/-- Some nodes and all nodes below them. -/
def nodesOf : List Node → List Node
  | [] => []
  | c :: cs => nodes c ++ nodesOf cs

end

end Cpp.Node

namespace Cvar

open Cpp

/-! ### Findings of a walk -/

/-- A finding of a node, whatever was known and claimed when the walk came to it. -/
def FoundBy (v : Survey) (n : Node) (f : Finding) : Prop :=
  ∃ s claimed e, effectOf v s claimed n = .ok e ∧ f ∈ e.finds

mutual

/-- What is found in a tree was found before, or one of its nodes finds it. -/
theorem foundBy_of_mem_visit {v : Survey} {s : Scope} {done done' : Effect} {f : Finding} :
    (n : Node) → visit v s done n = .ok done' → f ∈ done'.finds →
      f ∈ done.finds ∨ ∃ m ∈ n.nodes, FoundBy v m f
  | .mk l cs, h, hf => by
      rw [visit] at h
      cases he : effectOf v (s.enter (.mk l cs)) done.claims (.mk l cs) with
      | error e =>
          rw [he] at h
          cases h
      | ok e =>
          rw [he] at h
          rw [Node.nodes]
          rcases foundBy_of_mem_visitAll cs h hf with hf | ⟨m, hm, hfound⟩
          · rcases List.mem_append.1 hf with hf | hf
            · exact .inl hf
            · exact .inr ⟨.mk l cs, List.mem_cons_self, _, _, e, he, hf⟩
          · exact .inr ⟨m, List.mem_cons_of_mem _ hm, hfound⟩

theorem foundBy_of_mem_visitAll {v : Survey} {s : Scope} {done done' : Effect} {f : Finding} :
    (ns : List Node) → visitAll v s done ns = .ok done' → f ∈ done'.finds →
      f ∈ done.finds ∨ ∃ m ∈ Node.nodesOf ns, FoundBy v m f
  | [], h, hf => by
      cases h
      exact .inl hf
  | n :: ns, h, hf => by
      rw [visitAll] at h
      rw [Node.nodesOf]
      cases hn : visit v s done n with
      | error e =>
          rw [hn] at h
          cases h
      | ok mid =>
          rw [hn] at h
          rcases foundBy_of_mem_visitAll ns h hf with hf | ⟨m, hm, hfound⟩
          · rcases foundBy_of_mem_visit n hn hf with hf | ⟨m, hm, hfound⟩
            · exact .inl hf
            · exact .inr ⟨m, List.mem_append_left _ hm, hfound⟩
          · exact .inr ⟨m, List.mem_append_right _ hm, hfound⟩

end

/-- Every finding is found by a node of a tree. -/
theorem foundBy_of_mem_walkAll {cfg : Settings} {files : List Source} {findings : List Finding}
    (h : walkAll cfg files = .ok findings) {f : Finding} (hf : f ∈ findings) :
    ∃ source ∈ files, ∃ n ∈ source.tree.nodes,
      FoundBy ⟨cfg, collectGlobals cfg files, source⟩ n f := by
  rw [walkAll] at h
  cases hall : files.mapM (walk cfg (collectGlobals cfg files)) with
  | error e =>
      simp only [hall] at h
      cases h
  | ok found =>
      simp only [hall] at h
      cases h
      obtain ⟨fs, hfs, hf⟩ := List.mem_flatten.1 hf
      obtain ⟨source, hsource, hwalk⟩ := exists_of_mem_mapM hall hfs
      refine ⟨source, hsource, ?_⟩
      rw [walk] at hwalk
      cases hvisit : visit ⟨cfg, collectGlobals cfg files, source⟩ ⟨[], []⟩ .none source.tree with
      | error e =>
          rw [hvisit] at hwalk
          cases hwalk
      | ok done =>
          rw [hvisit] at hwalk
          cases hwalk
          rcases foundBy_of_mem_visit source.tree hvisit hf with hf | hfound
          · simp [Effect.none] at hf
          · exact hfound

/-! ### What a node finds -/

namespace Effect

/-- All findings of an effect have a property. -/
def Finds (P : Finding → Prop) (e : Effect) : Prop := ∀ f ∈ e.finds, P f

variable {P : Finding → Prop}

theorem finds_none : none.Finds P := by simp [Finds, none]

theorem finds_single {claims : List Nat} {f : Finding} (h : P f) : (⟨claims, [f]⟩ : Effect).Finds P := by
  simpa [Finds] using h

theorem Finds.append {a b : Effect} (ha : a.Finds P) (hb : b.Finds P) : (a ++ b).Finds P := by
  intro f hf
  rcases List.mem_append.1 hf with hf | hf
  · exact ha f hf
  · exact hb f hf

theorem finds_all {es : List Effect} (h : ∀ e ∈ es, e.Finds P) : (all es).Finds P := by
  intro f hf
  obtain ⟨e, he, hf⟩ := List.mem_flatMap.1 hf
  exact h e he f hf

end Effect

/-- Whether a shape is one of the known ones. -/
def Shape.isKnown : Shape → Bool
  | .unrecognized .. => false
  | _ => true

/-- What may be found at a node in a scope.  Wherever a cvar is used, its name stands for it. -/
inductive Reports (v : Survey) (s : Scope) (n : Node) : Finding → Prop where
  | declaration (x : Node) (isDefinition : Bool) :
      Reports v s n (foundAt v x (.declaration x.text isDefinition))
  | registration {name : String} (c : Node) (hlive : isLive v s name = true) :
      Reports v s n (foundAt v c (.registration name (registrationOf c)))
  | tableEntry (entry : Node) (name : String) (data : Registration) :
      Reports v s n (foundAt v entry (.tableEntry name data))
  | fieldRead {x : Node} (kind : ReadKind) (hlive : isLive v s x.text = true) :
      Reports v s n (foundAt v x (.fieldRead x.text kind))
  | setCall (key : String) :
      Reports v s n (foundAt v n (.setCall key (argumentText (arguments n) 1) n.text))
  | rangeCheck {x : Node} (min max : String) (hlive : isLive v s x.text = true) :
      Reports v s n (foundAt v n (.rangeCheck x.text min max))
  | addressOf {x : Node} (hlive : isLive v s x.text = true) :
      Reports v s n (foundAt v n (.addressOf x.text))
  | unrecognized (hkind : n.kind = "identifier") (hlive : isLive v s n.text = true) :
      Reports v s n (foundAt v n (.unrecognized n.text (Text.trim (v.source.line n.line))))

section Reports

variable {v : Survey} {s : Scope} {claimed : List Nat} {n : Node}

theorem reports_registration {name : String} (hlive : isLive v s name = true) (c : Node) :
    (registration v name c).Finds (Reports v s n) := by
  rw [registration]
  split
  · exact Effect.finds_single (.registration c hlive)
  · exact Effect.finds_none

theorem reports_tableEntry {entry : Node} {e : Effect} (h : tableEntry v entry = .ok e) :
    e.Finds (Reports v s n) := by
  rw [tableEntry] at h
  split at h
  · cases h
  · cases h
    exact Effect.finds_none
  · cases h
    exact Effect.finds_none
  · cases h
    exact Effect.finds_single (.tableEntry entry _ _)

theorem reports_declarator (external : Bool) (d : Node) :
    (declarator v s external d).Finds (Reports v s n) := by
  rw [declarator]
  split
  · exact Effect.finds_none
  · rename_i x _
    have hdeclared : ∀ isDefinition : Bool,
        (⟨[x.id], [foundAt v x (.declaration x.text isDefinition)]⟩ : Effect).Finds (Reports v s n) :=
      fun isDefinition => Effect.finds_single (.declaration x isDefinition)
    dsimp only
    split
    · split
      · rename_i hlive
        exact (hdeclared _).append (reports_registration hlive _)
      · exact hdeclared _
    · exact hdeclared _

theorem reports_declaration {e : Effect} (h : declaration v s n = .ok e) : e.Finds (Reports v s n) := by
  rw [declaration] at h
  split at h
  · obtain ⟨es, hentries, h⟩ := Outcome.bind_ok.1 h
    cases h
    refine Effect.finds_all fun e he => ?_
    obtain ⟨entry, -, hentry⟩ := exists_of_mem_mapM hentries he
    exact reports_tableEntry hentry
  · split at h
    · cases h
      refine Effect.finds_all fun e he => ?_
      obtain ⟨d, -, rfl⟩ := List.mem_map.1 he
      exact reports_declarator _ d
    · cases h
      exact Effect.finds_none

theorem reports_fieldRead : (fieldRead v s claimed n).Finds (Reports v s n) := by
  rw [fieldRead]
  split
  · split
    · exact Effect.finds_none
    · rename_i hlive
      rw [Bool.or_eq_true, not_or, Bool.not_eq_true', Bool.not_eq_false] at hlive
      exact Effect.finds_single (.fieldRead _ hlive.2)
  · exact Effect.finds_none

theorem reports_call : (call v s claimed n).Finds (Reports v s n) := by
  rw [call]
  split
  · exact Effect.finds_none
  · split
    · exact Effect.finds_none
    · split
      · rw [setCall]
        split
        · exact Effect.finds_none
        · exact Effect.finds_single (.setCall _)
      · split
        · rw [rangeCheck]
          split
          · exact Effect.finds_none
          · split
            · exact Effect.finds_none
            · split
              · rename_i hlive
                exact Effect.finds_single (.rangeCheck _ _ hlive)
              · exact Effect.finds_none
        · exact Effect.finds_none

theorem reports_assignment : (assignment v s n).Finds (Reports v s n) := by
  rw [assignment]
  split
  · split
    · rename_i hlive
      simp only [Bool.and_eq_true] at hlive
      exact Effect.Finds.append (by simp [Effect.Finds]) (reports_registration hlive.1.2 _)
    · exact Effect.finds_none
  · exact Effect.finds_none

theorem reports_addressOf : (addressOf v s claimed n).Finds (Reports v s n) := by
  rw [addressOf]
  split
  · exact Effect.finds_none
  · split
    · exact Effect.finds_none
    · split
      · exact Effect.finds_none
      · rename_i hlive
        rw [Bool.or_eq_true, not_or, Bool.not_eq_true', Bool.not_eq_false] at hlive
        exact Effect.finds_single (.addressOf hlive.2)

theorem reports_unrecognized (hkind : n.kind = "identifier") :
    (unrecognized v s claimed n).Finds (Reports v s n) := by
  rw [unrecognized]
  split
  · exact Effect.finds_none
  · rename_i hlive
    rw [Bool.or_eq_true, not_or, Bool.or_eq_true, not_or, Bool.not_eq_true', Bool.not_eq_false] at hlive
    exact Effect.finds_single (.unrecognized hkind hlive.1.2)

/-- **What a node finds** has one of the known shapes, or none. -/
theorem reports_effectOf {e : Effect} (he : effectOf v s claimed n = .ok e) : e.Finds (Reports v s n) := by
  rw [effectOf] at he
  split at he
  · exact reports_declaration he
  · cases he
    exact reports_fieldRead
  · cases he
    exact reports_call
  · cases he
    exact reports_assignment
  · cases he
    exact reports_addressOf
  · rename_i hkind
    cases he
    exact reports_unrecognized hkind
  · cases he
    exact Effect.finds_none

theorem FoundBy.reports {f : Finding} (h : FoundBy v n f) : ∃ s, Reports v s n f := by
  obtain ⟨s, claimed, e, he, hf⟩ := h
  exact ⟨s, reports_effectOf he f hf⟩

/-- Mentions without a known shape are identifiers with the name, where they are found. -/
theorem FoundBy.of_unrecognized {name context : String} {o : Occurrence}
    (h : FoundBy v n ⟨.unrecognized name context, o⟩) :
    n.kind = "identifier" ∧ n.text = name ∧ o = placeOf v n := by
  obtain ⟨s, h⟩ := h.reports
  cases h with
  | unrecognized hkind hlive => exact ⟨hkind, rfl, rfl⟩

/-- Writes are calls, and their values are arguments. -/
theorem FoundBy.of_setCall {key value text : String} {o : Occurrence}
    (h : FoundBy v n ⟨.setCall key value text, o⟩) :
    text = n.text ∧ value = argumentText (arguments n) 1 := by
  obtain ⟨s, h⟩ := h.reports
  cases h with
  | setCall key => exact ⟨rfl, rfl⟩

end Reports

end Cvar

end Upkeep
