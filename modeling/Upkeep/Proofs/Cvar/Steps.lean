/-
**The steps of a walk.**

The walk hands on what was claimed and found.  Taken apart it is a list of steps, one for every node of
the tree in the order of the source: what was claimed before, and what the node itself does.

Main definitions:

* `Upkeep.Cvar.shadowedAt` — the names that the functions among some nodes introduce;
* `Upkeep.Cvar.Step`, `Upkeep.Cvar.steps` — the steps of a walk;
* `Upkeep.Cvar.Report`, `Upkeep.Cvar.reports` — findings with the nodes that report them.

Main results:

* `Upkeep.Cvar.walk_eq_reports` — **the findings of a walk are those of its steps**;
* `Upkeep.Cvar.steps_spots` — every node takes one step;
* `Upkeep.Cvar.sound_steps` — what is claimed before a step is what other steps claim, those of the
  nodes above among them.
-/

import Upkeep.Proofs.Cpp.Spots

set_option relaxedAutoImplicit false
set_option autoImplicit false

namespace Upkeep

namespace Cvar

open Cpp

/-! ### Effects one after the other -/

namespace Effect

@[simp] theorem claims_append (a b : Effect) : (a ++ b).claims = a.claims ++ b.claims := rfl

@[simp] theorem finds_append (a b : Effect) : (a ++ b).finds = a.finds ++ b.finds := rfl

theorem append_none (a : Effect) : a ++ none = a := by
  obtain ⟨claims, finds⟩ := a
  change (⟨claims ++ [], finds ++ []⟩ : Effect) = _
  rw [List.append_nil, List.append_nil]

theorem append_assoc (a b c : Effect) : a ++ b ++ c = a ++ (b ++ c) := by
  change (⟨_, _⟩ : Effect) = ⟨_, _⟩
  rw [claims_append, finds_append, List.append_assoc, List.append_assoc]
  rfl

@[simp] theorem all_nil : all [] = none := rfl

@[simp] theorem all_cons (e : Effect) (es : List Effect) : all (e :: es) = e ++ all es := rfl

theorem all_append (es es' : List Effect) : all (es ++ es') = all es ++ all es' := by
  rw [all, List.flatMap_append, List.flatMap_append]
  rfl

end Effect

/-! ### Steps -/

/-- The names that the functions among some nodes introduce. -/
def shadowedAt (nodes : List Node) : List String := (nodes.filter opensScope).flatMap localNames

/-- The scope of a node itself. -/
theorem enter_scope (above : List Node) (n : Node) :
    (⟨above, shadowedAt above⟩ : Scope).enter n = ⟨above, shadowedAt (n :: above)⟩ := by
  rw [Scope.enter, shadowedAt, shadowedAt, List.filter_cons]
  split <;> rfl

/-- A step of the walk: the node with what lies above it, what was claimed before, and what the node
does. -/
structure Step where
  spot : Spot
  claimed : List Nat
  effect : Effect

/-- What some steps do together. -/
def effectOfSteps (ss : List Step) : Effect := .all (ss.map Step.effect)

mutual

/-- The steps of the walk of a tree, given what was claimed before. -/
def steps (v : Survey) (above : List Node) (claimed : List Nat) : Node → Outcome (List Step)
  | .mk l cs => do
    let e ← effectOf v ⟨above, shadowedAt (.mk l cs :: above)⟩ claimed (.mk l cs)
    let inner ← stepsOf v (.mk l cs :: above) (claimed ++ e.claims) cs
    return ⟨⟨above, .mk l cs⟩, claimed, e⟩ :: inner

/-- The steps of the walk of some trees, one after the other. -/
def stepsOf (v : Survey) (above : List Node) (claimed : List Nat) :
    List Node → Outcome (List Step)
  | [] => .ok []
  | c :: cs => do
    let first ← steps v above claimed c
    let rest ← stepsOf v above (claimed ++ (effectOfSteps first).claims) cs
    return first ++ rest

end

variable {v : Survey} {above : List Node} {claimed : List Nat}

theorem steps_ok {n : Node} {ss : List Step} (h : steps v above claimed n = .ok ss) :
    ∃ e inner, effectOf v ⟨above, shadowedAt (n :: above)⟩ claimed n = .ok e ∧
      stepsOf v (n :: above) (claimed ++ e.claims) n.children = .ok inner ∧
      ss = ⟨⟨above, n⟩, claimed, e⟩ :: inner := by
  cases n with
  | mk l cs =>
      rw [steps] at h
      cases he : effectOf v ⟨above, shadowedAt (.mk l cs :: above)⟩ claimed (.mk l cs) with
      | error e =>
          rw [he] at h
          cases h
      | ok e =>
          cases hinner : stepsOf v (.mk l cs :: above) (claimed ++ e.claims) cs with
          | error e' =>
              simp only [he, hinner, bind, Except.bind] at h
              cases h
          | ok inner =>
              simp only [he, hinner, bind, Except.bind] at h
              cases h
              exact ⟨e, inner, rfl, hinner, rfl⟩

theorem stepsOf_cons_ok {c : Node} {cs : List Node} {ss : List Step}
    (h : stepsOf v above claimed (c :: cs) = .ok ss) :
    ∃ first rest, steps v above claimed c = .ok first ∧
      stepsOf v above (claimed ++ (effectOfSteps first).claims) cs = .ok rest ∧
      ss = first ++ rest := by
  rw [stepsOf] at h
  cases hfirst : steps v above claimed c with
  | error e =>
      rw [hfirst] at h
      cases h
  | ok first =>
      cases hrest : stepsOf v above (claimed ++ (effectOfSteps first).claims) cs with
      | error e =>
          simp only [hfirst, hrest, bind, Except.bind] at h
          cases h
      | ok rest =>
          simp only [hfirst, hrest, bind, Except.bind] at h
          cases h
          exact ⟨first, rest, rfl, hrest, rfl⟩

mutual

/-- The walk of a tree does what its steps do. -/
theorem visit_eq_steps (v : Survey) (above : List Node) (done : Effect) :
    (n : Node) → visit v ⟨above, shadowedAt above⟩ done n =
      (steps v above done.claims n).map fun ss => done ++ effectOfSteps ss
  | .mk l cs => by
      rw [visit, steps, enter_scope]
      cases effectOf v ⟨above, shadowedAt (.mk l cs :: above)⟩ done.claims (.mk l cs) with
      | error e => rfl
      | ok e =>
          have hinner := visitAll_eq_steps v (.mk l cs :: above) (done ++ e) cs
          simp only [bind, Except.bind, Scope.below, hinner, Effect.claims_append]
          cases stepsOf v (.mk l cs :: above) (done.claims ++ e.claims) cs with
          | error e' => rfl
          | ok inner =>
              refine congrArg Except.ok ?_
              exact Effect.append_assoc done e (effectOfSteps inner)

theorem visitAll_eq_steps (v : Survey) (above : List Node) (done : Effect) :
    (ns : List Node) → visitAll v ⟨above, shadowedAt above⟩ done ns =
      (stepsOf v above done.claims ns).map fun ss => done ++ effectOfSteps ss
  | [] => congrArg Except.ok (Effect.append_none done).symm
  | n :: ns => by
      rw [visitAll, stepsOf, visit_eq_steps v above done n]
      cases steps v above done.claims n with
      | error e => rfl
      | ok first =>
          have hrest := visitAll_eq_steps v above (done ++ effectOfSteps first) ns
          simp only [bind, Except.bind, Except.map, hrest, Effect.claims_append]
          cases stepsOf v above (done.claims ++ (effectOfSteps first).claims) ns with
          | error e' => rfl
          | ok rest =>
              refine congrArg Except.ok ?_
              rw [Effect.append_assoc, effectOfSteps, effectOfSteps, effectOfSteps, List.map_append,
                Effect.all_append]

end

/-! ### Reports -/

/-- A finding and the node that reports it. -/
structure Report where
  node : Node
  finding : Finding

/-- What a step reports. -/
def Step.reports (s : Step) : List Report := s.effect.finds.map fun f => ⟨s.spot.node, f⟩

/-- The findings of a source with the nodes that report them. -/
def reports (cfg : Settings) (globals : Globals) (source : Source) : Outcome (List Report) := do
  return (← steps ⟨cfg, globals, source⟩ [] [] source.tree).flatMap Step.reports

theorem map_finding_reports (ss : List Step) :
    (ss.flatMap Step.reports).map Report.finding = (effectOfSteps ss).finds := by
  induction ss with
  | nil => rfl
  | cons s ss ih =>
      have hstep : s.reports.map Report.finding = s.effect.finds := by
        rw [Step.reports, List.map_map]
        exact List.map_id _
      rw [List.flatMap_cons, List.map_append, ih, hstep]
      rfl

/-- **The findings of a walk are those of its steps.** -/
theorem walk_eq_reports (cfg : Settings) (globals : Globals) (source : Source) :
    walk cfg globals source = (reports cfg globals source).map (·.map Report.finding) := by
  have hvisit : visit ⟨cfg, globals, source⟩ ⟨[], []⟩ .none source.tree =
      (steps ⟨cfg, globals, source⟩ [] [] source.tree).map fun ss => .none ++ effectOfSteps ss :=
    visit_eq_steps ⟨cfg, globals, source⟩ [] .none source.tree
  rw [walk, reports, hvisit]
  cases steps ⟨cfg, globals, source⟩ [] [] source.tree with
  | error e => rfl
  | ok ss => exact congrArg Except.ok (map_finding_reports ss).symm

/-! ### Order of steps -/

mutual

/-- Every node takes one step. -/
theorem steps_spots {v : Survey} {above : List Node} {claimed : List Nat} :
    (n : Node) → {ss : List Step} → steps v above claimed n = .ok ss →
      ss.map Step.spot = spots above n
  | .mk l cs, ss, h => by
      obtain ⟨e, inner, -, hinner, rfl⟩ := steps_ok h
      rw [List.map_cons, spots, stepsOf_spots cs hinner]

theorem stepsOf_spots {v : Survey} {above : List Node} {claimed : List Nat} :
    (ns : List Node) → {ss : List Step} → stepsOf v above claimed ns = .ok ss →
      ss.map Step.spot = spotsOf above ns
  | [], ss, h => by
      cases h
      rfl
  | n :: ns, ss, h => by
      obtain ⟨first, rest, hfirst, hrest, rfl⟩ := stepsOf_cons_ok h
      rw [List.map_append, spotsOf, steps_spots n hfirst, stepsOf_spots ns hrest]

end

/-- What holds of every step of a walk: the node does what it does in its scope, what was claimed in the
beginning or by the nodes above was claimed before, and all else that was claimed before was claimed
by another step. -/
structure Sound (v : Survey) (above : List Node) (claimed : List Nat) (ss : List Step)
    (s : Step) : Prop where
  effect : effectOf v ⟨s.spot.above, shadowedAt (s.spot.node :: s.spot.above)⟩ s.claimed
    s.spot.node = .ok s.effect
  begun : claimed ⊆ s.claimed
  earlier : ∀ c ∈ s.claimed, c ∈ claimed ∨ ∃ s' ∈ ss, c ∈ s'.effect.claims
  above : ∀ a ∈ s.spot.above, a ∈ above ∨ ∃ s' ∈ ss, s'.spot.node = a ∧
    s'.claimed ++ s'.effect.claims ⊆ s.claimed

/-- More steps do no harm. -/
theorem Sound.mono {ss ss' : List Step} {s : Step} (h : Sound v above claimed ss s) (hss : ss ⊆ ss') :
    Sound v above claimed ss' s := by
  refine ⟨h.effect, h.begun, ?_, ?_⟩
  · intro c hc
    rcases h.earlier c hc with hc | ⟨s', hs', hc⟩
    · exact .inl hc
    · exact .inr ⟨s', hss hs', hc⟩
  · intro a ha
    rcases h.above a ha with ha | ⟨s', hs', ha⟩
    · exact .inl ha
    · exact .inr ⟨s', hss hs', ha⟩

/-- Steps that begin later see what was claimed by the steps before them. -/
theorem Sound.after {ss ss' : List Step} {s : Step}
    (h : Sound v above (claimed ++ (effectOfSteps ss').claims) ss s) :
    Sound v above claimed (ss' ++ ss) s := by
  have h' := h.mono (List.subset_append_right ss' ss)
  refine ⟨h'.effect, fun c hc => h'.begun (List.mem_append_left _ hc), ?_, h'.above⟩
  intro c hc
  rcases h'.earlier c hc with hc | hc
  · rcases List.mem_append.1 hc with hc | hc
    · exact .inl hc
    · obtain ⟨e, he, hc⟩ := List.mem_flatMap.1 hc
      obtain ⟨s', hs', rfl⟩ := List.mem_map.1 he
      exact .inr ⟨s', List.mem_append_left _ hs', hc⟩
  · exact .inr hc

mutual

theorem sound_steps {v : Survey} {above : List Node} {claimed : List Nat} :
    (n : Node) → {ss : List Step} → steps v above claimed n = .ok ss →
      ∀ s ∈ ss, Sound v above claimed ss s
  | .mk l cs, ss, h => by
      obtain ⟨e, inner, he, hinner, rfl⟩ := steps_ok h
      intro s hs
      rcases List.mem_cons.1 hs with rfl | hs
      · exact ⟨he, List.Subset.refl _, fun c hc => .inl hc, fun a ha => .inl ha⟩
      · -- The step of the node itself comes first.
        have hsound := sound_stepsOf cs hinner s hs
        refine ⟨hsound.effect, fun c hc => hsound.begun (List.mem_append_left _ hc), ?_, ?_⟩
        · intro c hc
          rcases hsound.earlier c hc with hc | ⟨s', hs', hc⟩
          · rcases List.mem_append.1 hc with hc | hc
            · exact .inl hc
            · exact .inr ⟨_, List.mem_cons_self, hc⟩
          · exact .inr ⟨s', List.mem_cons_of_mem _ hs', hc⟩
        · intro a ha
          rcases hsound.above a ha with ha | ⟨s', hs', ha⟩
          · rcases List.mem_cons.1 ha with rfl | ha
            · exact .inr ⟨_, List.mem_cons_self, rfl, hsound.begun⟩
            · exact .inl ha
          · exact .inr ⟨s', List.mem_cons_of_mem _ hs', ha⟩

theorem sound_stepsOf {v : Survey} {above : List Node} {claimed : List Nat} :
    (ns : List Node) → {ss : List Step} → stepsOf v above claimed ns = .ok ss →
      ∀ s ∈ ss, Sound v above claimed ss s
  | [], ss, h => by
      cases h
      simp
  | n :: ns, ss, h => by
      obtain ⟨first, rest, hfirst, hrest, rfl⟩ := stepsOf_cons_ok h
      intro s hs
      rcases List.mem_append.1 hs with hs | hs
      · exact (sound_steps n hfirst s hs).mono (List.subset_append_left first rest)
      · exact (sound_stepsOf ns hrest s hs).after

end

end Cvar

end Upkeep
