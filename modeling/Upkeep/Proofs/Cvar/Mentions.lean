/-
**Every live mention is accounted for.**

An identifier mentions a cvar if its name is tracked and no function around it introduces the name.
When the walk comes to it, either it is reported as a use of no known shape, or it was claimed before.
Then the step that claimed it belongs to a node above, which reports it.

Main definitions:

* `Upkeep.Cvar.Spot.IsMention`, `Upkeep.Cvar.Spot.IsCallee` — mentions of cvars, functions of calls.

Main results:

* `Upkeep.Cvar.mem_claimed_of_report` — what is reported by a known shape was claimed before;
* `Upkeep.Cvar.live_mention_accounted` — **a mention is the callee of a call, or some finding
  accounts for it, and never both a use of a known shape and one of no known shape**.
-/

import Upkeep.Proofs.Cvar.Accounts
import Upkeep.Proofs.Cvar.Analysis

set_option relaxedAutoImplicit false
set_option autoImplicit false

namespace Upkeep

namespace Cvar

open Cpp

/-! ### Mentions -/

/-- An identifier with a tracked name that no function around it introduces. -/
structure Spot.IsMention (globals : Globals) (s : Spot) : Prop where
  kind : s.node.kind = "identifier"
  tracked : s.node.text ∈ globals.tracked
  free : ∀ f ∈ s.above, opensScope f = true → s.node.text ∉ localNames f

/-- The node is the function of the call around it. -/
def Spot.IsCallee (s : Spot) : Prop :=
  ∃ call ∈ s.above.head?, call.kind = "call_expression" ∧ call.field? "function" = some s.node

instance (globals : Globals) (s : Spot) : Decidable (s.IsMention globals) :=
  decidable_of_iff
    (s.node.kind = "identifier" ∧ s.node.text ∈ globals.tracked ∧
      ∀ f ∈ s.above, opensScope f = true → s.node.text ∉ localNames f)
    ⟨fun h => ⟨h.1, h.2.1, h.2.2⟩, fun h => ⟨h.kind, h.tracked, h.free⟩⟩

theorem mem_shadowedAt {nodes : List Node} {name : String} :
    name ∈ shadowedAt nodes ↔ ∃ f ∈ nodes, opensScope f = true ∧ name ∈ localNames f := by
  simp only [shadowedAt, List.mem_flatMap, List.mem_filter, and_assoc]

variable {v : Survey} {t : Node} {s : Spot}

/-- The name of a mention stands for the cvar at the mention and at the nodes around it. -/
theorem Spot.IsMention.isLive (h : s.IsMention v.globals) {nodes : List Node}
    (hnodes : nodes ⊆ s.node :: s.above) (above : List Node) :
    isLive v ⟨above, shadowedAt nodes⟩ s.node.text = true := by
  have hfree : s.node.text ∉ shadowedAt nodes := by
    rw [mem_shadowedAt]
    rintro ⟨f, hf, hscope, hname⟩
    rcases List.mem_cons.1 (hnodes hf) with rfl | hf
    · simp [opensScope, h.kind] at hscope
    · exact h.free f hf hscope hname
  simp [Cvar.isLive, h.tracked, hfree]

/-- The function of the call around a node is this node, if it has its number. -/
theorem isCallee_of_isCallee (ht : t.Numbered) (hs : s ∈ spots [] t) {shadowed : List String}
    (h : isCallee ⟨s.above, shadowed⟩ s.node = true) : s.IsCallee := by
  rcases exists_parent_of_mem_spots t hs with rfl | ⟨p, hp, habove, -⟩
  · cases h
  · rw [isCallee, habove] at h
    simp only [Bool.and_eq_true, beq_iff_eq, Option.map_eq_some_iff] at h
    obtain ⟨hkind, f, hf, hid⟩ := h
    obtain ⟨s', hs', rfl, -⟩ := exists_spot_below hp (mem_inside_of_field? hf)
    refine ⟨p.node, by rw [habove]; rfl, hkind, ?_⟩
    rw [← eq_of_id_eq ht hs' hs hid]
    exact hf

/-! ### Steps and the steps above -/

variable {ss : List Step} {st st' : Step}

theorem spot_mem_spots (h : steps v [] [] t = .ok ss) (hst : st ∈ ss) : st.spot ∈ spots [] t := by
  rw [← steps_spots t h]
  exact List.mem_map_of_mem hst

theorem exists_step (h : steps v [] [] t = .ok ss) (hs : s ∈ spots [] t) :
    ∃ st ∈ ss, st.spot = s := by
  rw [← steps_spots t h] at hs
  exact List.mem_map.1 hs

/-- In a numbered tree a node takes one step. -/
theorem step_eq (ht : t.Numbered) (h : steps v [] [] t = .ok ss) (hst : st ∈ ss) (hst' : st' ∈ ss)
    (hid : st.spot.node.id = st'.spot.node.id) : st = st' := by
  rw [Node.Numbered, ← map_node_spots [] t, ← steps_spots t h, List.map_map, List.map_map] at ht
  exact List.inj_on_of_nodup_map ht hst hst' hid

/-- What was claimed before the step of a node and by it was claimed before the steps of the nodes
below. -/
theorem claimed_of_inside (ht : t.Numbered) (h : steps v [] [] t = .ok ss) (hst : st ∈ ss)
    (hst' : st' ∈ ss) (hin : st'.spot.node ∈ st.spot.node.inside) :
    st.claimed ++ st.effect.claims ⊆ st'.claimed := by
  have hsuffix := suffix_of_mem_inside ht (spot_mem_spots h hst) (spot_mem_spots h hst') hin
  have habove : st.spot.node ∈ st'.spot.above := hsuffix.subset List.mem_cons_self
  rcases (sound_steps t h st' hst').above _ habove with hnil | ⟨st'', hst'', hnode, hclaims⟩
  · cases hnil
  · rwa [step_eq ht h hst hst'' (by rw [hnode])]

/-- What was claimed before a step was claimed by a step of the node itself or of a node around it,
which accounts for it. -/
theorem exists_step_of_claimed (ht : t.Numbered) (h : steps v [] [] t = .ok ss) (hst : st ∈ ss)
    (hs : s ∈ spots [] t) (hclaimed : s.node.id ∈ st.claimed) :
    ∃ st' ∈ ss, s.node ∈ st'.spot.node.nodes ∧
      (s.node.kind = "identifier" → ∃ f ∈ st'.effect.finds, f.shape.isKnown = true ∧
        AccountsFor v s.node ⟨st'.spot.node, f⟩) ∧
      ∀ y, address? s.node = some y → y.id ∈ st'.effect.claims := by
  rcases (sound_steps t h st hst).earlier _ hclaimed with hnil | ⟨st', hst', hmem⟩
  · cases hnil
  · obtain ⟨x, hx, hid, hfound, haddress⟩ :=
      accounted_effectOf (sound_steps t h st' hst').effect _ hmem
    -- The node with this number is the one that we look at.
    have hnode : x = s.node := by
      have hspot := spot_mem_spots h hst'
      rw [Node.nodes_eq, List.mem_cons] at hx
      rcases hx with rfl | hx
      · rw [eq_of_id_eq ht hspot hs hid]
      · obtain ⟨s', hs', rfl, -⟩ := exists_spot_below hspot hx
        rw [eq_of_id_eq ht hs' hs hid]
    subst hnode
    exact ⟨st', hst', hx, hfound, haddress⟩

/-! ### Reports and claims -/

/-- The address of a mention claims it, if the name is plain and nothing claimed it before. -/
theorem mem_claimed_of_address (ht : t.Numbered) (h : steps v [] [] t = .ok ss) (hst : st ∈ ss)
    (hmention : st.spot.IsMention v.globals) (hplain : isPlainName st.spot.node.text = true)
    {s' : Spot} (hs' : s' ∈ spots [] t) (haddress : address? s'.node = some st.spot.node) :
    st.spot.node.id ∈ st.claimed := by
  obtain ⟨st', hst', rfl⟩ := exists_step h hs'
  have hin := mem_inside_of_address? haddress
  have hclaimed := claimed_of_inside ht h hst' hst hin
  have heffect := (sound_steps t h st' hst').effect
  simp only [effectOf, (kind_of_address? haddress).1, addressOf, Except.ok.injEq] at heffect
  split at heffect
  · -- The address was claimed with the mention by a node around them.
    rename_i hbefore
    obtain ⟨st'', hst'', hmem, -, hboth⟩ :=
      exists_step_of_claimed ht h hst' hs' (List.contains_iff_mem.1 hbefore)
    have hin' : st.spot.node ∈ st''.spot.node.inside := by
      rw [Node.nodes_eq, List.mem_cons] at hmem
      rcases hmem with hmem | hmem
      · rwa [← hmem]
      · exact Node.mem_inside_trans hmem (Node.mem_nodes_of_mem_inside hin)
    exact claimed_of_inside ht h hst'' hst hin' (List.mem_append_right _ (hboth _ haddress))
  · rw [haddress] at heffect
    dsimp only at heffect
    have hsuffix := suffix_of_mem_inside ht hs' (spot_mem_spots h hst) hin
    have hlive := hmention.isLive (fun f hf => List.mem_cons_of_mem _ (hsuffix.subset hf))
      st'.spot.above
    by_cases hbefore : st.spot.node.id ∈ st'.claimed
    · exact hclaimed (List.mem_append_left _ hbefore)
    · rw [if_neg (by simp [hbefore, hplain, hlive])] at heffect
      refine hclaimed (List.mem_append_right _ ?_)
      rw [← heffect]
      exact List.mem_singleton_self _

/-- What is reported about a mention by a known shape was claimed before the walk came to it. -/
theorem mem_claimed_of_report (ht : t.Numbered) (h : steps v [] [] t = .ok ss) (hst : st ∈ ss)
    (hmention : st.spot.IsMention v.globals) (hst' : st' ∈ ss) {f : Finding}
    (hf : f ∈ st'.effect.finds) (hknown : f.shape.isKnown = true)
    (hreport : AccountsFor v st.spot.node ⟨st'.spot.node, f⟩) : st.spot.node.id ∈ st.claimed := by
  obtain ⟨hin, hclaims⟩ :=
    claims_of_accountsFor (sound_steps t h st' hst').effect hf hknown hreport
  rcases hclaims with hclaims | ⟨x, hx, haddress, hplain⟩
  · exact claimed_of_inside ht h hst' hst hin (List.mem_append_right _ hclaims)
  · obtain ⟨s', hs', rfl, -⟩ := exists_spot_below (spot_mem_spots h hst') hx
    exact mem_claimed_of_address ht h hst hmention hplain hs' haddress

/-- A mention that nothing claimed is reported at its own step, unless it is a callee. -/
theorem mem_finds_of_mention (h : steps v [] [] t = .ok ss) (hst : st ∈ ss)
    (hmention : st.spot.IsMention v.globals) (hclaimed : st.spot.node.id ∉ st.claimed)
    (hcallee : isCallee ⟨st.spot.above, shadowedAt (st.spot.node :: st.spot.above)⟩ st.spot.node =
      false) :
    ∃ context, foundAt v st.spot.node (.unrecognized st.spot.node.text context) ∈
      st.effect.finds := by
  have heffect := (sound_steps t h st hst).effect
  have hlive := hmention.isLive (List.Subset.refl _) st.spot.above
  simp only [effectOf, hmention.kind, unrecognized, Except.ok.injEq] at heffect
  rw [if_neg (by simp [hclaimed, hlive, hcallee])] at heffect
  rw [← heffect]
  exact ⟨_, List.mem_singleton_self _⟩

/-- At the step of a mention that was claimed before, nothing is reported. -/
theorem finds_eq_nil_of_claimed (h : steps v [] [] t = .ok ss) (hst : st ∈ ss)
    (hkind : st.spot.node.kind = "identifier") (hclaimed : st.spot.node.id ∈ st.claimed) :
    st.effect.finds = [] := by
  have heffect := (sound_steps t h st hst).effect
  simp only [effectOf, hkind, unrecognized, Except.ok.injEq] at heffect
  rw [if_pos (by simp [hclaimed])] at heffect
  rw [← heffect]
  rfl

/-! ### The whole walk -/

/-- The steps of a source are there when the walk of all sources ends, and their findings are among
its findings. -/
theorem exists_steps_of_walkAll {cfg : Settings} {sources : List Source} {findings : List Finding}
    (h : walkAll cfg sources = .ok findings) {source : Source} (hsource : source ∈ sources) :
    ∃ ss, steps ⟨cfg, collectGlobals cfg sources, source⟩ [] [] source.tree = .ok ss ∧
      reports cfg (collectGlobals cfg sources) source = .ok (ss.flatMap Step.reports) ∧
      ∀ r ∈ ss.flatMap Step.reports, r.finding ∈ findings := by
  rw [walkAll] at h
  cases hall : sources.mapM (walk cfg (collectGlobals cfg sources)) with
  | error e =>
      simp only [hall] at h
      cases h
  | ok found =>
      simp only [hall] at h
      cases h
      obtain ⟨fs, hfs, hwalk⟩ := exists_mapM_of_mem hall hsource
      rw [walk_eq_reports, reports] at hwalk
      cases hss : steps ⟨cfg, collectGlobals cfg sources, source⟩ [] [] source.tree with
      | error e =>
          rw [hss] at hwalk
          cases hwalk
      | ok ss =>
          rw [hss] at hwalk
          cases hwalk
          refine ⟨ss, rfl, by rw [reports, hss]; rfl, ?_⟩
          intro r hr
          exact List.mem_flatten.2 ⟨_, hfs, List.mem_map_of_mem hr⟩

theorem mem_reports {r : Report} :
    r ∈ ss.flatMap Step.reports ↔ ∃ st ∈ ss, r.finding ∈ st.effect.finds ∧ r.node = st.spot.node := by
  obtain ⟨n, f⟩ := r
  simp only [List.mem_flatMap, Step.reports, List.mem_map, Report.mk.injEq]
  constructor
  · rintro ⟨st, hst, f', hf, rfl, rfl⟩
    exact ⟨st, hst, hf, rfl⟩
  · rintro ⟨st, hst, hf, rfl⟩
    exact ⟨st, hst, f, hf, rfl, rfl⟩

/-- Of the findings that account for a mention either all have a known shape or none has. -/
theorem not_known_and_unknown (ht : t.Numbered) (h : steps v [] [] t = .ok ss)
    (hs : s ∈ spots [] t) (hmention : s.IsMention v.globals) {r r' : Report}
    (hr : r ∈ ss.flatMap Step.reports) (hr' : r' ∈ ss.flatMap Step.reports)
    (haccounts : AccountsFor v s.node r) (haccounts' : AccountsFor v s.node r')
    (hknown : r.finding.shape.isKnown = true) : r'.finding.shape.isKnown = true := by
  obtain ⟨st, hst, rfl⟩ := exists_step h hs
  obtain ⟨m, f⟩ := r
  obtain ⟨st', hst', hf, rfl⟩ := mem_reports.1 hr
  have hclaimed := mem_claimed_of_report ht h hst hmention hst' hf hknown haccounts
  -- Then the mention itself reports nothing.
  have hnil := finds_eq_nil_of_claimed h hst hmention.kind hclaimed
  obtain ⟨m', f'⟩ := r'
  obtain ⟨st'', hst'', hf', hnode⟩ := mem_reports.1 hr'
  cases haccounts' with
  | unrecognized =>
      rw [← step_eq ht h hst hst'' (by rw [← hnode]), hnil] at hf'
      cases hf'
  | _ => rfl

/-- **A mention is accounted for**: when the walk ends, an identifier with a tracked name that no
function around it introduces is the callee of a call, or some finding of the walk accounts for it;
and it is never reported both by a known shape and as a use of no known shape. -/
theorem live_mention_accounted {cfg : Settings} {sources : List Source} {findings : List Finding}
    (hwalk : walkAll cfg sources = .ok findings) {source : Source} (hsource : source ∈ sources)
    (htree : source.tree.Numbered) {s : Spot} (hs : s ∈ spots [] source.tree)
    (hmention : s.IsMention (collectGlobals cfg sources)) :
    ∃ rs, reports cfg (collectGlobals cfg sources) source = .ok rs ∧
      (∀ r ∈ rs, r.finding ∈ findings) ∧
      (s.IsCallee ∨
        ∃ r ∈ rs, AccountsFor ⟨cfg, collectGlobals cfg sources, source⟩ s.node r) ∧
      ¬ ∃ r ∈ rs, ∃ r' ∈ rs, r.finding.shape.isKnown = true ∧ r'.finding.shape.isKnown = false ∧
        AccountsFor ⟨cfg, collectGlobals cfg sources, source⟩ s.node r ∧
        AccountsFor ⟨cfg, collectGlobals cfg sources, source⟩ s.node r' := by
  obtain ⟨ss, hss, hreports, hfindings⟩ := exists_steps_of_walkAll hwalk hsource
  refine ⟨_, hreports, hfindings, ?_, ?_⟩
  · obtain ⟨st, hst, rfl⟩ := exists_step hss hs
    by_cases hclaimed : st.spot.node.id ∈ st.claimed
    · -- Who claimed the mention accounts for it.
      obtain ⟨st', hst', -, hfound, -⟩ := exists_step_of_claimed htree hss hst hs hclaimed
      obtain ⟨f, hf, -, haccounts⟩ := hfound hmention.kind
      exact .inr ⟨_, mem_reports.2 ⟨st', hst', hf, rfl⟩, haccounts⟩
    · cases hcallee : isCallee ⟨st.spot.above, shadowedAt (st.spot.node :: st.spot.above)⟩
          st.spot.node with
      | true => exact .inl (isCallee_of_isCallee htree hs hcallee)
      | false =>
          obtain ⟨context, hf⟩ := mem_finds_of_mention hss hst hmention hclaimed hcallee
          exact .inr ⟨_, mem_reports.2 ⟨st, hst, hf, rfl⟩, .unrecognized⟩
  · rintro ⟨r, hr, r', hr', hknown, hunknown, haccounts, haccounts'⟩
    have hknown' := not_known_and_unknown htree hss hs hmention hr hr' haccounts haccounts' hknown
    rw [hunknown] at hknown'
    cases hknown'

/-! ### Mentions at work -/

/-- The rows of `int y = a.integer;`. -/
def readRows (i : Nat) : List Row :=
  [partRow 1 "declaration" none i (i + 18), partRow 2 "primitive_type" (some "type") i (i + 3),
    partRow 2 "init_declarator" (some "declarator") (i + 4) (i + 17),
    partRow 3 "identifier" (some "declarator") (i + 4) (i + 5), markRow 3 "=" (i + 6),
    partRow 3 "field_expression" (some "value") (i + 8) (i + 17),
    partRow 4 "identifier" (some "argument") (i + 8) (i + 9), markRow 4 "." (i + 9),
    partRow 4 "field_identifier" (some "field") (i + 10) (i + 17), markRow 2 ";" (i + 17)]

/-- A cvar is read once. -/
def readOnce : Source :=
  sourceOf "vmCvar_t a;\nint y = a.integer;\n" (definitionRows 0 1 ++ readRows 12)

theorem live_mention_accounted_readOnce :
    ∃ s ∈ spots [] readOnce.tree, s.node.line = 2 ∧
      s.IsMention (collectGlobals {} [readOnce]) ∧
      ∃ rs, reports {} (collectGlobals {} [readOnce]) readOnce = .ok rs ∧
        (∀ r ∈ rs, r.finding ∈ [⟨.declaration "a" true, ⟨readOnce.path, 1, 10⟩⟩,
          ⟨.fieldRead "a" .int, ⟨readOnce.path, 2, 9⟩⟩]) ∧
        (s.IsCallee ∨
          ∃ r ∈ rs, AccountsFor ⟨{}, collectGlobals {} [readOnce], readOnce⟩ s.node r) ∧
        ¬ ∃ r ∈ rs, ∃ r' ∈ rs, r.finding.shape.isKnown = true ∧
          r'.finding.shape.isKnown = false ∧
          AccountsFor ⟨{}, collectGlobals {} [readOnce], readOnce⟩ s.node r ∧
          AccountsFor ⟨{}, collectGlobals {} [readOnce], readOnce⟩ s.node r' := by
  have hwalk : walkAll {} [readOnce] = .ok [⟨.declaration "a" true, ⟨readOnce.path, 1, 10⟩⟩,
      ⟨.fieldRead "a" .int, ⟨readOnce.path, 2, 9⟩⟩] := ok_of_toOption (by decide +kernel)
  have htree : readOnce.tree.Numbered := by decide +kernel
  have hmention : ∃ s ∈ spots [] readOnce.tree, s.node.line = 2 ∧
      s.IsMention (collectGlobals {} [readOnce]) := by decide +kernel
  obtain ⟨s, hs, hline, hmention⟩ := hmention
  exact ⟨s, hs, hline, hmention,
    live_mention_accounted hwalk List.mem_cons_self htree hs hmention⟩

/-! ### Names of prototypes -/

/-- The names of the parameters in the list of a function, and of all variables that are declared
inside it. -/
def ownNames (f : Node) : List String :=
  ((((f.field? "declarator").bind (·.field? "parameters")).map Node.parts).getD [] ++
    f.nodes.filter fun n => n.kind == "declaration" || n.kind == "for_range_loop").flatMap introduced

/-- A function declares another one inside, whose parameter has the name of a cvar. -/
def prototyped : Source :=
  sourceOf "vmCvar_t g;\nvoid f() \x7b void h(int g); h(g); \x7d\n"
    (definitionRows 0 1 ++
      [partRow 1 "function_definition" none 12 45, partRow 2 "primitive_type" (some "type") 12 16,
        partRow 2 "function_declarator" (some "declarator") 17 20,
        partRow 3 "identifier" (some "declarator") 17 18,
        partRow 3 "parameter_list" (some "parameters") 18 20, markRow 4 "(" 18, markRow 4 ")" 19,
        partRow 2 "compound_statement" (some "body") 21 45, markRow 3 "\x7b" 21,
        partRow 3 "declaration" none 23 37, partRow 4 "primitive_type" (some "type") 23 27,
        partRow 4 "function_declarator" (some "declarator") 28 36,
        partRow 5 "identifier" (some "declarator") 28 29,
        partRow 5 "parameter_list" (some "parameters") 29 36, markRow 6 "(" 29,
        partRow 6 "parameter_declaration" none 30 35, partRow 7 "primitive_type" (some "type") 30 33,
        partRow 7 "identifier" (some "declarator") 34 35, markRow 6 ")" 35, markRow 4 ";" 36,
        partRow 3 "expression_statement" none 38 43, partRow 4 "call_expression" none 38 42,
        partRow 5 "identifier" (some "function") 38 39,
        partRow 5 "argument_list" (some "arguments") 39 42, markRow 6 "(" 39,
        partRow 6 "identifier" none 40 41, markRow 6 ")" 41, markRow 4 ";" 42,
        markRow 3 "\x7d" 44])

/-- The declaration of a variable accounts for the node at its place alone. -/
theorem AccountsFor.place_of_declaration {n : Node} {r : Report} {name : String}
    {isDefinition : Bool} (h : AccountsFor v n r)
    (hshape : r.finding.shape = .declaration name isDefinition) :
    r.finding.place = placeOf v n := by
  cases h with
  | declared => rfl
  | _ => cases hshape

/-- **A mention is lost** when a function declares another one inside, whose parameter has the name:
nothing accounts for it, although the parameters and variables of the functions around it have other
names. -/
theorem prototype_hides_mention :
    walkAll {} [prototyped] = .ok [⟨.declaration "g" true, ⟨prototyped.path, 1, 10⟩⟩] ∧
      prototyped.tree.Numbered ∧
      ∃ s ∈ spots [] prototyped.tree, s.node.kind = "identifier" ∧
        s.node.text ∈ (collectGlobals {} [prototyped]).tracked ∧
        (∀ f ∈ s.above, opensScope f = true → s.node.text ∉ ownNames f) ∧ ¬ s.IsCallee ∧
        ∀ rs, reports {} (collectGlobals {} [prototyped]) prototyped = .ok rs →
          ∀ r ∈ rs, ¬ AccountsFor ⟨{}, collectGlobals {} [prototyped], prototyped⟩ s.node r := by
  have hwalk : walkAll {} [prototyped] =
      .ok [⟨.declaration "g" true, ⟨prototyped.path, 1, 10⟩⟩] := ok_of_toOption (by decide +kernel)
  refine ⟨hwalk, by decide +kernel, ?_⟩
  have hspot : ∃ s ∈ spots [] prototyped.tree, s.node.kind = "identifier" ∧
      s.node.text ∈ (collectGlobals {} [prototyped]).tracked ∧
      (∀ f ∈ s.above, opensScope f = true → s.node.text ∉ ownNames f) ∧
      (∀ call ∈ s.above.head?, call.kind ≠ "call_expression") ∧
      placeOf ⟨{}, collectGlobals {} [prototyped], prototyped⟩ s.node =
        ⟨prototyped.path, 2, 29⟩ := by decide +kernel
  obtain ⟨s, hs, hkind, htracked, hfree, hparent, hplace⟩ := hspot
  refine ⟨s, hs, hkind, htracked, hfree, ?_, ?_⟩
  · rintro ⟨call, hcall, hcallkind, -⟩
    exact hparent call hcall hcallkind
  · intro rs hrs r hr haccounts
    obtain ⟨ss, -, hreports, hfindings⟩ := exists_steps_of_walkAll hwalk List.mem_cons_self
    rw [hrs] at hreports
    cases hreports
    have hfinding := List.mem_singleton.1 (hfindings r hr)
    have hat := haccounts.place_of_declaration (by rw [hfinding])
    rw [hfinding, hplace] at hat
    simp at hat

end Cvar

end Upkeep
