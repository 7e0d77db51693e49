/-
**The type of a declaration is a text.**

Whether a variable is a cvar is asked of the text of its type as a whole.  The name of a cvar type may
stand anywhere in it between word boundaries: as the type itself, as the type of a field in its body, or
among the arguments of a template.  All of these make a cvar of the variable.

Main definitions:

* `Upkeep.Cvar.Spot.TypeNames` — declarations whose type text names one of some types.

Main results:

* `Upkeep.Cvar.Spot.mentionsType_iff` — the search in a type text finds the names that stand in it;
* `Upkeep.Cvar.tracked_by_type_text` — **what the text of a type decides**;
* `Upkeep.Cvar.holder_tracked` — a variable that is tracked for a field in its type.
-/

import Upkeep.Proofs.Cvar.Declarations

set_option relaxedAutoImplicit false
set_option autoImplicit false

namespace Upkeep

namespace Cvar

open Cpp

variable {cfg : Settings} {files : List Source} {findings : List Finding} {s : Spot}

/-! ### Type texts -/

/-- One of the types is named in the text of the type that a declaration gives, between word
boundaries; without any type a word boundary is enough. -/
def Spot.TypeNames (s : Spot) (types : List String) : Prop :=
  ∃ type ∈ if types.isEmpty then [""] else types, Text.StandsIn type.toList none s.typeText.toList

/-- The search in a type text finds the names that stand in it. -/
theorem Spot.mentionsType_iff {types : List String} :
    mentionsType types s.typeText = true ↔ s.TypeNames types := by
  simp only [mentionsType, List.any_eq_true, Text.standsAlone_iff, Spot.TypeNames]

/-- A declaration outside of functions, types and parameter lists. -/
structure Spot.AtFileScope (s : Spot) : Prop where
  kind : s.node.kind = "declaration"
  scope : atFileScope s.above = true

instance (s : Spot) : Decidable s.AtFileScope :=
  decidable_of_iff (s.node.kind = "declaration" ∧ atFileScope s.above = true)
    ⟨fun h => ⟨h.1, h.2⟩, fun h => ⟨h.kind, h.scope⟩⟩

instance (s : Spot) (types : List String) : Decidable (s.TypeNames types) :=
  decidable_of_iff _ Spot.mentionsType_iff

theorem Spot.ofCvars_iff : s.OfCvars cfg ↔ s.AtFileScope ∧ s.TypeNames cfg.cvarTypes := by
  rw [← Spot.mentionsType_iff]
  exact ⟨fun h => ⟨⟨h.kind, h.scope⟩, h.type⟩, fun h => ⟨h.1.kind, h.1.scope, h.2⟩⟩

theorem Spot.AtFileScope.isTable_iff (h : s.AtFileScope) :
    s.IsTable cfg ↔ s.TypeNames [cfg.tableType] := by
  rw [← Spot.mentionsType_iff]
  exact ⟨fun htable => htable.type, fun htype => ⟨h.kind, htype⟩⟩

/-- Whatever inside a type is spelled like one of some types, and stands in its text between word
boundaries, names it. -/
theorem Spot.typeNames_of_inside {types : List String} {type part : Node}
    (htype : s.node.field? "type" = some type) (hpart : part.text ∈ types)
    (hstands : Text.StandsIn part.text.toList none type.text.toList) : s.TypeNames types := by
  have htext : s.typeText = type.text := by rw [Spot.typeText, Node.fieldText?, htype]; rfl
  refine ⟨part.text, ?_, by rwa [htext]⟩
  rwa [if_neg (by simp [List.ne_nil_of_mem hpart])]

/-! ### What is tracked and found -/

/-- **What the text of a type decides.**  A name is tracked exactly if a declaration outside of
functions, types and parameter lists introduces it whose type text names a cvar type, and its variable
is found declared there exactly if the type text does not name the type of tables as well.  So
whenever anything inside the type, at any depth, is spelled like a cvar type and stands between word
boundaries, every variable of the declaration is tracked, and found unless the type names that of
tables, whatever the type itself is. -/
theorem tracked_by_type_text (hbare : ∀ source ∈ files, source.tree.BareMarks)
    (h : walkAll cfg files = .ok findings) :
    (∀ name, name ∈ (collectGlobals cfg files).tracked ↔
      ∃ source ∈ files, ∃ s ∈ spots [] source.tree, s.AtFileScope ∧ s.TypeNames cfg.cvarTypes ∧
        ∃ x ∈ declaredNodes s.node, x.text = name) ∧
    (∀ name isDefinition o, ⟨.declaration name isDefinition, o⟩ ∈ findings ↔
      ∃ source ∈ files, ∃ s ∈ spots [] source.tree, s.AtFileScope ∧ s.TypeNames cfg.cvarTypes ∧
        ¬ s.TypeNames [cfg.tableType] ∧
        s.Introduces ⟨cfg, collectGlobals cfg files, source⟩ name isDefinition o) ∧
    ∀ source ∈ files, ∀ s ∈ spots [] source.tree, s.AtFileScope →
      ∀ type, s.node.field? "type" = some type → ∀ part ∈ type.nodes, part.text ∈ cfg.cvarTypes →
        Text.StandsIn part.text.toList none type.text.toList → ∀ x ∈ declaredNodes s.node,
          x.text ∈ (collectGlobals cfg files).tracked ∧
          (¬ s.TypeNames [cfg.tableType] → ∃ isDefinition,
            ⟨.declaration x.text isDefinition, placeOf ⟨cfg, collectGlobals cfg files, source⟩ x⟩ ∈
              findings) := by
  have htracked : ∀ name, name ∈ (collectGlobals cfg files).tracked ↔
      ∃ source ∈ files, ∃ s ∈ spots [] source.tree, s.AtFileScope ∧ s.TypeNames cfg.cvarTypes ∧
        ∃ x ∈ declaredNodes s.node, x.text = name := by
    intro name
    simp only [mem_tracked_iff hbare, Spot.ofCvars_iff, and_assoc]
  have hfound : ∀ name isDefinition o, ⟨.declaration name isDefinition, o⟩ ∈ findings ↔
      ∃ source ∈ files, ∃ s ∈ spots [] source.tree, s.AtFileScope ∧ s.TypeNames cfg.cvarTypes ∧
        ¬ s.TypeNames [cfg.tableType] ∧
        s.Introduces ⟨cfg, collectGlobals cfg files, source⟩ name isDefinition o := by
    intro name isDefinition o
    simp only [declaration_mem_findings_iff h, Spot.ofCvars_iff, and_assoc]
    constructor
    · rintro ⟨source, hsource, s, hs, hscope, htype, htable, hintroduces⟩
      exact ⟨source, hsource, s, hs, hscope, htype, mt hscope.isTable_iff.2 htable, hintroduces⟩
    · rintro ⟨source, hsource, s, hs, hscope, htype, htable, hintroduces⟩
      exact ⟨source, hsource, s, hs, hscope, htype, mt hscope.isTable_iff.1 htable, hintroduces⟩
  refine ⟨htracked, hfound, ?_⟩
  intro source hsource s hs hscope type htype part _ hpart hstands x hx
  have hnames := Spot.typeNames_of_inside htype hpart hstands
  refine ⟨(htracked x.text).2 ⟨source, hsource, s, hs, hscope, hnames, x, hx, rfl⟩, ?_⟩
  intro htable
  obtain ⟨d, hd, hdx⟩ := List.mem_filterMap.1 hx
  exact ⟨_, (hfound _ _ _).2
    ⟨source, hsource, s, hs, hscope, hnames, htable, d, hd, x, hdx, rfl, rfl, rfl⟩⟩

/-! ### Types at work -/

/-- A variable whose type is a template with a cvar type for its argument. -/
def listOfCvars : Source :=
  sourceOf "vector<vmCvar_t> v;\n"
    [partRow 1 "declaration" none 0 19, partRow 2 "template_type" (some "type") 0 16,
      partRow 3 "type_identifier" (some "name") 0 6,
      partRow 3 "template_argument_list" (some "arguments") 6 16, markRow 4 "<" 6,
      partRow 4 "type_descriptor" none 7 15, partRow 5 "type_identifier" (some "type") 7 15,
      markRow 4 ">" 15, partRow 2 "identifier" (some "declarator") 17 18, markRow 2 ";" 18]

theorem tracked_by_type_text_template :
    ∃ findings, walkAll {} [listOfCvars] = .ok findings ∧
      (∃ s ∈ spots [] listOfCvars.tree, s.AtFileScope ∧ ∃ type ∈ s.node.field? "type",
        type.kind = "template_type" ∧ type.fieldText? "name" = some "vector") ∧
      "v" ∈ (collectGlobals {} [listOfCvars]).tracked ∧
      ∃ isDefinition o, ⟨.declaration "v" isDefinition, o⟩ ∈ findings := by
  have hwalk : (walkAll {} [listOfCvars]).toOption.isSome = true := by decide +kernel
  obtain ⟨findings, hfindings⟩ := Option.isSome_iff_exists.1 hwalk
  have hwalk := ok_of_toOption hfindings
  have hspot : ∃ s ∈ spots [] listOfCvars.tree, s.AtFileScope ∧ ∃ type ∈ s.node.field? "type",
      (type.kind = "template_type" ∧ type.fieldText? "name" = some "vector") ∧
      (∃ part ∈ type.nodes, part.text ∈ ({} : Settings).cvarTypes ∧
        Text.StandsIn part.text.toList none type.text.toList) ∧
      (∃ x ∈ declaredNodes s.node, x.text = "v") ∧ ¬ s.TypeNames [({} : Settings).tableType] := by
    decide +kernel
  obtain ⟨s, hs, hscope, type, htype, hkind, ⟨part, hpart, hname, hstands⟩, ⟨x, hx, hv⟩, htable⟩ :=
    hspot
  obtain ⟨-, -, hinside⟩ := tracked_by_type_text (by decide +kernel) hwalk
  obtain ⟨htracked, hfound⟩ := hinside listOfCvars List.mem_cons_self s hs hscope type htype part
    hpart hname hstands x hx
  obtain ⟨isDefinition, hmem⟩ := hfound htable
  rw [hv] at htracked hmem
  exact ⟨findings, hwalk, ⟨s, hs, hscope, type, htype, hkind⟩, htracked, isDefinition, _, hmem⟩

/-- A variable whose type is a structure with a pointer to a cvar for its only field. -/
def holder : Source :=
  sourceOf "struct holder_t \x7b vmCvar_t *p; \x7d h;\n"
    [partRow 1 "declaration" none 0 35, partRow 2 "struct_specifier" (some "type") 0 32,
      markRow 3 "struct" 0, partRow 3 "type_identifier" (some "name") 7 15,
      partRow 3 "field_declaration_list" (some "body") 16 32, markRow 4 "\x7b" 16,
      partRow 4 "field_declaration" none 18 30, partRow 5 "type_identifier" (some "type") 18 26,
      partRow 5 "pointer_declarator" (some "declarator") 27 29, markRow 6 "*" 27,
      partRow 6 "field_identifier" (some "declarator") 28 29, markRow 5 ";" 29,
      markRow 4 "\x7d" 31, partRow 2 "identifier" (some "declarator") 33 34, markRow 2 ";" 34]

/-- **A variable is tracked for a field in its type**, and found as a declared cvar, though its type is a
structure with a body and a name that is no cvar type. -/
theorem holder_tracked :
    (∃ s ∈ spots [] holder.tree, s.AtFileScope ∧ (∃ type ∈ s.node.field? "type",
      type.kind = "struct_specifier" ∧ (type.field? "body").isSome = true ∧
        type.fieldText? "name" = some "holder_t") ∧ ∃ x ∈ declaredNodes s.node, x.text = "h") ∧
    "holder_t" ∉ ({} : Settings).cvarTypes ∧
    "h" ∈ (collectGlobals {} [holder]).tracked ∧
    walkAll {} [holder] = .ok [⟨.declaration "h" true, ⟨holder.path, 1, 34⟩⟩] :=
  ⟨by decide +kernel, by decide +kernel, by decide +kernel, ok_of_toOption (by decide +kernel)⟩

end Cvar

end Upkeep
