/-
**The texts of normal paths.**

The normal form of a path is written from its components with single slashes between them, and each of
them is a name or leads to the directory above.

So nothing is passed over on the way along it, except in front of the slash at its start, and it can be read
whenever the same path can.  And the text of one normal path is the beginning of the text of another in two
cases only: the second lies below the first, or it lies beside it, in an entry whose name is longer and begins
like the last name of the first.  The text alone cannot tell one case from the other.

Main definitions:

* `Upkeep.Path.LiesIn` — a path lies in a directory, by its components;
* `Upkeep.Path.LiesBeside` — it lies in an entry beside the directory whose name begins like that of the
  directory.

Main results:

* `Upkeep.Path.ends_normalize` — a normal path ends in a name;
* `Upkeep.Path.read?_normalize` — **a normal path can be read if the same path can**;
* `Upkeep.Path.textOfComponents_prefix_iff` — what the text of a normal list of components begins with;
* `Upkeep.Path.startsWith_normalize_iff` — **the text of one normal path begins with that of another exactly
  when it lies in it or beside it**.
-/

import Upkeep.Proofs.Path.Reduction

set_option relaxedAutoImplicit false
set_option autoImplicit false

namespace Upkeep

open Files Files.Disk

namespace Path

open Component

/-! ### Ends -/

/-- Steps that are written with slashes between them end in one of them. -/
theorem ends_ofSteps {steps : List Component} (h : ∀ c ∈ steps, c.IsStep) (hne : steps ≠ []) :
    Ends (segmentsOf ("/".intercalate (steps.map Component.text))) := by
  rw [segmentsOf, segments_ofSteps hne h, List.map_map]
  intro t ht
  obtain ⟨c, hc, rfl⟩ := List.mem_map.1 (List.mem_of_getLast? ht)
  simpa using (h c hc).text_not_skipped

/-- A normal path ends in a name, if it leads anywhere. -/
theorem ends_normalize (s : String) (h : Disk.steps (segmentsOf (normalize s).text) ≠ []) :
    Ends (segmentsOf (normalize s).text) := by
  obtain ⟨front, steps, heq, hfront, hsteps⟩ :=
    (isNormal_normalComponents ⟨unifySlashes s⟩).exists_steps
  rw [normalize, text_ofComponents, heq] at h ⊢
  by_cases hnil : steps = []
  · subst hnil
    rcases hfront with rfl | rfl <;> exact absurd rfl h
  · rcases hfront with rfl | rfl
    · rw [List.nil_append, textOfComponents_ofSteps hsteps]
      exact ends_ofSteps hsteps hnil
    · have hslash : ∀ t : String, segmentsOf ("/" ++ t) = [""] ++ segmentsOf t := by
        intro t
        rw [segmentsOf, String.toList_append, show "/".toList = ['/'] from rfl,
          List.singleton_append, Text.segments_cons_sep (by rfl)]
        rfl
      have hends := ends_ofSteps hsteps hnil
      have hne : segmentsOf ("/".intercalate (steps.map Component.text)) ≠ [] := by
        rw [segmentsOf]
        simpa using Text.segments_ne_nil _ _
      rw [List.singleton_append, textOfComponents, hslash]
      exact (ends_append [""] hne).2 hends

/-- **A normal path can be read if the same path can.** -/
theorem read?_normalize {d : Disk} {p : Path} {s : String} {c : ByteArray}
    (hpq : p.same (normalize s) = true) (hp : d.read? p = some c) : d.read? (normalize s) = some c := by
  refine read?_of_ends hpq (ends_normalize s fun hnil => ?_) hp
  obtain ⟨names, hfollow⟩ := follow_of_read? hp
  obtain ⟨hne, hends, -⟩ := ends_of_follow hfollow
  rw [steps_segmentsOf, ← Path.same_iff.1 hpq, ← steps_segmentsOf] at hnil
  exact hne (eq_nil_of_steps hends hnil)

/-! ### Beginnings -/

/-- A list of components ends in the name of an entry, and another goes on in an entry beside it whose name
is longer, but begins like it. -/
def GoesBeside (ds cs : List Component) : Prop :=
  ∃ front c c' rest, ds = front ++ [c] ∧ cs = front ++ c' :: rest ∧ c ≠ c' ∧ c.text.toList <+: c'.text.toList

/-- A path lies in a directory: it has the components of the directory in front. -/
def LiesIn (dir p : Path) : Prop := dir.components <+: p.components

/-- A path lies beside a directory, in an entry whose name begins like that of the directory. -/
def LiesBeside (dir p : Path) : Prop := GoesBeside dir.components p.components

variable {ds cs : List Component} {c : Component}

theorem goesBeside_cons_iff : GoesBeside (c :: ds) (c :: cs) ↔ GoesBeside ds cs := by
  constructor
  · rintro ⟨front, x, x', rest, hds, hcs, hne, hbegin⟩
    cases front with
    | nil =>
        obtain ⟨rfl, -⟩ := List.cons.inj hds
        exact absurd (List.cons.inj hcs).1 hne
    | cons y front =>
        exact ⟨front, x, x', rest, (List.cons.inj hds).2, (List.cons.inj hcs).2, hne, hbegin⟩
  · rintro ⟨front, x, x', rest, rfl, rfl, hne, hbegin⟩
    exact ⟨c :: front, x, x', rest, rfl, rfl, hne, hbegin⟩

/-- Steps are told by their texts. -/
theorem eq_of_map_text (hds : ∀ c ∈ ds, c.IsStep) (hcs : ∀ c ∈ cs, c.IsStep)
    (h : ds.map (fun c => c.text.toList) = cs.map fun c => c.text.toList) : ds = cs := by
  have hback : ∀ {l : List Component}, (∀ c ∈ l, c.IsStep) →
      (l.map fun c => c.text.toList).filterMap ofSegment? = l := by
    intro l hl
    induction l with
    | nil => rfl
    | cons c l ih =>
        obtain ⟨hc, hl⟩ := List.forall_mem_cons.1 hl
        rw [List.map_cons, List.filterMap_cons, hc.ofSegment?_text, ih hl]
  rw [← hback hds, h, hback hcs]

/-- No step has an empty text. -/
theorem eq_nil_of_ofSteps (hds : ∀ c ∈ ds, c.IsStep)
    (h : ("/".intercalate (ds.map Component.text)).toList = []) : ds = [] := by
  have hsteps := stepsOf_ofSteps hds
  rw [String.toList_eq_nil_iff.1 h] at hsteps
  exact hsteps.symm

/-- What steps with slashes between them begin with. -/
theorem ofSteps_prefix_iff (hds : ∀ c ∈ ds, c.IsStep) (hcs : ∀ c ∈ cs, c.IsStep) :
    ("/".intercalate (ds.map Component.text)).toList <+: ("/".intercalate (cs.map Component.text)).toList ↔
      ds <+: cs ∨ GoesBeside ds cs := by
  by_cases hnil : ds = []
  · subst hnil
    exact iff_of_true (List.nil_prefix) (.inl List.nil_prefix)
  have hwritten : ∀ l : List Component, ("/".intercalate (l.map Component.text)).toList =
      ['/'].intercalate (l.map fun c => c.text.toList) := by
    intro l
    rw [String.toList_intercalate, List.map_map]
    rfl
  have hslash : ∀ {l : List Component}, (∀ c ∈ l, c.IsStep) →
      ∀ s ∈ l.map (fun c => c.text.toList), '/' ∉ s := by
    intro l hl s hs
    obtain ⟨c, hc, rfl⟩ := List.mem_map.1 hs
    exact (hl c hc).slash_not_mem_text
  by_cases hnil' : cs = []
  · subst hnil'
    refine iff_of_false (fun hbegin => hnil ?_) ?_
    · exact eq_nil_of_ofSteps hds (List.prefix_nil.1 hbegin)
    · rintro (hwhole | ⟨front, c, c', rest, -, hcs', -⟩)
      · exact hnil (List.prefix_nil.1 hwhole)
      · simp at hcs'
  rw [hwritten, hwritten, Text.intercalate_prefix_iff (hslash hds) (hslash hcs) (by simpa using hnil)
    (by simpa using hnil')]
  constructor
  · rintro ⟨front, p, h, rest, hp, hh, hbegin⟩
    obtain ⟨front₁, last, rfl, hfront₁, hlast⟩ := List.map_eq_append_iff.1 hp
    obtain ⟨front₂, more, rfl, hfront₂, hmore⟩ := List.map_eq_append_iff.1 hh
    obtain ⟨c, rfl, rfl⟩ := List.map_eq_singleton_iff.1 hlast
    obtain ⟨c', rest', rfl, rfl, -⟩ := List.map_eq_cons_iff.1 hmore
    rw [List.forall_mem_append] at hds hcs
    obtain rfl := eq_of_map_text hds.1 hcs.1 (hfront₁.trans hfront₂.symm)
    by_cases hsame : c = c'
    · subst hsame
      exact .inl ⟨rest', by simp⟩
    · exact .inr ⟨front₁, c, c', rest', rfl, rfl, hsame, hbegin⟩
  · rintro (⟨rest, rfl⟩ | ⟨front, c, c', rest, rfl, rfl, -, hbegin⟩)
    · obtain ⟨front, c, rfl⟩ : ∃ front c, ds = front ++ [c] :=
        ⟨_, _, (List.dropLast_concat_getLast hnil).symm⟩
      exact ⟨front.map fun c => c.text.toList, c.text.toList, c.text.toList, rest.map fun c => c.text.toList,
        by simp, by simp, List.prefix_refl _⟩
    · exact ⟨front.map fun c => c.text.toList, c.text.toList, c'.text.toList,
        rest.map fun c => c.text.toList, by simp, by simp, hbegin⟩

/-- The text of steps does not begin with a slash. -/
theorem not_slash_prefix_ofSteps (hcs : ∀ c ∈ cs, c.IsStep) (t : List Char) :
    ¬ '/' :: t <+: ("/".intercalate (cs.map Component.text)).toList := by
  intro hbegin
  have hlead := lead_ofSteps hcs
  have habsolute : isAbsolute ⟨"/".intercalate (cs.map Component.text)⟩ = true := by
    obtain ⟨r, hr⟩ := hbegin
    rw [isAbsolute, ← hr]
    rfl
  rw [lead, if_pos habsolute] at hlead
  cases hlead

/-- Steps do not lead to the root. -/
theorem not_goes_to_root (hds : ∀ c ∈ ds, c.IsStep) (hne : ds ≠ []) :
    ¬(ds <+: root :: cs ∨ GoesBeside ds (root :: cs)) := by
  obtain ⟨c, ds, rfl⟩ := List.exists_cons_of_ne_nil hne
  have hc := hds c List.mem_cons_self
  rintro (hwhole | ⟨front, x, x', rest, hfront, hfront', -, hbegin⟩)
  · exact hc.ne_root (List.cons_prefix_cons.1 hwhole).1
  · cases front with
    | nil =>
        obtain ⟨rfl, -⟩ := List.cons.inj hfront
        obtain ⟨rfl, -⟩ := List.cons.inj hfront'
        have hskip := hc.text_not_skipped
        rcases List.prefix_cons_iff.1 hbegin with hempty | ⟨t, ht, -⟩
        · simp [String.toList_eq_nil_iff.1 hempty] at hskip
        · exact hc.slash_not_mem_text (ht ▸ List.mem_cons_self)
    | cons y front =>
        exact hc.ne_root ((List.cons.inj hfront).1.trans (List.cons.inj hfront').1.symm)

/-- Nor does the root lead to steps. -/
theorem not_root_goes_to (hcs : ∀ c ∈ cs, c.IsStep) : ¬(root :: ds <+: cs ∨ GoesBeside (root :: ds) cs) := by
  rintro (hwhole | ⟨front, x, x', rest, hfront, hfront', -, hbegin⟩)
  · exact (hcs root (hwhole.subset List.mem_cons_self)).ne_root rfl
  · cases front with
    | nil =>
        obtain ⟨rfl, -⟩ := List.cons.inj hfront
        exact (hcs x' (by simp [hfront'])).slash_not_mem_text (hbegin.subset List.mem_cons_self)
    | cons y front =>
        obtain ⟨rfl, -⟩ := List.cons.inj hfront
        exact (hcs root (by simp [hfront'])).ne_root rfl

/-- **What the text of a normal list begins with.** -/
theorem textOfComponents_prefix_iff (hds : IsNormal ds) (hcs : IsNormal cs) :
    (textOfComponents ds).toList <+: (textOfComponents cs).toList ↔ ds <+: cs ∨ GoesBeside ds cs := by
  obtain ⟨front, ds, rfl, hfront, hsteps⟩ := hds.exists_steps
  obtain ⟨front', cs, rfl, hfront', hsteps'⟩ := hcs.exists_steps
  have hroot : ∀ l : List Component, (textOfComponents ([root] ++ l)).toList =
      '/' :: ("/".intercalate (l.map Component.text)).toList := fun l => String.toList_append
  rcases hfront with rfl | rfl
  · rcases hfront' with rfl | rfl
    · rw [List.nil_append, List.nil_append, textOfComponents_ofSteps hsteps, textOfComponents_ofSteps hsteps',
        ofSteps_prefix_iff hsteps hsteps']
    · rw [List.nil_append, textOfComponents_ofSteps hsteps, hroot]
      by_cases hnil : ds = []
      · subst hnil
        exact iff_of_true List.nil_prefix (.inl List.nil_prefix)
      · refine iff_of_false (fun hbegin => ?_) (not_goes_to_root hsteps hnil)
        rcases List.prefix_cons_iff.1 hbegin with hempty | ⟨t, ht, -⟩
        · exact hnil (eq_nil_of_ofSteps hsteps hempty)
        · exact not_slash_prefix_ofSteps hsteps t (ht ▸ List.prefix_refl _)
  · rcases hfront' with rfl | rfl
    · rw [List.nil_append, textOfComponents_ofSteps hsteps', hroot]
      exact iff_of_false (not_slash_prefix_ofSteps hsteps' _) (not_root_goes_to hsteps')
    · rw [hroot, hroot, List.cons_prefix_cons, and_iff_right rfl, ofSteps_prefix_iff hsteps hsteps',
        List.singleton_append, List.singleton_append, List.cons_prefix_cons, and_iff_right rfl,
        goesBeside_cons_iff]

/-- **The text of a normal path begins with the text of another** exactly when it lies in it or beside it. -/
theorem startsWith_normalize_iff (s t : String) :
    Text.startsWith (normalize t).text (normalize s).text = true ↔
      LiesIn (normalize s) (normalize t) ∨ LiesBeside (normalize s) (normalize t) := by
  rw [Text.startsWith, List.isPrefixOf_iff_prefix, LiesIn, LiesBeside, components_normalize,
    components_normalize, normalize, normalize, text_ofComponents, text_ofComponents]
  exact textOfComponents_prefix_iff (isNormal_normalComponents _) (isNormal_normalComponents _)

end Path

end Upkeep
