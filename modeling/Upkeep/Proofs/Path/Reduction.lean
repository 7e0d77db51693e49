/-
**Normal forms.**

The normal form of a path is the root or some steps up, and names behind that.  Nothing can be taken
back in it, and it is spelled in one way, so that it is its own normal form and paths are told apart by
their texts once they are normal.  What a path goes through from a directory on depends on where the
directory leads, not on how it is written: a directory can be brought to normal form before a path is
put behind it or after that.

Main definitions:

* `Upkeep.Component.IsStep` — components that are written as segments of their own;
* `Upkeep.Path.IsName`, `Upkeep.Path.IsNormal` — names, and lists of components that are normal forms;
* `Upkeep.Path.stepsOf`, `Upkeep.Path.walk` — the steps of a path, and where they lead;
* `Upkeep.Path.spelling` — the components that a path is spelled with, seen from a directory.

Main results:

* `Upkeep.Path.isNormal_normalComponents`, `Upkeep.Path.IsNormal.normalComponents_eq` — normal forms are
  normal, and normal lists are their own normal forms;
* `Upkeep.Path.IsNormal.components_ofComponents` — normal lists are read back as they are written;
* `Upkeep.Path.walk_join` — a path that is put behind a directory leads on from there;
* `Upkeep.Path.normalize_laws` — **the laws of normal paths**.
-/

import Upkeep.Path.Normal
import Upkeep.Proofs.Files.Disk
import Upkeep.Proofs.Text.ByteLines

set_option relaxedAutoImplicit false
set_option autoImplicit false

namespace Upkeep

/-! ### Components that are written as segments -/

namespace Component

variable {c : Component}

/-- A component that stands for a segment away from the start of a path. -/
def IsStep (c : Component) : Prop := ∃ s : List Char, ofSegment? s = some c ∧ '/' ∉ s

theorem IsStep.ne_root (h : c.IsStep) : c ≠ .root := by
  rintro rfl
  obtain ⟨s, hs, -⟩ := h
  exact ofSegment?_ne_root s hs

theorem isStep_up : up.IsStep := ⟨['.', '.'], rfl, by simp⟩

/-- The text of a component is the segment that it was read from. -/
theorem text_of_ofSegment? {seg : List Char} (h : ofSegment? seg = some c) : c.text.toList = seg := by
  rw [ofSegment?] at h
  split at h
  · cases h
  · split at h
    · rename_i hup
      cases h
      exact (beq_iff_eq.1 hup).symm
    · cases h
      exact String.toList_ofList

/-- A step is read back from its text. -/
theorem IsStep.ofSegment?_text (h : c.IsStep) : ofSegment? c.text.toList = some c := by
  obtain ⟨seg, hseg, -⟩ := h
  rw [text_of_ofSegment? hseg, hseg]

theorem IsStep.slash_not_mem_text (h : c.IsStep) : '/' ∉ c.text.toList := by
  obtain ⟨seg, hseg, hslash⟩ := h
  rwa [text_of_ofSegment? hseg]

/-- The text of a step is a segment that is not passed over. -/
theorem IsStep.text_not_skipped (h : c.IsStep) : (c.text.isEmpty || c.text == ".") = false := by
  have hback := h.ofSegment?_text
  rw [ofSegment?] at hback
  split at hback
  · cases hback
  · rename_i hskip
    have hdot : c.text = "." ↔ c.text.toList = ['.'] := String.ext_iff
    simpa [hdot] using hskip

end Component

namespace Path

open Component

/-! ### Normal lists of components -/

/-- Texts that name an entry: as segments of a path they stand for themselves. -/
def IsName (s : String) : Prop := s ≠ "" ∧ s ≠ "." ∧ s ≠ ".." ∧ '/' ∉ s.toList

/-- The root or some steps up, and names behind that. -/
def IsNormal (cs : List Component) : Prop :=
  ∃ (front : List Component) (names : List String), cs = front ++ names.map name ∧
    (front = [root] ∨ ∃ n, front = List.replicate n up) ∧ ∀ s ∈ names, IsName s

variable {done cs : List Component} {c x : Component} {s : String}

theorem isName_iff : IsName s ↔ ofSegment? s.toList = some (name s) ∧ '/' ∉ s.toList := by
  have hdot : s = "." ↔ s.toList = ['.'] := String.ext_iff
  have hup : s = ".." ↔ s.toList = ['.', '.'] := String.ext_iff
  rw [IsName, ofSegment?, ne_eq, ne_eq, ne_eq, hdot, hup]
  by_cases hskip : s.toList = ['.']
  · simp [hskip]
  · by_cases hupper : s.toList = ['.', '.']
    · simp [hupper]
    · by_cases hempty : s = ""
      · simp [hempty]
      · simp [hskip, hupper, hempty]

theorem isStep_name_iff : (name s).IsStep ↔ IsName s := by
  rw [isName_iff]
  exact ⟨fun h => ⟨h.ofSegment?_text, h.slash_not_mem_text⟩, fun h => ⟨s.toList, h⟩⟩

/-- A normal list is made of steps, perhaps behind the root. -/
theorem IsNormal.exists_steps (h : IsNormal cs) : ∃ front steps, cs = front ++ steps ∧
    (front = [] ∨ front = [root]) ∧ ∀ c ∈ steps, c.IsStep := by
  obtain ⟨front, names, rfl, hfront, hnames⟩ := h
  have hsteps : ∀ c ∈ names.map name, c.IsStep := by
    intro c hc
    obtain ⟨s, hs, rfl⟩ := List.mem_map.1 hc
    exact isStep_name_iff.2 (hnames s hs)
  rcases hfront with rfl | ⟨n, rfl⟩
  · exact ⟨[root], names.map name, rfl, .inr rfl, hsteps⟩
  · refine ⟨[], List.replicate n up ++ names.map name, rfl, .inl rfl, ?_⟩
    intro c hc
    rcases List.mem_append.1 hc with hc | hc
    · rw [List.eq_of_mem_replicate hc]
      exact isStep_up
    · exact hsteps c hc

/-! ### Taking back -/

/-- A step up behind steps up is one more. -/
theorem cancel_ups (n : Nat) : cancel (List.replicate n up) up = List.replicate (n + 1) up := by
  have hroot : (List.replicate n up).getLast? ≠ some root := by
    rw [List.getLast?_replicate]
    split <;> simp
  cases n with
  | zero => rfl
  | succ n => exact if_neg (by simpa using hroot)

/-- One component met on the way keeps a normal form. -/
theorem isNormal_cancel (h : IsNormal done.reverse) (hc : c.IsStep) :
    IsNormal (cancel done c).reverse := by
  obtain ⟨front, names, heq, hfront, hnames⟩ := h
  cases c with
  | root => exact absurd rfl hc.ne_root
  | here => exact ⟨front, names, heq, hfront, hnames⟩
  | name s =>
      refine ⟨front, names ++ [s], ?_, hfront, ?_⟩
      · simp [cancel, heq]
      · intro t ht
        rcases List.mem_append.1 ht with ht | ht
        · exact hnames t ht
        · obtain rfl := List.mem_singleton.1 ht
          exact isStep_name_iff.1 hc
  | up =>
      rcases List.eq_nil_or_concat names with rfl | ⟨names, s, rfl⟩
      · -- There is no name to take back.
        rw [List.map_nil, List.append_nil, List.reverse_eq_iff] at heq
        subst heq
        rcases hfront with rfl | ⟨n, rfl⟩
        · exact ⟨[root], [], rfl, .inl rfl, by simp⟩
        · rw [List.reverse_replicate, cancel_ups]
          exact ⟨List.replicate (n + 1) up, [], by simp, .inr ⟨n + 1, rfl⟩, by simp⟩
      · have hdone : done = name s :: (front ++ names.map name).reverse := by
          rw [List.reverse_eq_iff] at heq
          simp [heq]
        refine ⟨front, names, by simp [hdone], hfront, ?_⟩
        intro t ht
        exact hnames t (by simp [ht])

/-- What is held on the way was met. -/
theorem mem_of_mem_cancel (h : x ∈ cancel done c) : x = c ∨ x ∈ done := by
  rw [cancel.eq_def] at h
  split at h
  · exact .inr h
  · split at h
    · exact .inr (List.mem_cons_of_mem _ h)
    · split at h
      · exact .inr h
      · simpa using h
  · simpa using h

theorem mem_of_mem_foldl_cancel (h : x ∈ cs.foldl cancel done) : x ∈ done ∨ x ∈ cs := by
  induction cs generalizing done with
  | nil => exact .inl h
  | cons c cs ih =>
      rcases ih h with h | h
      · rcases mem_of_mem_cancel h with rfl | h
        · exact .inr List.mem_cons_self
        · exact .inl h
      · exact .inr (List.mem_cons_of_mem _ h)

theorem mem_of_mem_normalComponents (h : x ∈ normalComponents cs) : x ∈ cs := by
  rw [normalComponents, List.mem_reverse] at h
  simpa using mem_of_mem_foldl_cancel h

theorem foldl_cancel_names (names : List String) (done : List Component) :
    (names.map name).foldl cancel done = (names.map name).reverse ++ done := by
  induction names generalizing done with
  | nil => rfl
  | cons s names ih => simp [cancel, ih]

theorem foldl_cancel_ups (n : Nat) :
    (List.replicate n up).foldl cancel [] = List.replicate n up := by
  induction n with
  | zero => rfl
  | succ n ih => rw [List.replicate_succ', List.foldl_append, ih, List.foldl_cons, cancel_ups,
      List.foldl_nil, ← List.replicate_succ']

/-- **A normal list is its own normal form.** -/
theorem IsNormal.normalComponents_eq (h : IsNormal cs) : normalComponents cs = cs := by
  obtain ⟨front, names, rfl, hfront, -⟩ := h
  have hback : (front.foldl cancel []).reverse = front := by
    rcases hfront with rfl | ⟨n, rfl⟩
    · rfl
    · rw [foldl_cancel_ups, List.reverse_replicate]
  rw [normalComponents, List.foldl_append, foldl_cancel_names, List.reverse_append,
    List.reverse_reverse, hback]

/-! ### Steps of a path -/

/-- The steps of a path. -/
def stepsOf (p : Path) : List Component :=
  (Text.segments (· == '/') p.text.toList).filterMap ofSegment?

/-- Where a path starts from. -/
def origin (p : Path) : List Component := if p.isAbsolute then [root] else []

/-- Where a path leads, last component first. -/
def walk (p : Path) : List Component := p.stepsOf.foldl cancel p.origin

theorem isStep_of_mem_stepsOf {p : Path} (h : c ∈ p.stepsOf) : c.IsStep := by
  obtain ⟨seg, hseg, hc⟩ := List.mem_filterMap.1 h
  refine ⟨seg, hc, fun hslash => ?_⟩
  have hsep := (Text.mem_of_mem_segments hseg hslash).2
  simp at hsep

/-- What stands in front of the steps among the components of a path. -/
def lead (p : Path) : List Component :=
  if p.isAbsolute then [root]
  else if (Text.segments (· == '/') p.text.toList).head? = some ['.'] then [here]
  else []

/-- In front of the slash at the start of a path there is nothing. -/
theorem segments_of_isAbsolute {p : Path} (h : p.isAbsolute = true) :
    ∃ rest, Text.segments (· == '/') p.text.toList = [] :: rest := by
  obtain ⟨t, ht⟩ := List.head?_eq_some_iff.1 (beq_iff_eq.1 h)
  rw [ht, Text.segments_cons_sep (by simp)]
  exact ⟨_, rfl⟩

theorem components_eq_lead (p : Path) : p.components = p.lead ++ p.stepsOf := by
  cases habs : p.isAbsolute with
  | true =>
      obtain ⟨rest, hsegs⟩ := segments_of_isAbsolute habs
      rw [components, componentsOfChars, lead, stepsOf, hsegs, if_pos habs]
      exact if_pos habs
  | false =>
      obtain ⟨first, rest, hsegs⟩ := List.exists_cons_of_ne_nil
        (Text.segments_ne_nil (· == '/') p.text.toList)
      have hhead : (p.text.toList.head? == some '/') = false := habs
      rw [components, componentsOfChars, lead, stepsOf, hsegs, habs]
      simp only [hhead, Bool.false_eq_true, if_false, List.head?_cons, Option.some.injEq, beq_iff_eq]
      split
      · rename_i hhere
        rw [hhere]
        rfl
      · cases hfirst : ofSegment? first <;> simp [hfirst]

/-- The components of a path lead where its steps lead. -/
theorem foldl_components (p : Path) : p.components.foldl cancel [] = p.walk := by
  rw [components_eq_lead, walk, List.foldl_append]
  congr 1
  rw [lead, origin]
  split
  · rfl
  · split <;> rfl

/-- The components of a relative path lead from a directory where its steps lead. -/
theorem foldl_components_relative {p : Path} (h : p.isAbsolute = false) (done : List Component) :
    p.components.foldl cancel done = p.stepsOf.foldl cancel done := by
  rw [components_eq_lead, lead, h, List.foldl_append]
  congr 1
  rw [if_neg Bool.false_ne_true]
  split <;> rfl

theorem normalComponents_components (p : Path) : normalComponents p.components = p.walk.reverse := by
  rw [normalComponents, foldl_components]

theorem normalize_eq_walk (s : String) :
    normalize s = ofComponents (⟨unifySlashes s⟩ : Path).walk.reverse := by
  rw [normalize, normalComponents_components]

/-- **Normal forms are normal.** -/
theorem isNormal_normalComponents (p : Path) : IsNormal (normalComponents p.components) := by
  rw [normalComponents_components]
  have horigin : IsNormal p.origin.reverse := by
    rw [origin]
    split
    · exact ⟨[root], [], rfl, .inl rfl, by simp⟩
    · exact ⟨[], [], rfl, .inr ⟨0, rfl⟩, by simp⟩
  refine List.foldlRecOn (motive := fun done : List Component => IsNormal done.reverse) _ _ horigin ?_
  exact fun done hdone c hc => isNormal_cancel hdone (isStep_of_mem_stepsOf hc)

/-! ### Reading back -/

@[simp] theorem text_ofComponents (cs : List Component) :
    (ofComponents cs).text = textOfComponents cs := rfl

theorem textOfComponents_ofSteps (h : ∀ c ∈ cs, c.IsStep) :
    textOfComponents cs = "/".intercalate (cs.map Component.text) := by
  rw [textOfComponents.eq_def]
  split
  · exact absurd rfl (h root List.mem_cons_self).ne_root
  · rfl

/-- Steps that are written with slashes between them are the segments of what is written. -/
theorem segments_ofSteps (hne : cs ≠ []) (h : ∀ c ∈ cs, c.IsStep) :
    Text.segments (· == '/') ("/".intercalate (cs.map Component.text)).toList =
      cs.map fun c => c.text.toList := by
  rw [String.toList_intercalate, List.map_map]
  refine Text.segments_intercalate (by simpa using hne) ?_
  intro seg hseg
  obtain ⟨c, hc, rfl⟩ := List.mem_map.1 hseg
  exact (h c hc).slash_not_mem_text

theorem stepsOf_ofSteps (h : ∀ c ∈ cs, c.IsStep) :
    stepsOf ⟨"/".intercalate (cs.map Component.text)⟩ = cs := by
  have hback : (cs.map fun c => c.text.toList).filterMap ofSegment? = cs := by
    induction cs with
    | nil => rfl
    | cons c cs ih =>
        obtain ⟨hc, hcs⟩ := List.forall_mem_cons.1 h
        rw [List.map_cons, List.filterMap_cons_some hc.ofSegment?_text, ih hcs]
  by_cases hnil : cs = []
  · subst hnil
    rfl
  · rw [stepsOf, segments_ofSteps hnil h, hback]

/-- Steps that start a path are not taken for anything else. -/
theorem lead_ofSteps (h : ∀ c ∈ cs, c.IsStep) :
    lead ⟨"/".intercalate (cs.map Component.text)⟩ = [] := by
  cases cs with
  | nil => rfl
  | cons c cs =>
      have hsegs := segments_ofSteps (List.cons_ne_nil c cs) h
      have hskip : c.text ≠ "" ∧ c.text ≠ "." := by
        simpa using (h c List.mem_cons_self).text_not_skipped
      have habs : isAbsolute ⟨"/".intercalate ((c :: cs).map Component.text)⟩ = false := by
        rw [← Bool.not_eq_true]
        intro habs
        obtain ⟨rest, hrest⟩ := segments_of_isAbsolute habs
        rw [hsegs, List.map_cons, List.cons.injEq] at hrest
        exact hskip.1 (String.toList_eq_nil_iff.1 hrest.1)
      rw [lead, habs, hsegs, if_neg Bool.false_ne_true, List.map_cons, List.head?_cons, if_neg]
      intro hdot
      exact hskip.2 (String.ext (Option.some.inj hdot))

/-- **Normal lists are read back as they are written.** -/
theorem IsNormal.components_ofComponents (h : IsNormal cs) : (ofComponents cs).components = cs := by
  obtain ⟨front, steps, rfl, hfront, hsteps⟩ := h.exists_steps
  rcases hfront with rfl | rfl
  · rw [List.nil_append, ofComponents, textOfComponents_ofSteps hsteps, components_eq_lead,
      lead_ofSteps hsteps, stepsOf_ofSteps hsteps, List.nil_append]
  · have habs : (ofComponents ([root] ++ steps)).isAbsolute = true := by
      simp [textOfComponents, isAbsolute]
    rw [components_eq_lead, lead, if_pos habs]
    congr 1
    rw [ofComponents, List.singleton_append, textOfComponents, stepsOf, String.toList_append,
      show "/".toList = ['/'] from rfl, List.singleton_append, Text.segments_cons_sep (by simp)]
    exact stepsOf_ofSteps hsteps

/-! ### Spelling -/

theorem toList_unifySlashes (s : String) :
    (unifySlashes s).toList = s.toList.map fun c => if c == '\\' then '/' else c := String.toList_ofList

theorem backslash_not_mem_unifySlashes (s : String) : '\\' ∉ (unifySlashes s).toList := by
  rw [toList_unifySlashes, List.mem_map]
  rintro ⟨c, -, hc⟩
  split at hc
  · cases hc
  · rename_i hne
    exact hne (by simp [hc])

theorem unifySlashes_eq_self (h : '\\' ∉ s.toList) : unifySlashes s = s := by
  have hmap : (s.toList.map fun c => if c == '\\' then '/' else c) = s.toList.map id := by
    refine List.map_congr_left fun c hc => if_neg ?_
    rw [beq_iff_eq]
    rintro rfl
    exact h hc
  rw [unifySlashes, hmap, List.map_id, String.ofList_toList]

theorem unifySlashes_append (s t : String) :
    unifySlashes (s ++ t) = unifySlashes s ++ unifySlashes t := by
  simp [unifySlashes]

/-- What a component of a path is written with stands in the path, dots and slashes apart. -/
theorem mem_of_mem_text {p : Path} {ch : Char} (hc : c ∈ p.components) (hch : ch ∈ c.text.toList) :
    ch = '/' ∨ ch = '.' ∨ ch ∈ p.text.toList := by
  rw [components_eq_lead, List.mem_append] at hc
  rcases hc with hc | hc
  · rw [lead] at hc
    split at hc
    · obtain rfl := List.mem_singleton.1 hc
      exact .inl (by simpa [Component.text] using hch)
    · split at hc
      · obtain rfl := List.mem_singleton.1 hc
        exact .inr (.inl (by simpa [Component.text] using hch))
      · cases hc
  · obtain ⟨seg, hseg, hc⟩ := List.mem_filterMap.1 hc
    rw [text_of_ofSegment? hc] at hch
    exact .inr (.inr (Text.mem_of_mem_segments hseg hch).1)

/-- Components are written without any other characters than their own and slashes. -/
theorem not_mem_textOfComponents {ch : Char} (hch : ch ≠ '/') (h : ∀ c ∈ cs, ch ∉ c.text.toList) :
    ch ∉ (textOfComponents cs).toList := by
  have hsep : ch ∉ "/".toList := by simpa using hch
  have hjoin : ∀ cs : List Component, (∀ c ∈ cs, ch ∉ c.text.toList) →
      ch ∉ ("/".intercalate (cs.map Component.text)).toList := by
    intro cs h
    rw [String.toList_intercalate, Text.not_mem_intercalate_iff hsep]
    simpa using h
  rw [textOfComponents.eq_def]
  split
  · rename_i rest
    rw [String.toList_append, List.mem_append, not_or]
    exact ⟨hsep, hjoin rest fun c hc => h c (List.mem_cons_of_mem _ hc)⟩
  · exact hjoin cs h

/-- There is no backslash in a normal path. -/
theorem backslash_not_mem_normalize (s : String) : '\\' ∉ (normalize s).text.toList := by
  rw [normalize, text_ofComponents]
  refine not_mem_textOfComponents (by decide) ?_
  intro c hc hslash
  rcases mem_of_mem_text (mem_of_mem_normalComponents hc) hslash with h | h | h
  · cases h
  · cases h
  · exact backslash_not_mem_unifySlashes s h

/-! ### Normal paths -/

/-- The components of a normal path are the normal form. -/
theorem components_normalize (s : String) :
    (normalize s).components = normalComponents (⟨unifySlashes s⟩ : Path).components :=
  (isNormal_normalComponents _).components_ofComponents

theorem ofComponents_components_normalize (s : String) :
    ofComponents (normalize s).components = normalize s := by
  rw [components_normalize, normalize]

/-- Normal paths that are the same are spelled alike. -/
theorem normalize_eq_of_same {s t : String} (h : (normalize s).same (normalize t) = true) :
    normalize s = normalize t := by
  rw [← ofComponents_components_normalize s, same_iff.1 h, ofComponents_components_normalize]

/-- A normal path leads where the path does that it is the normal form of. -/
theorem walk_normalize (s : String) : (normalize s).walk = (⟨unifySlashes s⟩ : Path).walk := by
  rw [← List.reverse_inj, ← normalComponents_components, ← normalComponents_components,
    components_normalize, (isNormal_normalComponents _).normalComponents_eq]

/-- **A normal path is its own normal form.** -/
theorem normalize_normalize (s : String) : normalize (normalize s).text = normalize s := by
  rw [normalize, unifySlashes_eq_self (backslash_not_mem_normalize s), components_normalize,
    (isNormal_normalComponents _).normalComponents_eq, ← components_normalize,
    ofComponents_components_normalize]

/-! ### Seen from a directory -/

/-- The steps on both sides of a slash. -/
theorem stepsOf_append_slash (s t : String) :
    stepsOf ⟨s ++ "/" ++ t⟩ = stepsOf ⟨s⟩ ++ stepsOf ⟨t⟩ := by
  have hcut := @Text.segments_append Char (· == '/') '/' rfl s.toList t.toList
  rw [stepsOf, String.toList_append, String.toList_append, show "/".toList = ['/'] from rfl,
    List.append_assoc, List.singleton_append, hcut, List.filterMap_append]
  rfl

theorem isAbsolute_append {s : String} (hs : s ≠ "") (t : String) : isAbsolute ⟨s ++ t⟩ = isAbsolute ⟨s⟩ := by
  obtain ⟨c, rest, hs⟩ := List.exists_cons_of_ne_nil (show s.toList ≠ [] by simpa using hs)
  simp only [isAbsolute, String.toList_append, hs, List.cons_append, List.head?_cons]

/-- A path starts where its beginning does. -/
theorem origin_append {s : String} (hs : s ≠ "") (t : String) : origin ⟨s ++ t⟩ = origin ⟨s⟩ := by
  rw [origin, origin, isAbsolute_append hs]

theorem stepsOf_slash (s : String) : stepsOf ⟨s ++ "/"⟩ = stepsOf ⟨s⟩ := by
  have hnil : stepsOf ⟨""⟩ = [] := rfl
  simpa [hnil] using stepsOf_append_slash s ""

/-- A slash at the end leads nowhere. -/
theorem walk_slash {s : String} (hs : s ≠ "") : walk ⟨s ++ "/"⟩ = walk ⟨s⟩ := by
  rw [walk, walk, stepsOf_slash, origin_append hs]

/-- A slash at the end does not change the normal form. -/
theorem normalize_slash {s : String} (hs : s ≠ "") : normalize (s ++ "/") = normalize s := by
  have hne : unifySlashes s ≠ "" := by
    intro hempty
    have hlength := congrArg (fun t : String => t.toList.length) hempty
    simp only [toList_unifySlashes, List.length_map] at hlength
    exact hs (String.toList_eq_nil_iff.1 (List.length_eq_zero_iff.1 hlength))
  rw [normalize_eq_walk, normalize_eq_walk, unifySlashes_append, show unifySlashes "/" = "/" from rfl,
    walk_slash hne]

theorem join_text_ne {s : String} (hs : s ≠ "") (p : Path) : (p.join ⟨s⟩).text ≠ "" := by
  rw [join]
  split
  · exact hs
  · split <;> simp [hs]

/-- A slash at the end stays at the end of a path that is put behind a directory. -/
theorem join_slash {s : String} (hs : s ≠ "") (p : Path) :
    (p.join ⟨s ++ "/"⟩).text = (p.join ⟨s⟩).text ++ "/" := by
  rw [join, join, isAbsolute_append hs]
  split
  · rfl
  · split
    · exact (String.append_assoc ..).symm
    · exact (String.append_assoc ..).symm

/-- What stands behind a slash leads on from there. -/
theorem walk_slash_append (s t : String) :
    walk ⟨s ++ "/" ++ t⟩ = (stepsOf ⟨t⟩).foldl cancel (walk ⟨s ++ "/"⟩) := by
  have hne : s ++ "/" ≠ "" := by simp
  rw [walk, walk, stepsOf_append_slash, stepsOf_slash, origin_append hne, List.foldl_append]

/-- **A path that is put behind a directory leads on from there.** -/
theorem walk_join {p q : Path} (hq : q.isAbsolute = false) (hslash : '\\' ∉ q.text.toList) :
    (⟨unifySlashes (p.join q).text⟩ : Path).walk =
      q.stepsOf.foldl cancel (⟨unifySlashes p.text⟩ : Path).walk := by
  have hunify : ∀ s : String, unifySlashes (s ++ "/" ++ q.text) = unifySlashes s ++ "/" ++ q.text := by
    intro s
    rw [unifySlashes_append, unifySlashes_append, unifySlashes_eq_self hslash]
    rfl
  rw [join, hq, if_neg Bool.false_ne_true]
  by_cases hempty : p.text = ""
  · rw [hempty, if_pos (by decide), String.empty_append, unifySlashes_eq_self hslash, walk, origin, hq]
    rfl
  · by_cases hlast : p.text.toList.getLast? = some '/'
    · obtain ⟨init, hinit⟩ := List.getLast?_eq_some_iff.1 hlast
      obtain ⟨s, hs⟩ : ∃ s : String, p.text = s ++ "/" :=
        ⟨String.ofList init, String.ext (by simpa using hinit)⟩
      rw [if_pos (by simp [hlast]), hs, hunify, unifySlashes_append, walk_slash_append]
      rfl
    · have hne : unifySlashes p.text ≠ "" := by simpa [unifySlashes] using hempty
      rw [if_neg (by simp [hempty, hlast]), hunify, walk_slash_append, walk_slash hne]

/-- **A directory can be brought to normal form before a path is put behind it or after that.** -/
theorem normalize_join {b q : Path} (hq : q.isAbsolute = false) (hslash : '\\' ∉ q.text.toList) :
    normalize ((normalize b.text).join q).text = normalize (b.join q).text := by
  have hwalk : (⟨unifySlashes ((normalize b.text).join q).text⟩ : Path).walk =
      (⟨unifySlashes (b.join q).text⟩ : Path).walk := by
    rw [walk_join hq hslash, walk_join hq hslash,
      unifySlashes_eq_self (backslash_not_mem_normalize b.text), walk_normalize]
  rw [normalize_eq_walk, hwalk, ← normalize_eq_walk]

/-- The components that a path is spelled with, seen from a directory: those of the directory stand in
front unless the path starts at the root or at a drive. -/
def spelling (base : Path) (s : String) : List Component :=
  let q : Path := ⟨unifySlashes s⟩
  if q.isAbsolute || hasDrive q.text then q.components
  else (⟨unifySlashes base.text⟩ : Path).components ++ q.components

/-- A path seen from a directory has the components that are left of its spelling. -/
theorem components_resolve (base : Path) (s : String) :
    (resolve base s).components = normalComponents (spelling base s) := by
  have hslash := backslash_not_mem_unifySlashes s
  rw [resolve, spelling]
  dsimp only
  split
  · rw [components_normalize, unifySlashes_eq_self hslash]
  · rename_i hrelative
    have hq : (⟨unifySlashes s⟩ : Path).isAbsolute = false := by
      simp only [Bool.or_eq_true, not_or, Bool.not_eq_true] at hrelative
      exact hrelative.1
    rw [components_normalize, normalComponents_components, walk_join hq hslash, normalComponents,
      List.foldl_append, foldl_components, foldl_components_relative hq]

theorem exists_resolve_eq (base : Path) (s : String) : ∃ t, resolve base s = normalize t := by
  rw [resolve]
  split
  · exact ⟨_, rfl⟩
  · exact ⟨_, rfl⟩

/-- Paths that are the same, seen from directories, are spelled alike. -/
theorem resolve_eq_of_same {base base' : Path} {s t : String}
    (h : (resolve base s).same (resolve base' t) = true) : resolve base s = resolve base' t := by
  obtain ⟨s', hs⟩ := exists_resolve_eq base s
  obtain ⟨t', ht⟩ := exists_resolve_eq base' t
  rw [hs, ht] at h ⊢
  exact normalize_eq_of_same h

/-! ### The laws -/

/-- **The laws of normal paths.**  A normal path is its own normal form.  It has no backslash, and is
written from the root or some steps up, and names behind that.  A directory can be brought to normal form
before a relative path is put behind it or after that.  And two spellings give the same path exactly if
the same components are left of them. -/
theorem normalize_laws :
    (∀ s, normalize (normalize s).text = normalize s) ∧
    (∀ s, '\\' ∉ (normalize s).text.toList ∧ IsNormal (normalize s).components ∧
      normalize s = ofComponents (normalize s).components) ∧
    (∀ b q : Path, q.isAbsolute = false → '\\' ∉ q.text.toList →
      normalize ((normalize b.text).join q).text = normalize (b.join q).text) ∧
    ∀ b b' s s', resolve b s = resolve b' s' ↔
      normalComponents (spelling b s) = normalComponents (spelling b' s') := by
  refine ⟨normalize_normalize, ?_, fun b q => normalize_join, ?_⟩
  · intro s
    refine ⟨backslash_not_mem_normalize s, ?_, (ofComponents_components_normalize s).symm⟩
    rw [components_normalize]
    exact isNormal_normalComponents _
  · intro b b' s s'
    rw [← components_resolve, ← components_resolve]
    exact ⟨congrArg components, fun h => resolve_eq_of_same (same_iff.2 h)⟩

/-- A directory on a drive, written with backslashes, and a path that leads up from it. -/
theorem normalize_laws_upFromDrive :
    (⟨"../src/./a.cpp"⟩ : Path).isAbsolute = false ∧ '\\' ∉ "../src/./a.cpp".toList ∧
      normalize ((normalize "C:\\w\\.\\build\\").join ⟨"../src/./a.cpp"⟩).text =
        normalize ((⟨"C:\\w\\.\\build\\"⟩ : Path).join ⟨"../src/./a.cpp"⟩).text ∧
      normalize ((normalize "C:\\w\\.\\build\\").join ⟨"../src/./a.cpp"⟩).text = ⟨"C:/w/src/a.cpp"⟩ :=
  have habs : (⟨"../src/./a.cpp"⟩ : Path).isAbsolute = false := by decide
  have hslash : '\\' ∉ "../src/./a.cpp".toList := by decide
  ⟨habs, hslash, normalize_laws.2.2.1 ⟨"C:\\w\\.\\build\\"⟩ ⟨"../src/./a.cpp"⟩ habs hslash,
    by decide +kernel⟩

end Path

end Upkeep
