/-
**Paths that are the same lead to the same file.**

A path is followed segment by segment, and segments that are no names are passed over.  Paths with the
same components have the same segments apart from these.  So if a file can be read by both, it is the
same file; they may differ in whether it can be read, as nothing lies below a file.

Main definitions:

* `Upkeep.Files.Disk.steps` — the segments of a path that lead somewhere;
* `Upkeep.Files.Disk.Ends` — segments whose last one leads somewhere, if there is any.

Main results:

* `Upkeep.Files.Disk.steps_segmentsOf` — the components of a path determine them;
* `Upkeep.Files.Disk.follow_congr` — they determine where a path leads;
* `Upkeep.Files.Disk.read?_congr` — **the same path, the same content**;
* `Upkeep.Files.Disk.read?_of_ends` — the same path can be read if nothing follows its last step.
-/

import Upkeep.Files.Disk

set_option relaxedAutoImplicit false
set_option autoImplicit false

namespace Upkeep

/-! ### Segments and components -/

namespace Component

/-- The segment for a component that leads somewhere. -/
def step? : Component → Option String
  | up => some ".."
  | name s => some s
  | _ => none

theorem step?_ofSegment? (s : List Char) :
    (ofSegment? s).bind step? = if s.isEmpty || s == ['.'] then none else some (String.ofList s) := by
  rw [ofSegment?]
  split
  · rfl
  · split
    · rename_i hup
      rw [beq_iff_eq] at hup
      subst hup
      rfl
    · rfl

theorem ofSegment?_ne_root (s : List Char) : ofSegment? s ≠ some root := by
  rw [ofSegment?]
  split
  · simp
  · split <;> simp

end Component

namespace Files

namespace Disk

/-- The segments of a path that lead somewhere. -/
def steps (segs : List String) : List String := segs.filter fun s => !(s.isEmpty || s == ".")

theorem steps_cons_skip {seg : String} (h : (seg.isEmpty || seg == ".") = true) (rest : List String) :
    steps (seg :: rest) = steps rest :=
  List.filter_cons_of_neg (by simp only [h, Bool.not_true]; exact Bool.false_ne_true)

theorem steps_cons {seg : String} (h : (seg.isEmpty || seg == ".") = false) (rest : List String) :
    steps (seg :: rest) = seg :: steps rest :=
  List.filter_cons_of_pos (by simpa using h)

theorem steps_append (segs segs' : List String) : steps (segs ++ segs') = steps segs ++ steps segs' :=
  List.filter_append ..

/-- Away from the start of a path, segments and components lead the same way. -/
theorem steps_map_ofList (segs : List (List Char)) :
    steps (segs.map String.ofList) =
      (segs.filterMap Component.ofSegment?).filterMap Component.step? := by
  rw [List.filterMap_filterMap]
  induction segs with
  | nil => rfl
  | cons s segs ih =>
      have hskip : ((String.ofList s).isEmpty || String.ofList s == ".") =
          (s.isEmpty || s == ['.']) := by
        rw [Bool.eq_iff_iff]
        simp [String.ext_iff]
      rw [List.map_cons, List.filterMap_cons, Component.step?_ofSegment?]
      cases h : s.isEmpty || s == ['.'] with
      | true => rw [steps_cons_skip (hskip.trans h), ih, if_pos rfl]
      | false => rw [steps_cons (hskip.trans h), ih, if_neg Bool.false_ne_true]

/-- The components of a path determine where it leads. -/
theorem steps_segmentsOf (p : Path) :
    steps (segmentsOf p.text) = p.components.filterMap Component.step? := by
  rw [segmentsOf, steps_map_ofList, Path.components, Path.componentsOfChars]
  split
  · rename_i hnil
    exact absurd hnil (Text.segments_ne_nil _ _)
  · rename_i first rest hsegs
    rw [hsegs]
    dsimp only
    split
    · -- In front of the slash at the start there is nothing.
      rename_i hhead
      obtain ⟨s, hs⟩ := List.head?_eq_some_iff.1 (beq_iff_eq.1 hhead)
      rw [hs, Text.segments_cons_sep (by simp), List.cons.injEq] at hsegs
      rw [← hsegs.1]
      rfl
    · split
      · rename_i hhere
        rw [beq_iff_eq] at hhere
        rw [hhere]
        rfl
      · rw [List.filterMap_cons]
        cases Component.ofSegment? first <;> rfl

/-- The components of a path tell whether it starts at the root. -/
theorem isAbsolute_iff {p : Path} : p.isAbsolute = true ↔ p.components.head? = some .root := by
  rw [Path.isAbsolute, beq_iff_eq, Path.components, Path.componentsOfChars]
  split
  · rename_i hnil
    exact absurd hnil (Text.segments_ne_nil _ _)
  · rename_i first rest hsegs
    dsimp only
    split
    · rename_i hhead
      simpa using hhead
    · rename_i hhead
      rw [beq_iff_eq] at hhead
      refine iff_of_false hhead ?_
      split
      · simp
      · intro hroot
        have hbody : ∀ c ∈ (Component.ofSegment? first).toList ++ rest.filterMap Component.ofSegment?,
            c ≠ .root := by
          rintro c hc rfl
          rcases List.mem_append.1 hc with hc | hc
          · exact Component.ofSegment?_ne_root _ (Option.mem_toList.1 hc)
          · obtain ⟨s, -, hs⟩ := List.mem_filterMap.1 hc
            exact Component.ofSegment?_ne_root _ hs
        exact hbody _ (List.mem_of_head? hroot) rfl

/-! ### Following a path -/

/-- Where one segment leads: the links that may still be followed, the directory, and the segments that
come in the place of this one.  `none` when the way ends there. -/
def turn? (d : Disk) (links : Nat) (here : Names) (seg : String) :
    Option (Nat × Names × List String) :=
  if seg == ".." then some (links, here.dropLast, [])
  else
    match d.entry? (here ++ [seg]) with
    | some .directory => some (links, here ++ [seg], [])
    | some (.link target) =>
      match links with
      | 0 => none
      | links + 1 =>
        some (links, if (⟨target⟩ : Path).isAbsolute then [] else here, segmentsOf target)
    | _ => none

variable {d : Disk} {b b' links : Nat} {here : Names} {seg : String} {rest segs segs' : List String}
  {names names' : Names} {c c' : ByteArray}

/-- A segment that leads on is replaced. -/
theorem follow_of_turn? {links' : Nat} {here' : Names} {more : List String}
    (hskip : (seg.isEmpty || seg == ".") = false)
    (hturn : d.turn? links here seg = some (links', here', more)) :
    d.follow (b + 1) links here (seg :: rest) = d.follow b links' here' (more ++ rest) := by
  rw [follow, if_neg (by simp [hskip])]
  rw [turn?] at hturn
  by_cases hup : seg == ".."
  · rw [if_pos hup] at hturn ⊢
    cases hturn
    rfl
  · rw [if_neg hup] at hturn ⊢
    dsimp only
    cases hentry : d.entry? (here ++ [seg]) with
    | none => simp [hentry] at hturn
    | some e =>
        rw [hentry] at hturn
        cases e with
        | directory =>
            cases hturn
            rfl
        | file content => cases hturn
        | link target =>
            cases links with
            | zero => cases hturn
            | succ links =>
                cases hturn
                rfl

/-- A segment that leads to a file. -/
theorem follow_of_file (hskip : (seg.isEmpty || seg == ".") = false)
    (hturn : d.turn? links here seg = none) (hfile : d.entry? (here ++ [seg]) = some (.file c)) :
    d.follow (b + 1) links here [seg] = some (here ++ [seg], some (.file c)) := by
  rw [follow, if_neg (by simp [hskip])]
  rw [turn?] at hturn
  by_cases hup : seg == ".."
  · rw [if_pos hup] at hturn
    cases hturn
  · rw [if_neg hup]
    simp [hfile]

/-- On the way to a file a segment leads on, or it is the last one and the file stands there. -/
theorem follow_cons (hskip : (seg.isEmpty || seg == ".") = false)
    (h : d.follow (b + 1) links here (seg :: rest) = some (names, some (.file c))) :
    (∃ links' here' more, d.turn? links here seg = some (links', here', more) ∧
      d.follow b links' here' (more ++ rest) = some (names, some (.file c))) ∨
    (rest = [] ∧ d.turn? links here seg = none ∧ names = here ++ [seg] ∧
      d.entry? (here ++ [seg]) = some (.file c)) := by
  cases hturn : d.turn? links here seg with
  | some turn =>
      obtain ⟨links', here', more⟩ := turn
      rw [follow_of_turn? hskip hturn] at h
      exact .inl ⟨links', here', more, rfl, h⟩
  | none =>
      rw [follow, if_neg (by simp [hskip])] at h
      rw [turn?] at hturn
      by_cases hup : seg == ".."
      · rw [if_pos hup] at hturn
        cases hturn
      · rw [if_neg hup] at hturn h
        dsimp only at h
        cases hentry : d.entry? (here ++ [seg]) with
        | none => simp [hentry] at h
        | some e =>
            rw [hentry] at hturn h
            cases e with
            | directory => cases hturn
            | file content =>
                dsimp only at h
                split at h
                · rename_i hlast
                  cases h
                  exact .inr ⟨List.isEmpty_iff.1 hlast, rfl, rfl, rfl⟩
                · cases h
            | link target =>
                cases links with
                | zero => cases h
                | succ links => cases hturn

/-- The last segment of a path leads somewhere. -/
def Ends (segs : List String) : Prop := ∀ seg ∈ segs.getLast?, (seg.isEmpty || seg == ".") = false

theorem ends_append (segs : List String) (hrest : rest ≠ []) : Ends (segs ++ rest) ↔ Ends rest := by
  rw [Ends, Ends, List.getLast?_append, List.getLast?_eq_some_getLast hrest, Option.some_or]

theorem Ends.tail (h : Ends (seg :: rest)) : Ends rest := by
  by_cases hrest : rest = []
  · simp [hrest, Ends]
  · exact (ends_append [seg] hrest).1 h

/-- Where all segments are passed over and the last one is not, there are none. -/
theorem eq_nil_of_steps (hends : Ends segs) (hsteps : steps segs = []) : segs = [] := by
  rcases List.eq_nil_or_concat segs with rfl | ⟨init, last, rfl⟩
  · rfl
  · have hskip := hends last (by simp)
    rw [List.concat_eq_append, steps_append, steps_cons hskip] at hsteps
    simp at hsteps

/-- Nothing lies below a file, so a path that leads to one ends in a name. -/
theorem ends_of_follow (h : d.follow b links here segs = some (names, some (.file c))) :
    segs ≠ [] ∧ Ends segs ∧ segs.length ≤ b := by
  induction b generalizing links here segs with
  | zero => simp [follow] at h
  | succ b ih =>
      cases segs with
      | nil => simp [follow] at h
      | cons seg rest =>
          refine ⟨List.cons_ne_nil _ _, ?_⟩
          cases hskip : seg.isEmpty || seg == "." with
          | true =>
              rw [follow, if_pos hskip] at h
              obtain ⟨hrest, hends, hlength⟩ := ih h
              exact ⟨(ends_append [seg] hrest).2 hends, Nat.succ_le_succ hlength⟩
          | false =>
              rcases follow_cons hskip h with ⟨l, at', more, -, h⟩ | ⟨rfl, -⟩
              · obtain ⟨-, hends, hlength⟩ := ih h
                rw [List.length_append] at hlength
                refine ⟨?_, by rw [List.length_cons]; omega⟩
                by_cases hrest : rest = []
                · subst hrest
                  simpa [Ends] using hskip
                · exact (ends_append [seg] hrest).2 ((ends_append more hrest).1 hends)
              · exact ⟨by simpa [Ends] using hskip, Nat.succ_le_succ (Nat.zero_le b)⟩

/-- A path that leads the same way as one to a file leads to this file, if it ends in a name and the budget
allows for its segments. -/
theorem follow_of_ends (hsegs : steps segs = steps segs') (hends : Ends segs')
    (hbudget : b + segs'.length ≤ b' + segs.length)
    (h : d.follow b links here segs = some (names, some (.file c))) :
    d.follow b' links here segs' = some (names, some (.file c)) := by
  induction b generalizing b' links here segs segs' with
  | zero => simp [follow] at h
  | succ b ih =>
      cases segs with
      | nil => simp [follow] at h
      | cons seg rest =>
          have hlength := (ends_of_follow h).2.2
          cases hskip : seg.isEmpty || seg == "." with
          | true =>
              rw [follow, if_pos hskip] at h
              rw [steps_cons_skip hskip] at hsegs
              exact ih hsegs hends (by rw [List.length_cons] at hbudget; omega) h
          | false =>
              -- The other path passes over some segments before it comes to this one.
              rw [steps_cons hskip] at hsegs
              induction segs' generalizing b' with
              | nil => cases hsegs
              | cons seg' rest' ih' =>
                  rw [List.length_cons, List.length_cons] at hbudget
                  rw [List.length_cons] at hlength
                  obtain ⟨b', rfl⟩ : ∃ n, b' = n + 1 := ⟨b' - 1, by omega⟩
                  cases hskip' : seg'.isEmpty || seg' == "." with
                  | true =>
                      rw [steps_cons_skip hskip'] at hsegs
                      rw [follow, if_pos hskip']
                      exact ih' hends.tail hsegs (by rw [List.length_cons]; omega)
                  | false =>
                      rw [steps_cons hskip', List.cons.injEq] at hsegs
                      obtain ⟨rfl, hrest⟩ := hsegs
                      rcases follow_cons hskip h with
                        ⟨l, at', more, hturn, h⟩ | ⟨rfl, hturn, rfl, hfile⟩
                      · rw [follow_of_turn? hskip hturn]
                        refine ih (by rw [steps_append, steps_append, hrest]) ?_ ?_ h
                        · by_cases hnil : rest' = []
                          · -- Then this was the last step of the first path as well.
                            subst hnil
                            have hmore := (ends_of_follow h).2.1
                            by_cases hne : rest = []
                            · rwa [hne] at hmore
                            · exact absurd (eq_nil_of_steps ((ends_append more hne).1 hmore) hrest) hne
                          · exact (ends_append more hnil).2 hends.tail
                        · rw [List.length_append, List.length_append]
                          omega
                      · obtain rfl := eq_nil_of_steps hends.tail hrest.symm
                        exact follow_of_file hskip hturn hfile

/-- Two paths that lead the same way from a directory lead to the same file, if they lead to files. -/
theorem follow_congr (hsegs : steps segs = steps segs')
    (h : d.follow b links here segs = some (names, some (.file c)))
    (h' : d.follow b' links here segs' = some (names', some (.file c'))) : c = c' := by
  rcases Nat.le_total (b + segs'.length) (b' + segs.length) with hbudget | hbudget
  · rw [follow_of_ends hsegs (ends_of_follow h').2.1 hbudget h] at h'
    cases h'
    rfl
  · rw [follow_of_ends hsegs.symm (ends_of_follow h).2.1 hbudget h'] at h
    cases h
    rfl

/-- What is read is the content of the file that the path leads to. -/
theorem follow_of_read? {p : Path} (h : d.read? p = some c) :
    ∃ names, d.follow (d.wayBound (segmentsOf p.text)) maxLinks
      (if p.isAbsolute then [] else d.home) (segmentsOf p.text) = some (names, some (.file c)) := by
  obtain ⟨⟨names, e⟩, hfind, hcontent⟩ := Option.bind_eq_some_iff.1 h
  have he : e = .file c := by
    cases e with
    | file content =>
        cases hcontent
        rfl
    | directory => cases hcontent
    | link target => cases hcontent
  subst he
  rw [find?, locate?] at hfind
  split at hfind
  · rename_i hlocate
    cases hfind
    split at hlocate
    · cases hlocate
    · exact ⟨names, hlocate⟩
  · cases hfind

/-- **The same path, the same content**, if it can be read at all. -/
theorem read?_congr {p q : Path} (hpq : p.same q = true) (hp : d.read? p = some c)
    (hq : d.read? q = some c') : c = c' := by
  obtain ⟨names, hp⟩ := follow_of_read? hp
  obtain ⟨names', hq⟩ := follow_of_read? hq
  have hcomponents := Path.same_iff.1 hpq
  have hstart : (if p.isAbsolute then [] else d.home) = if q.isAbsolute then [] else d.home := by
    rw [Bool.eq_iff_iff.2 (isAbsolute_iff.trans (by rw [hcomponents, ← isAbsolute_iff]))]
  rw [hstart] at hp
  refine follow_congr ?_ hp hq
  rw [steps_segmentsOf, steps_segmentsOf, hcomponents]

/-- A path can be read if the same path can, and it ends in a name. -/
theorem read?_of_ends {p q : Path} (hpq : p.same q = true) (hends : Ends (segmentsOf q.text))
    (hp : d.read? p = some c) : d.read? q = some c := by
  obtain ⟨names, hp⟩ := follow_of_read? hp
  have hcomponents := Path.same_iff.1 hpq
  have hstart : (if p.isAbsolute then [] else d.home) = if q.isAbsolute then [] else d.home := by
    rw [Bool.eq_iff_iff.2 (isAbsolute_iff.trans (by rw [hcomponents, ← isAbsolute_iff]))]
  have hsteps : steps (segmentsOf p.text) = steps (segmentsOf q.text) := by
    rw [steps_segmentsOf, steps_segmentsOf, hcomponents]
  rw [hstart] at hp
  have hbudget : d.wayBound (segmentsOf p.text) + (segmentsOf q.text).length ≤
      d.wayBound (segmentsOf q.text) + (segmentsOf p.text).length := by
    rw [wayBound, wayBound]
    omega
  have hq := follow_of_ends hsteps hends hbudget hp
  have htext : q.text.isEmpty = false := by
    rw [← Bool.not_eq_true]
    intro hempty
    rw [String.isEmpty_iff.1 hempty] at hends
    exact absurd (hends "" rfl) (by decide)
  rw [read?, find?, locate?, htext, if_neg Bool.false_ne_true, hq]
  rfl

end Disk

end Files

end Upkeep
