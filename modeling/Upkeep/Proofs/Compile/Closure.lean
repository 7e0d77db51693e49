/-
**The files of a program are those that its units reach.**

A file is reached from the source of a unit over includes that lead to known files.  The search keeps the
files it has found in order, looks them through one after the other, and puts what is new at the end.
All but the source are known, and none comes twice, so there are at most one more than known files: the
budget of the search cannot run out before everything is looked through.  Cycles of includes make no
difference to this.

Main definitions:

* `Upkeep.Compile.Means`, `Upkeep.Compile.Includes` — the file that an include means, and the files that a
  file includes;
* `Upkeep.Compile.Explored`, `Upkeep.Compile.IsClosure` — files found by a search, and at its end;
* `Upkeep.Compile.firsts` — the members of a list in the order of first discovery.

Main results:

* `Upkeep.Compile.resolveInclude?_eq_some_iff` — the search for an include finds what it means;
* `Upkeep.Compile.Explored.step` — what looking through one more file leaves;
* `Upkeep.Compile.isClosure_of_includeClosure` — the search ends with the closure;
* `Upkeep.Compile.parsed_files_of_closures` — **the files of a program are those of the closures of its
  units, each once and in the order of first discovery**.
-/

import Mathlib.Data.List.Perm.Subperm
import Mathlib.Logic.Relation
import Upkeep.Compile.Program
import Upkeep.Proofs.Data.Outcome

set_option relaxedAutoImplicit false
set_option autoImplicit false

namespace Upkeep

/-! ### Files that do not come twice -/

namespace Path

variable {p q : Path} {ps qs : List Path}

/-- No two of the paths are the same. -/
def Distinct (ps : List Path) : Prop := ps.Pairwise fun p q => p.same q = false

theorem isIn_iff : p.isIn ps = true ↔ ∃ q ∈ ps, p.same q = true := List.any_eq_true

theorem isIn_of_mem (h : p ∈ ps) : p.isIn ps = true := isIn_iff.2 ⟨p, h, p.same_self⟩

theorem isIn_append : p.isIn (ps ++ qs) = (p.isIn ps || p.isIn qs) := List.any_append

theorem isIn_cons : p.isIn (q :: ps) = (p.same q || p.isIn ps) := List.any_cons

theorem distinct_append : Distinct (ps ++ qs) ↔
    Distinct ps ∧ Distinct qs ∧ ∀ p ∈ ps, ∀ q ∈ qs, p.same q = false :=
  List.pairwise_append

/-- Of distinct paths in a list there are not more than the list has. -/
theorem Distinct.length_le (h : Distinct ps) (hqs : ∀ p ∈ ps, p.isIn qs = true) :
    ps.length ≤ qs.length := by
  have hnodup : List.Nodup (ps.map components) := by
    refine List.pairwise_map.2 (h.imp ?_)
    intro p q hsame heq
    rw [same_iff.2 heq] at hsame
    cases hsame
  have hsubset : ps.map components ⊆ qs.map components := by
    intro cs hcs
    obtain ⟨p, hp, rfl⟩ := List.mem_map.1 hcs
    obtain ⟨q, hq, hsame⟩ := isIn_iff.1 (hqs p hp)
    exact same_iff.1 hsame ▸ List.mem_map_of_mem hq
  simpa using (List.subperm_of_subset hnodup hsubset).length_le

end Path

namespace Compile

open Files Relation

variable {p : Path} {ps qs files more : List Path}

/-! ### The order of first discovery -/

/-- The members of a list in the order of first discovery: of members that are the same, the first
one. -/
def firsts : List Path → List Path
  | [] => []
  | p :: ps => p :: (firsts ps).filter (!p.same ·)

theorem firsts_sublist (ps : List Path) : (firsts ps).Sublist ps := by
  induction ps with
  | nil => exact .slnil
  | cons p ps ih => exact (List.filter_sublist.trans ih).cons_cons p

theorem distinct_firsts (ps : List Path) : Path.Distinct (firsts ps) := by
  induction ps with
  | nil => exact .nil
  | cons p ps ih =>
      refine List.pairwise_cons.2 ⟨?_, ih.filter _⟩
      intro q hq
      simpa using (List.mem_filter.1 hq).2

theorem isIn_firsts (p : Path) (ps : List Path) : p.isIn (firsts ps) = p.isIn ps := by
  induction ps with
  | nil => rfl
  | cons q ps ih =>
      rw [firsts, Path.isIn_cons, Path.isIn_cons, ← ih]
      cases hsame : p.same q with
      | true => rfl
      | false =>
          -- What is left out is the same as `q`, and `p` is not.
          rw [Bool.false_or, Bool.false_or, Bool.eq_iff_iff, Path.isIn_iff, Path.isIn_iff]
          constructor
          · rintro ⟨r, hr, hpr⟩
            exact ⟨r, List.mem_of_mem_filter hr, hpr⟩
          · rintro ⟨r, hr, hpr⟩
            refine ⟨r, List.mem_filter.2 ⟨hr, ?_⟩, hpr⟩
            rw [Bool.not_eq_true', Bool.eq_false_iff]
            intro hqr
            rw [Path.same_comm, ← Bool.not_eq_true] at hsame
            exact hsame (Path.same_trans hqr (Path.same_comm p r ▸ hpr))

/-- What is added to some files are the first ones that are not the same as one of these. -/
theorem addNew_eq (files more : List Path) :
    addNew files more = files ++ (firsts more).filter (!·.isIn files) := by
  induction more generalizing files with
  | nil => simp [addNew, firsts]
  | cons p more ih =>
      have hcons : addNew files (p :: more) =
          addNew (if p.isIn files then files else files ++ [p]) more := rfl
      rw [hcons, firsts, ih]
      split
      · rename_i hin
        rw [List.filter_cons_of_neg (by simp [hin]), List.filter_filter]
        -- What is the same as `p` is in the files as well.
        refine congrArg _ (List.filter_congr fun q _ => ?_)
        cases hq : q.isIn files with
        | true => rfl
        | false =>
            rw [Bool.not_false, Bool.true_and, eq_comm, Bool.not_eq_true', Bool.eq_false_iff]
            intro hsame
            obtain ⟨r, hr, hpr⟩ := Path.isIn_iff.1 hin
            rw [Path.same_comm] at hsame
            exact absurd (Path.isIn_iff.2 ⟨r, hr, Path.same_trans hsame hpr⟩) (by simp [hq])
      · rename_i hout
        rw [List.filter_cons_of_pos (by simpa using hout), List.filter_filter, List.append_assoc,
          List.singleton_append]
        refine congrArg (fun l => files ++ p :: l) (List.filter_congr fun q _ => ?_)
        rw [Path.isIn_append, Path.isIn_cons, Path.same_comm q p]
        simp [Path.isIn]

theorem addNew_nil (more : List Path) : addNew [] more = firsts more := by
  rw [addNew_eq, List.nil_append]
  exact List.filter_eq_self.2 fun _ _ => rfl

theorem foldl_addNew (files : List Path) (lists : List (List Path)) :
    lists.foldl addNew files = addNew files lists.flatten := by
  induction lists generalizing files with
  | nil => rfl
  | cons more lists ih =>
      rw [List.foldl_cons, ih, List.flatten_cons, addNew, addNew, addNew, List.foldl_append]

/-- What is added once is there. -/
theorem isIn_addNew (h : p ∈ more) : p.isIn (addNew files more) = true := by
  rw [addNew_eq, Path.isIn_append, Bool.or_eq_true]
  cases hin : p.isIn files with
  | true => exact .inl rfl
  | false =>
      right
      obtain ⟨q, hq, hpq⟩ := Path.isIn_iff.1 ((isIn_firsts p more).trans (Path.isIn_of_mem h))
      refine Path.isIn_iff.2 ⟨q, List.mem_filter.2 ⟨hq, ?_⟩, hpq⟩
      rw [Bool.not_eq_true', Bool.eq_false_iff]
      intro hqin
      obtain ⟨r, hr, hqr⟩ := Path.isIn_iff.1 hqin
      exact absurd (Path.isIn_iff.2 ⟨r, hr, Path.same_trans hpq hqr⟩) (by simp [hin])

/-- Files are added only when they are new. -/
theorem distinct_addNew (h : Path.Distinct files) (more : List Path) :
    Path.Distinct (addNew files more) := by
  rw [addNew_eq]
  refine Path.distinct_append.2 ⟨h, (distinct_firsts more).filter _, ?_⟩
  intro p hp q hq
  rw [← Bool.not_eq_true]
  intro hsame
  have hin : q.isIn files = true := Path.isIn_iff.2 ⟨p, hp, Path.same_comm p q ▸ hsame⟩
  simpa [hin] using (List.mem_filter.1 hq).2

/-! ### What an include means -/

/-- Seen from some directories in order, an include means the first known file that it leads to. -/
def Means (known dirs : List Path) (name : String) (p : Path) : Prop :=
  p.isIn known = true ∧ ∃ before dir after, dirs = before ++ dir :: after ∧ dir.resolve name = p ∧
    ∀ earlier ∈ before, (earlier.resolve name).isIn known = false

/-- The search for an include finds what it means. -/
theorem resolveInclude?_eq_some_iff {known dirs : List Path} {name : String} :
    resolveInclude? known dirs name = some p ↔ Means known dirs name p := by
  rw [resolveInclude?, List.find?_eq_some_iff_append, Means]
  refine and_congr_right fun _ => ?_
  constructor
  · rintro ⟨before, after, hdirs, hbefore⟩
    obtain ⟨before, rest, rfl, rfl, hrest⟩ := List.map_eq_append_iff.1 hdirs
    obtain ⟨dir, after, rfl, rfl, rfl⟩ := List.map_eq_cons_iff.1 hrest
    refine ⟨before, dir, after, rfl, rfl, ?_⟩
    intro earlier hearlier
    simpa using hbefore _ (List.mem_map_of_mem hearlier)
  · rintro ⟨before, dir, after, rfl, rfl, hbefore⟩
    refine ⟨before.map (Path.resolve · name), after.map (Path.resolve · name), by simp, ?_⟩
    intro q hq
    obtain ⟨earlier, hearlier, rfl⟩ := List.mem_map.1 hq
    simpa using hbefore earlier hearlier

/-- The directories in which the includes of a file are looked for: its own one first. -/
def searchPath (includeDirs : List Path) (file : Path) : List Path :=
  file.parent?.getD ⟨""⟩ :: includeDirs

variable {d : Disk} {known includeDirs : List Path} {source file : Path} {text : String}

/-- A file includes a known file: one of its quoted includes means it. -/
def Includes (d : Disk) (known includeDirs : List Path) (file p : Path) : Prop :=
  ∃ text, readSource d file = .ok text ∧
    ∃ name ∈ Cpp.quotedIncludes text, Means known (searchPath includeDirs file) name p

theorem mem_knownIncludes : p ∈ knownIncludes known includeDirs file text ↔
    ∃ name ∈ Cpp.quotedIncludes text, Means known (searchPath includeDirs file) name p := by
  simp only [knownIncludes, List.mem_filterMap, resolveInclude?_eq_some_iff, searchPath]

/-! ### The search -/

/-- Files that a search from a source has found, of which those in `looked` were looked through. -/
structure Explored (d : Disk) (known includeDirs : List Path) (source : Path)
    (looked files : List Path) : Prop where
  source_first : files.head? = some source
  distinct : Path.Distinct files
  others_known : ∀ p ∈ files.tail, p.isIn known = true
  readable : ∀ file ∈ looked, ∃ text, readSource d file = .ok text
  closed : ∀ file ∈ looked, ∀ p, Includes d known includeDirs file p → p.isIn files = true
  reached : ∀ p ∈ files, ReflTransGen (Includes d known includeDirs) source p

/-- The files of a unit: its source comes first, no file comes twice, all others are known; with a file
come the known files that it includes, and all of them are reached in this way. -/
def IsClosure (d : Disk) (known includeDirs : List Path) (source : Path) (files : List Path) : Prop :=
  Explored d known includeDirs source files files

/-- There are not more files than known ones and the source. -/
theorem Explored.length_le {looked : List Path} (h : Explored d known includeDirs source looked files) :
    files.length ≤ known.length + 1 := by
  obtain ⟨rest, rfl⟩ := List.head?_eq_some_iff.1 h.source_first
  have hrest := (List.pairwise_cons.1 h.distinct).2
  have hle : rest.length ≤ known.length := Path.Distinct.length_le hrest h.others_known
  rw [List.length_cons]
  omega

theorem explored_start (d : Disk) (known includeDirs : List Path) (source : Path) :
    Explored d known includeDirs source [] [source] where
  source_first := rfl
  distinct := List.pairwise_singleton _ _
  others_known := by simp
  readable := by simp
  closed := by simp
  reached := by
    intro p hp
    obtain rfl := List.mem_singleton.1 hp
    exact .refl

/-- One more file is looked through. -/
theorem Explored.step {looked : List Path} (h : Explored d known includeDirs source looked files)
    (hfile : file ∈ files) (htext : readSource d file = .ok text) :
    Explored d known includeDirs source (looked ++ [file])
      (addNew files (knownIncludes known includeDirs file text)) := by
  have hadded := addNew_eq files (knownIncludes known includeDirs file text)
  -- What is new is included by the file.
  have hnew : ∀ p ∈ (firsts (knownIncludes known includeDirs file text)).filter (!·.isIn files),
      ∃ name ∈ Cpp.quotedIncludes text, Means known (searchPath includeDirs file) name p :=
    fun p hp => mem_knownIncludes.1 ((firsts_sublist _).mem (List.mem_of_mem_filter hp))
  obtain ⟨rest, hrest⟩ := List.head?_eq_some_iff.1 h.source_first
  have hknown := h.others_known
  rw [hrest, List.tail_cons] at hknown
  refine ⟨?_, distinct_addNew h.distinct _, ?_, ?_, ?_, ?_⟩
  · rw [hadded, hrest]
    rfl
  · intro p hp
    rw [hadded, hrest, List.cons_append, List.tail_cons, ← hrest] at hp
    rcases List.mem_append.1 hp with hp | hp
    · exact hknown p hp
    · obtain ⟨name, -, hmeans⟩ := hnew p hp
      exact hmeans.1
  · intro f hf
    rcases List.mem_append.1 hf with hf | hf
    · exact h.readable f hf
    · exact ⟨text, List.mem_singleton.1 hf ▸ htext⟩
  · intro f hf p hp
    rcases List.mem_append.1 hf with hf | hf
    · rw [hadded, Path.isIn_append, h.closed f hf p hp, Bool.true_or]
    · obtain rfl := List.mem_singleton.1 hf
      obtain ⟨text', htext', hname⟩ := hp
      obtain rfl := Except.ok.inj (htext.symm.trans htext')
      exact isIn_addNew (mem_knownIncludes.2 hname)
  · intro p hp
    rw [hadded] at hp
    rcases List.mem_append.1 hp with hp | hp
    · exact h.reached p hp
    · exact (h.reached file hfile).tail ⟨text, htext, hnew p hp⟩

/-- The search ends when all is looked through, if its budget covers the files that are left. -/
theorem isClosure_of_closeOver {budget : Nat} {done waiting : List Path}
    (h : Explored d known includeDirs source done (done ++ waiting))
    (hbudget : known.length + 1 ≤ done.length + budget)
    (hrun : closeOver d known includeDirs budget done waiting = .ok files) :
    IsClosure d known includeDirs source files := by
  induction budget generalizing done waiting with
  | zero =>
      cases waiting with
      | nil =>
          cases hrun
          rw [List.append_nil] at h ⊢
          exact h
      | cons file waiting =>
          have hle := h.length_le
          rw [List.length_append, List.length_cons] at hle
          omega
  | succ budget ih =>
      cases waiting with
      | nil =>
          cases hrun
          rwa [List.append_nil] at h
      | cons file waiting =>
          rw [closeOver, Outcome.bind_ok] at hrun
          obtain ⟨text, htext, hrun⟩ := hrun
          have hstep := h.step (by simp) htext
          have hadded := addNew_eq (done ++ file :: waiting) (knownIncludes known includeDirs file text)
          -- The file goes to the ones that are done; what is new waits behind the others.
          have hsplit : addNew (done ++ file :: waiting) (knownIncludes known includeDirs file text) =
              done ++ [file] ++ (addNew (done ++ file :: waiting)
                (knownIncludes known includeDirs file text)).drop (done.length + 1) := by
            have htake : (addNew (done ++ file :: waiting)
                (knownIncludes known includeDirs file text)).take (done.length + 1) =
                  done ++ [file] := by
              rw [hadded, List.append_cons, List.append_assoc (done ++ [file])]
              exact List.take_left' List.length_append
            rw [← htake, List.take_append_drop]
          rw [hsplit] at hstep
          refine ih hstep ?_ hrun
          rw [List.length_append, List.length_singleton]
          omega

/-- **The files of a source are its closure.** -/
theorem isClosure_of_includeClosure (h : includeClosure d source includeDirs known = .ok files) :
    IsClosure d known includeDirs source files :=
  isClosure_of_closeOver (explored_start d known includeDirs source) (by simp) h

/-! ### Programs -/

theorem isClosure_of_files {u : CompilationUnit} (h : u.files d known = .ok files) :
    IsClosure d known u.includeDirs u.source files := by
  rw [CompilationUnit.files] at h
  cases hclosure : includeClosure d u.source u.includeDirs known with
  | error e =>
      rw [hclosure] at h
      cases h
  | ok found =>
      rw [hclosure] at h
      cases h
      exact isClosure_of_includeClosure hclosure

variable {grammar : Grammar} {units : List CompilationUnit} {sources : List Cpp.Source}

/-- The files of a program are those of its units, each once and in the order of first discovery. -/
theorem exists_closures_of_parseProgram (h : parseProgram grammar d known units = .ok sources) :
    ∃ closures, units.mapM (·.files d known) = .ok closures ∧
      sources.map Cpp.Source.path = firsts closures.flatten := by
  rw [parseProgram, Outcome.bind_ok] at h
  obtain ⟨paths, hpaths, h⟩ := h
  rw [programFiles, Outcome.bind_ok] at hpaths
  obtain ⟨closures, hclosures, hpaths⟩ := hpaths
  cases hpaths
  refine ⟨closures, hclosures, ?_⟩
  rw [← addNew_nil, ← foldl_addNew, ← List.map_id' (closures.foldl addNew [])]
  refine map_of_mapM ?_ h
  intro p s hs
  obtain ⟨text, -, hs⟩ := Outcome.bind_ok.1 hs
  cases hs
  rfl

/-- A file of a program comes with the text that is read of it, and with the tree of this text. -/
theorem read_of_mem_parseProgram (h : parseProgram grammar d known units = .ok sources)
    {s : Cpp.Source} (hs : s ∈ sources) :
    readSource d s.path = .ok s.text ∧ s.tree = grammar s.path s.text := by
  rw [parseProgram, Outcome.bind_ok] at h
  obtain ⟨paths, -, h⟩ := h
  obtain ⟨p, -, hrun⟩ := exists_of_mem_mapM h hs
  obtain ⟨text, htext, hrun⟩ := Outcome.bind_ok.1 hrun
  cases hrun
  exact ⟨htext, rfl⟩

/-- **The files of a program are those of the closures of its units, each once and in the order of first
discovery**; each comes with the text that is read of it, and with the tree of this text. -/
theorem parsed_files_of_closures (h : parseProgram grammar d known units = .ok sources) :
    ∃ closures : List (List Path),
      List.Forall₂ (fun u files => u.files d known = .ok files ∧
        IsClosure d known u.includeDirs u.source files) units closures ∧
      sources.map Cpp.Source.path = firsts closures.flatten ∧
      Path.Distinct (sources.map Cpp.Source.path) ∧
      (∀ p : Path, p.isIn (sources.map Cpp.Source.path) = p.isIn closures.flatten) ∧
      ∀ s ∈ sources, readSource d s.path = .ok s.text ∧ s.tree = grammar s.path s.text := by
  obtain ⟨closures, hclosures, hfiles⟩ := exists_closures_of_parseProgram h
  refine ⟨closures, ?_, hfiles, ?_, ?_, fun s hs => read_of_mem_parseProgram h hs⟩
  · exact (forall₂_of_mapM hclosures).imp fun u files hfiles => ⟨hfiles, isClosure_of_files hfiles⟩
  · rw [hfiles]
    exact distinct_firsts _
  · intro p
    rw [hfiles, isIn_firsts]

/-- Two units share a header that includes itself and one of their sources. -/
theorem parsed_files_of_closures_cyclic :
    ∃ (d : Disk) (known : List Path) (units : List CompilationUnit) (sources : List Cpp.Source)
      (closures : List (List Path)),
      parseProgram (fun _ _ => default) d known units = .ok sources ∧
      sources.map Cpp.Source.path = [⟨"a.cpp"⟩, ⟨"b.h"⟩, ⟨"c.cpp"⟩] ∧
      List.Forall₂ (fun u files => u.files d known = .ok files ∧
        IsClosure d known u.includeDirs u.source files) units closures ∧
      sources.map Cpp.Source.path = firsts closures.flatten := by
  let d : Disk := ⟨[(["a.cpp"], .file "#include \"b.h\"\n".toUTF8),
    (["b.h"], .file "#include \"b.h\"\n#include \"a.cpp\"\n".toUTF8),
    (["c.cpp"], .file "#include \"b.h\"\n".toUTF8)], []⟩
  let known : List Path := [⟨"a.cpp"⟩, ⟨"b.h"⟩]
  let units : List CompilationUnit :=
    [⟨⟨"a.cpp"⟩, ⟨""⟩, [], [], []⟩, ⟨⟨"c.cpp"⟩, ⟨""⟩, [], [], []⟩]
  have hpaths : (parseProgram (fun _ _ => default) d known units).toOption.map
      (·.map Cpp.Source.path) = some [⟨"a.cpp"⟩, ⟨"b.h"⟩, ⟨"c.cpp"⟩] := by decide +kernel
  obtain ⟨sources, hsources, hpaths⟩ := Option.map_eq_some_iff.1 hpaths
  obtain ⟨closures, hclosures, hfirsts, -⟩ := parsed_files_of_closures (ok_of_toOption hsources)
  exact ⟨d, known, units, sources, closures, ok_of_toOption hsources, hpaths, hclosures, hfirsts⟩

end Compile

end Upkeep
