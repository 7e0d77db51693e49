/-
**The include path of adjusted arguments.**

The flags that only a driver understands are dropped one argument at a time, while a flag of the include
path that stands alone takes the argument behind it.  No flag of the include path is ever dropped, so
the two agree as long as no argument that such a flag takes looks like a flag of the driver.  One that
does is dropped with them, and the flag in front of it takes what is left behind: an absolute directory
whose name begins with an `F` is lost, and the next argument becomes a directory.

Main definitions:

* `Upkeep.Compile.NamedDir`, `Upkeep.Compile.namedDirs` — the directories that arguments name;
* `Upkeep.Compile.SparesDirs` — arguments in which no directory looks like a flag of the driver.

Main results:

* `Upkeep.Compile.includeDirs_eq` — the include path is what is named, seen from the directory;
* `Upkeep.Compile.namedDirs_filter_iff` — when dropping flags leaves the directories as they are;
* `Upkeep.Compile.adjusted_include_path` — **adjusting the arguments keeps what they name exactly if it
  spares the directories**, and then it keeps the include path.
-/

import Upkeep.Compile.Command

set_option relaxedAutoImplicit false
set_option autoImplicit false

namespace Upkeep

namespace Compile

variable {arg d : String} {args : List String}

/-! ### Directories that are named -/

/-- A directory that arguments name for the include path. -/
inductive NamedDir where
  /-- The directory stands behind its flag in one argument. -/
  | joined (dir : String)
  /-- The directory is an argument of its own, behind that of its flag. -/
  | separate (dir : String)
deriving DecidableEq, Repr

/-- The directory, as it is spelled. -/
def NamedDir.dir : NamedDir → String
  | joined d => d
  | separate d => d

/-- The directories that arguments name for the include path, in order. -/
def namedDirs : List String → List NamedDir
  | [] => []
  | arg :: rest =>
    match includeMention arg with
    | .joined d => .joined d :: namedDirs rest
    | .absent => namedDirs rest
    | .separate =>
      match rest with
      | [] => []
      | next :: rest => .separate next :: namedDirs rest

@[simp] theorem namedDirs_nil : namedDirs [] = [] := rfl

theorem namedDirs_cons_joined (h : includeMention arg = .joined d) (args : List String) :
    namedDirs (arg :: args) = .joined d :: namedDirs args := by
  rw [namedDirs.eq_def]
  simp only [h]

theorem namedDirs_cons_absent (h : includeMention arg = .absent) (args : List String) :
    namedDirs (arg :: args) = namedDirs args := by
  rw [namedDirs.eq_def]
  simp only [h]

theorem namedDirs_cons_separate (h : includeMention arg = .separate) (next : String)
    (rest : List String) :
    namedDirs (arg :: next :: rest) = .separate next :: namedDirs rest := by
  rw [namedDirs, h]

/-- A flag that stands alone at the end names nothing. -/
theorem namedDirs_separate_last (h : includeMention arg = .separate) : namedDirs [arg] = [] := by
  rw [namedDirs, h]

/-- The paths of directories seen from a directory, each once. -/
def pathsFrom (directory : Path) (found : List Path) (dirs : List NamedDir) : List Path :=
  dirs.foldl (fun ps d => addPath ps (Path.resolve directory (unquote d.dir))) found

theorem includeDirsFrom_eq (directory : Path) (found : List Path) (args : List String) :
    includeDirsFrom directory found args = pathsFrom directory found (namedDirs args) := by
  fun_induction includeDirsFrom directory found args with
  | case1 => rfl
  | case2 found arg d h =>
      rw [namedDirs_cons_joined h]
      rfl
  | case3 found arg h =>
      have hnone : namedDirs [arg] = [] := by
        cases hm : includeMention arg with
        | joined d => exact absurd hm (h d)
        | separate => exact namedDirs_separate_last hm
        | absent => exact namedDirs_cons_absent hm []
      rw [hnone]
      rfl
  | case4 found arg next rest d h ih =>
      rw [ih, namedDirs_cons_joined h (next :: rest)]
      rfl
  | case5 found arg next rest h ih =>
      rw [ih, namedDirs_cons_separate h]
      rfl
  | case6 found arg next rest h ih => rw [ih, namedDirs_cons_absent h (next :: rest)]

/-- The include path is made of the directories that are named, seen from the directory of the
command. -/
theorem includeDirs_eq (args : List String) (directory : Path) :
    includeDirs args directory = pathsFrom directory [] (namedDirs args) :=
  includeDirsFrom_eq directory [] args

/-! ### Dropping arguments -/

/-- Every directory that is an argument of its own is kept. -/
def SparesDirs (keep : String → Bool) (args : List String) : Prop :=
  ∀ n ∈ namedDirs args, n = .separate n.dir → keep n.dir = true

instance (keep : String → Bool) (args : List String) : Decidable (SparesDirs keep args) :=
  inferInstanceAs (Decidable (∀ n ∈ namedDirs args, n = .separate n.dir → keep n.dir = true))

section Filter

variable {keep : String → Bool}

/-- Dropping arguments that say nothing about the include path leaves the named directories alone if
it spares them. -/
theorem namedDirs_filter (hkeep : ∀ a, includeMention a ≠ .absent → keep a = true)
    (h : SparesDirs keep args) : namedDirs (args.filter keep) = namedDirs args := by
  fun_induction namedDirs args with
  | case1 => rfl
  | case2 arg rest d hm ih =>
      have hrest : SparesDirs keep rest := by
        intro n hn
        exact h n (by rw [namedDirs_cons_joined hm]; exact List.mem_cons_of_mem _ hn)
      rw [List.filter_cons_of_pos (hkeep arg (by simp [hm])), namedDirs_cons_joined hm, ih hrest]
  | case3 arg rest hm ih =>
      have hrest : SparesDirs keep rest := by
        intro n hn
        exact h n (by rwa [namedDirs_cons_absent hm])
      rw [List.filter_cons]
      split
      · rw [namedDirs_cons_absent hm, ih hrest]
      · exact ih hrest
  | case4 arg hm =>
      rw [List.filter_cons_of_pos (hkeep arg (by simp [hm])), List.filter_nil,
        namedDirs_separate_last hm]
  | case5 arg hm next rest ih =>
      have hnamed := namedDirs_cons_separate hm next rest
      have hnext : keep next = true := h (.separate next) (by rw [hnamed]; exact .head _) rfl
      have hrest : SparesDirs keep rest := by
        intro n hn
        exact h n (by rw [hnamed]; exact List.mem_cons_of_mem _ hn)
      rw [List.filter_cons_of_pos (hkeep arg (by simp [hm])), List.filter_cons_of_pos hnext,
        namedDirs_cons_separate hm, ih hrest]

/-- A directory that is dropped is missed: its flag takes an argument that is kept, or none. -/
theorem sparesDirs_of_named (hkeep : ∀ a, includeMention a ≠ .absent → keep a = true)
    (h : (namedDirs (args.filter keep)).map NamedDir.dir = (namedDirs args).map NamedDir.dir) :
    SparesDirs keep args := by
  fun_induction namedDirs args with
  | case1 => simp [SparesDirs]
  | case2 arg rest d hm ih =>
      rw [List.filter_cons_of_pos (hkeep arg (by simp [hm])), namedDirs_cons_joined hm] at h
      have hrest := ih (List.cons.inj h).2
      rw [SparesDirs, namedDirs_cons_joined hm, List.forall_mem_cons]
      exact ⟨nofun, hrest⟩
  | case3 arg rest hm ih =>
      rw [SparesDirs, namedDirs_cons_absent hm]
      refine ih ?_
      rw [List.filter_cons] at h
      split at h
      · rwa [namedDirs_cons_absent hm] at h
      · exact h
  | case4 arg hm => simp [SparesDirs, namedDirs_separate_last hm]
  | case5 arg hm next rest ih =>
      rw [List.filter_cons_of_pos (hkeep arg (by simp [hm]))] at h
      rw [SparesDirs, namedDirs_cons_separate hm, List.forall_mem_cons]
      cases hnext : keep next with
      | true =>
          rw [List.filter_cons_of_pos hnext, namedDirs_cons_separate hm] at h
          exact ⟨fun _ => hnext, ih (List.cons.inj h).2⟩
      | false =>
          -- The flag takes the first argument that is left, which is not the one that was dropped.
          rw [List.filter_cons_of_neg (by simp [hnext])] at h
          cases hleft : rest.filter keep with
          | nil =>
              rw [hleft, namedDirs_separate_last hm] at h
              cases h
          | cons a left =>
              rw [hleft, namedDirs_cons_separate hm] at h
              obtain rfl : a = next := (List.cons.inj h).1
              have ha : keep a = true := (List.mem_filter.1 (hleft ▸ List.mem_cons_self)).2
              rw [ha] at hnext
              cases hnext

/-- **When dropping arguments leaves the named directories as they are.** -/
theorem namedDirs_filter_iff (hkeep : ∀ a, includeMention a ≠ .absent → keep a = true) :
    (namedDirs (args.filter keep)).map NamedDir.dir = (namedDirs args).map NamedDir.dir ↔
      SparesDirs keep args :=
  ⟨sparesDirs_of_named hkeep, fun h => by rw [namedDirs_filter hkeep h]⟩

end Filter

/-! ### Flags of the driver -/

/-- Flags of the driver say nothing about the include path. -/
theorem includeMention_of_isDriverFlag (h : isDriverFlag arg = true) :
    includeMention arg = .absent := by
  simp only [isDriverFlag, Bool.or_eq_true, beq_iff_eq] at h
  rcases h with (rfl | rfl) | h
  · decide
  · decide
  · rw [Text.startsWith, List.isPrefixOf_iff_prefix] at h
    obtain ⟨rest, hrest⟩ := h
    simp [includeMention, includeFlags, Text.afterStart?, Text.stripPrefix?, ← hrest]

/-- **Adjusting the arguments keeps the directories that they name exactly if no directory that is an
argument of its own looks like a flag of the driver**, and then it keeps the include path: in order and
content, from whatever directory it is seen. -/
theorem adjusted_include_path (args : List String) :
    ((namedDirs (adjustArguments args)).map NamedDir.dir =
        (namedDirs (argumentSpan args)).map NamedDir.dir ↔
      SparesDirs (!isDriverFlag ·) (argumentSpan args)) ∧
    (SparesDirs (!isDriverFlag ·) (argumentSpan args) → ∀ directory : Path,
      includeDirs (adjustArguments args) directory = includeDirs (argumentSpan args) directory) := by
  have hkeep : ∀ a, includeMention a ≠ .absent → (!isDriverFlag a) = true := by
    intro a ha
    cases hflag : isDriverFlag a with
    | false => rfl
    | true => exact absurd (includeMention_of_isDriverFlag hflag) ha
  refine ⟨namedDirs_filter_iff hkeep, ?_⟩
  intro h directory
  rw [includeDirs_eq, includeDirs_eq, adjustArguments, namedDirs_filter hkeep h]

/-- A command with a flag of its driver between two ways to name a directory. -/
def outputBetween : List String :=
  ["clang-cl", "/I", "/usr/include", "/Foa.obj", "-iquote", "/opt/F", "-Isrc", "-c", "a.cpp"]

theorem adjusted_include_path_outputBetween :
    SparesDirs (!isDriverFlag ·) (argumentSpan outputBetween) ∧
      includeDirs (adjustArguments outputBetween) ⟨"/w"⟩ =
        includeDirs (argumentSpan outputBetween) ⟨"/w"⟩ :=
  have h : SparesDirs (!isDriverFlag ·) (argumentSpan outputBetween) := by decide +kernel
  ⟨h, (adjusted_include_path outputBetween).2 h ⟨"/w"⟩⟩

/-- **A directory that is an argument of its own can be lost**: it looks like a flag of the driver, and
what stands behind it becomes a directory. -/
theorem directory_dropped_as_flag :
    includeDirs (argumentSpan ["c++", "-I", "/Foo/include", "-Isrc", "-c", "a.cpp"]) ⟨"/w"⟩ =
        [⟨"/Foo/include"⟩, ⟨"/w/src"⟩] ∧
      includeDirs (adjustArguments ["c++", "-I", "/Foo/include", "-Isrc", "-c", "a.cpp"]) ⟨"/w"⟩ =
        [⟨"/w/-Isrc"⟩] := by
  decide +kernel

end Compile

end Upkeep
