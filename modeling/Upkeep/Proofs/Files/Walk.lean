/-
**What a walk finds.**

A walk of a directory finds the files on the disk that stand below it and are wanted, each under the path
that it is walked by.  Paths are joined name by name, so the walk of a directory below comes to the same
paths; what the two walks want is asked of the same directories, except for those on the way to the
directory below, and of different names.

Main definitions:

* `Upkeep.Files.Disk.Holds` — a file stands under some names;
* `Upkeep.Files.Walker.Enters` — no directory on the way to some names is passed over;
* `Upkeep.Files.Walker.WalksInto` — a walk enters a directory below and keeps its files.

Main results:

* `Upkeep.Files.Walker.mem_files_iff`, `Upkeep.Files.Walker.mem_relativeFiles_iff` — **what a walk finds**;
* `Upkeep.Files.Walker.wants_append_iff` — what is wanted below a directory below;
* `Upkeep.Files.Walker.mem_files_of_walksInto` — a walk finds what the walk of a directory below finds.
-/

import Upkeep.Files.Walk

set_option relaxedAutoImplicit false
set_option autoImplicit false

namespace Upkeep

namespace Files

/-- A file stands under some names. -/
def Disk.Holds (d : Disk) (names : Names) : Prop := ∃ content, (names, .file content) ∈ d.entries

namespace Walker

variable {w : Walker} {d : Disk} {root p : Path} {top names below rest : Names}

/-! ### Paths as walked -/

theorem walkedPath_append (root : Path) (names rest : Names) :
    walkedPath root (names ++ rest) = walkedPath (walkedPath root names) rest := List.foldl_append

theorem mem_directoriesAbove_iff {dir : Names} :
    dir ∈ directoriesAbove names ↔ dir ≠ [] ∧ ∃ rest, rest ≠ [] ∧ names = dir ++ rest := by
  rw [directoriesAbove, List.mem_map]
  constructor
  · rintro ⟨n, hn, rfl⟩
    rw [List.mem_range] at hn
    refine ⟨fun hnil => ?_, names.drop (n + 1), fun hnil => ?_, (List.take_append_drop _ _).symm⟩
    · have hlength := congrArg List.length hnil
      rw [List.length_take, List.length_nil] at hlength
      omega
    · have hlength := congrArg List.length hnil
      rw [List.length_drop, List.length_nil] at hlength
      omega
  · rintro ⟨hdir, rest, hrest, rfl⟩
    have hpos := List.length_pos_iff.2 hdir
    have hpos' := List.length_pos_iff.2 hrest
    refine ⟨dir.length - 1, ?_, ?_⟩
    · rw [List.mem_range, List.length_append]
      omega
    · rw [Nat.sub_add_cancel hpos, List.take_left]

/-! ### What is found -/

/-- No directory between the root and some names is passed over. -/
def Enters (w : Walker) (root : Path) (names : Names) : Prop :=
  ∀ dir ∈ directoriesAbove names, w.skip.matchesAny (walkedPath root dir) = false

theorem wants_iff : w.wants root names = true ↔ w.hasExtension (names.getLastD "") = true ∧
    w.skip.matchesAny (relativePath names) = false ∧ w.Enters root names := by
  rw [wants, Bool.and_eq_true, Bool.and_eq_true, Bool.not_eq_true', List.all_eq_true, and_assoc, Enters]
  simp only [Bool.not_eq_true']

/-- What is found stands under the path that it is walked by. -/
theorem mem_files_iff : p ∈ w.files d root ↔ ∃ names ∈ w.relativeFiles d root, walkedPath root names = p := by
  rw [files, (List.mergeSort_perm _ _).mem_iff, List.mem_map]

/-- Files that are in order already are found in this order. -/
theorem files_eq_of_relativeFiles {found : List Names} (h : w.relativeFiles d root = found)
    (hsorted : (found.map (walkedPath root)).Pairwise fun a b => (a.compare b).isLE = true) :
    w.files d root = found.map (walkedPath root) := by
  rw [files, h, List.mergeSort_of_pairwise hsorted]

/-- **What a walk of a directory finds** are the files below it that are wanted. -/
theorem mem_relativeFiles_iff (hdash : root.same ⟨"-"⟩ = false)
    (hroot : d.find? root = some (top, .directory)) : names ∈ w.relativeFiles d root ↔
      names ≠ [] ∧ d.Holds (top ++ names) ∧ w.wants root names = true := by
  rw [relativeFiles, hdash, if_neg Bool.false_ne_true, hroot]
  simp only [List.mem_filterMap, Prod.exists]
  constructor
  · rintro ⟨names', e, hmem, h⟩
    split at h
    · rename_i n rest hrest
      split at h
      · rename_i hwants
        rw [Bool.and_eq_true] at hwants
        cases h
        cases e with
        | file content =>
            rw [Text.eq_append_of_stripPrefix? hrest] at hmem
            exact ⟨List.cons_ne_nil _ _, ⟨content, hmem⟩, hwants.2⟩
        | directory => exact absurd hwants.1 (by simp [Entry.isFile])
        | link target => exact absurd hwants.1 (by simp [Entry.isFile])
      · cases h
    · cases h
  · rintro ⟨hne, ⟨content, hmem⟩, hwants⟩
    refine ⟨_, _, hmem, ?_⟩
    obtain ⟨n, rest, rfl⟩ := List.exists_cons_of_ne_nil hne
    rw [Text.stripPrefix?_append]
    simp [Entry.isFile, hwants]

/-! ### Directories below -/

/-- The way to a file below a directory below leads over this directory. -/
theorem enters_append_iff (hbelow : below ≠ []) (hrest : rest ≠ []) : w.Enters root (below ++ rest) ↔
    (∀ dir, dir ≠ [] → dir <+: below → w.skip.matchesAny (walkedPath root dir) = false) ∧
      w.Enters (walkedPath root below) rest := by
  simp only [Enters, mem_directoriesAbove_iff]
  constructor
  · intro h
    refine ⟨fun dir hdir => ?_, ?_⟩
    · rintro ⟨more, rfl⟩
      exact h dir ⟨hdir, more ++ rest, by simp [hrest], List.append_assoc _ _ _⟩
    · rintro dir ⟨hdir, more, hmore, rfl⟩
      rw [← walkedPath_append]
      exact h _ ⟨by simp [hdir], more, hmore, (List.append_assoc _ _ _).symm⟩
  · rintro ⟨habove, hunder⟩ dir ⟨hdir, more, hmore, hsplit⟩
    rcases List.append_eq_append_iff.1 hsplit with ⟨as, rfl, hrest'⟩ | ⟨as, rfl, hrest'⟩
    · by_cases has : as = []
      · exact habove _ hdir (by simp [has])
      · rw [walkedPath_append]
        exact hunder as ⟨has, more, hmore, hrest'⟩
    · exact habove dir hdir (List.prefix_append _ _)

/-- **What is wanted below a directory below**: the directories on the way to it are asked for as well, and
the names are longer. -/
theorem wants_append_iff (hbelow : below ≠ []) (hrest : rest ≠ []) : w.wants root (below ++ rest) = true ↔
    w.hasExtension (rest.getLastD "") = true ∧ w.skip.matchesAny (relativePath (below ++ rest)) = false ∧
      (∀ dir, dir ≠ [] → dir <+: below → w.skip.matchesAny (walkedPath root dir) = false) ∧
      w.Enters (walkedPath root below) rest := by
  have hlast : (below ++ rest).getLastD "" = rest.getLastD "" := by
    rw [List.getLastD_eq_getLast?, List.getLastD_eq_getLast?, List.getLast?_append,
      List.getLast?_eq_some_getLast hrest]
    rfl
  rw [wants_iff, enters_append_iff hbelow hrest, hlast]

/-- The walk of a root enters a directory below it, and from this root no pattern describes a file that the
walk of the directory finds. -/
structure WalksInto (w : Walker) (d : Disk) (root : Path) (top below : Names) : Prop where
  written : root.same ⟨"-"⟩ = false ∧ (walkedPath root below).same ⟨"-"⟩ = false
  leads : d.find? root = some (top, .directory)
  leadsBelow : d.find? (walkedPath root below) = some (top ++ below, .directory)
  isBelow : below ≠ []
  enters : ∀ dir, dir ≠ [] → dir <+: below → w.skip.matchesAny (walkedPath root dir) = false
  keeps : ∀ rest ∈ w.relativeFiles d (walkedPath root below),
    w.skip.matchesAny (relativePath (below ++ rest)) = false

/-- **A walk finds what the walk of a directory below finds**, if it enters this directory and keeps the
files. -/
theorem mem_files_of_walksInto (h : w.WalksInto d root top below)
    (hp : p ∈ w.files d (walkedPath root below)) : p ∈ w.files d root := by
  obtain ⟨rest, hrest, rfl⟩ := mem_files_iff.1 hp
  obtain ⟨hne, hholds, hwants⟩ := (mem_relativeFiles_iff h.written.2 h.leadsBelow).1 hrest
  obtain ⟨hextension, -, hunder⟩ := wants_iff.1 hwants
  refine mem_files_iff.2 ⟨below ++ rest, (mem_relativeFiles_iff h.written.1 h.leads).2 ?_,
    walkedPath_append _ _ _⟩
  refine ⟨by simp [hne], ?_, ?_⟩
  · rwa [← List.append_assoc]
  · exact (wants_append_iff h.isBelow hne).2 ⟨hextension, h.keeps rest hrest, h.enters, hunder⟩

end Walker

end Files

end Upkeep
