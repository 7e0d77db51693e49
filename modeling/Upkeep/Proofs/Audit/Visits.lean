/-
**A file is counted once for every walk that finds it.**

The index of a tree is made of the texts that the walks of its sub-paths come to, one after the other, and
a file that two of them come to is a text twice.  So a word is told when it stands at one place in all
these texts: more sub-paths whose files are found already, a sub-path named again or a directory below
one, take the words of all these files away and change nothing else.

Main definitions:

* `Upkeep.Audit.visits` — the files that the walks of some sub-paths come to, in their order;
* `Upkeep.Audit.textAt?` — the text of a file, unless it is a binary;
* `Upkeep.Audit.visitedTexts` — the texts that are counted;
* `Upkeep.Audit.NamedAgain` — sub-paths that name nothing new.

Main results:

* `Upkeep.Audit.indexTree_ok` — **the index of a tree is the index of these texts**;
* `Upkeep.Audit.located_iff_of_again` — the words that are left when texts are given again;
* `Upkeep.Audit.mem_visits_of_namedAgain` — what names nothing new leads to no other files;
* `Upkeep.Audit.unique_words_by_visits` — **what is told of a tree**.
-/

import Mathlib.Tactic.Tauto
import Upkeep.Proofs.Audit.UniqueWords
import Upkeep.Proofs.Data.Outcome
import Upkeep.Proofs.Files.Walk

set_option relaxedAutoImplicit false
set_option autoImplicit false

namespace Upkeep

namespace Audit

open Files Text

variable {d : Disk} {root p : Path} {ix ix' : WordIndex} {files : List Path}
  {texts texts' again : List NamedText} {subpaths outer more all ignore : List String} {walker : Walker}
  {s : Sighting} {path word : String}

/-! ### Words of more texts -/

theorem seenIn_append (texts texts' : List NamedText) (word : String) :
    seenIn (texts ++ texts') word = seenIn texts word ++ seenIn texts' word := by
  rw [seenIn, List.flatMap_append, List.filter_append, seenIn, seenIn]

theorem seenIn_perm (h : texts.Perm texts') (word : String) : (seenIn texts word).Perm (seenIn texts' word) :=
  (h.flatMap_right _).filter _

theorem mem_seenIn_iff :
    s ∈ seenIn texts word ↔ ∃ t ∈ texts, s ∈ Sighting.ofText t.1 t.2 ∧ s.word = word := by
  simp only [seenIn, List.mem_filter, List.mem_flatMap, beq_iff_eq]
  tauto

/-- Where a word is not seen, it has no place. -/
theorem seenIn_eq_nil_iff : seenIn texts word = [] ↔ ∀ path p, ¬Occurs texts path word p := by
  have hmem : ∀ s, s ∈ seenIn texts word ↔ (∃ p, (p, s) ∈ sighted texts) ∧ s.word = word := by
    intro s
    rw [seenIn, ← map_snd_sighted, List.mem_filter, List.mem_map, beq_iff_eq]
    simp
  rw [List.eq_nil_iff_forall_not_mem]
  constructor
  · intro h path p hp
    exact h ⟨path, p.line + 1, word⟩ ((hmem _).2 ⟨⟨p, mem_sighted_iff.2 ⟨hp, rfl⟩⟩, rfl⟩)
  · intro h s hs
    obtain ⟨⟨p, hp⟩, rfl⟩ := (hmem s).1 hs
    exact h s.path p (mem_sighted_iff.1 hp).1

/-- A word of which texts are given a second time is located if it was before and is not in these. -/
theorem located_iff_of_again (hall : texts.Perm (texts' ++ again)) (hagain : ∀ t ∈ again, t ∈ texts') :
    (WordIndex.ofTexts texts).standing s.word = .located s ↔
      (WordIndex.ofTexts texts').standing s.word = .located s ∧ ∀ path p, ¬Occurs again path s.word p := by
  have hperm := seenIn_perm hall s.word
  rw [seenIn_append] at hperm
  rw [WordIndex.standing_ofTexts, WordIndex.standing_ofTexts, Standing.ofSightings_of_perm hperm,
    Standing.ofSightings_eq_located_iff, Standing.ofSightings_eq_located_iff, ← seenIn_eq_nil_iff,
    List.append_eq_singleton_iff]
  refine or_iff_right ?_
  rintro ⟨hnone, hs⟩
  -- What is seen in the texts that are given again is seen in the others.
  obtain ⟨t, ht, hmem⟩ := mem_seenIn_iff.1 (hs ▸ List.mem_singleton_self s : s ∈ seenIn again s.word)
  have hseen := mem_seenIn_iff.2 ⟨t, hagain t ht, hmem⟩
  rw [hnone] at hseen
  cases hseen

/-! ### The index of a tree -/

/-- The files that the walks of some sub-paths come to, in their order. -/
def visits (walker : Walker) (d : Disk) (root : Path) (subpaths : List String) : List Path :=
  subpaths.flatMap fun s => if d.isDirectory (root.join ⟨s⟩) then walker.files d (root.join ⟨s⟩) else []

/-- The text of a file, known by its path from the root, unless it is a binary. -/
def textAt? (d : Disk) (root p : Path) : Option NamedText :=
  match readContent d p with
  | .ok (_, content) =>
    if seemsBinary (bytesOf content) then none else some (relativeText root p, bytesOf content)
  | .error _ => none

/-- The texts that the walks of some sub-paths come to. -/
def visitedTexts (walker : Walker) (d : Disk) (root : Path) (subpaths : List String) : List NamedText :=
  (visits walker d root subpaths).filterMap (textAt? d root)

theorem addFile_ok : addFile d root ix p = .ok ix' ↔
    (∃ r, readContent d p = .ok r) ∧ ix' = (textAt? d root p).elim ix fun t => ix.addText t.1 t.2 := by
  rw [addFile, Outcome.bind_ok, textAt?]
  cases readContent d p with
  | error e => exact iff_of_false (by simp) (by simp)
  | ok r =>
      obtain ⟨reading, content⟩ := r
      dsimp only
      constructor
      · rintro ⟨_, ⟨⟩, h⟩
        refine ⟨⟨_, rfl⟩, (Except.ok.inj h).symm.trans ?_⟩
        split <;> rfl
      · rintro ⟨-, rfl⟩
        refine ⟨_, rfl, congrArg Except.ok ?_⟩
        dsimp only
        split <;> rfl

/-- What the files of a walk add to an index are the texts among them. -/
theorem foldlM_addFile_ok : files.foldlM (addFile d root) ix = .ok ix' ↔
    (∀ p ∈ files, ∃ r, readContent d p = .ok r) ∧
      ix' = (files.filterMap (textAt? d root)).foldl (fun ix t => ix.addText t.1 t.2) ix := by
  induction files generalizing ix with
  | nil => simp [pure, Except.pure, eq_comm]
  | cons p files ih =>
      rw [List.foldlM_cons, Outcome.bind_ok, List.forall_mem_cons, List.filterMap_cons]
      constructor
      · rintro ⟨ix₁, hadd, hrest⟩
        obtain ⟨hread, rfl⟩ := addFile_ok.1 hadd
        obtain ⟨hreads, rfl⟩ := ih.1 hrest
        refine ⟨⟨hread, hreads⟩, ?_⟩
        cases textAt? d root p <;> rfl
      · rintro ⟨⟨hread, hreads⟩, rfl⟩
        refine ⟨_, addFile_ok.2 ⟨hread, rfl⟩, ih.2 ⟨hreads, ?_⟩⟩
        cases textAt? d root p <;> rfl

/-- **The index of a tree is the index of the texts that the walks come to**, if all their files can be
read. -/
theorem indexTree_ok : indexTree d root subpaths ignore = .ok ix ↔
    ∃ walker, Walker.ofTexts (ignore ++ [revisionPattern]) [] = .ok walker ∧
      (∀ p ∈ visits walker d root subpaths, ∃ r, readContent d p = .ok r) ∧
      ix = .ofTexts (visitedTexts walker d root subpaths) := by
  rw [indexTree, Outcome.bind_ok]
  refine exists_congr fun walker => and_congr_right fun _ => ?_
  exact foldlM_addFile_ok

/-! ### Sub-paths that are named again -/

/-- A sub-path names nothing new: it is named already, or the walk of one that is named enters the directory
and keeps its files. -/
def NamedAgain (walker : Walker) (d : Disk) (root : Path) (outer : List String) (t : String) : Prop :=
  t ∈ outer ∨ ∃ s ∈ outer, ∃ top below, walker.WalksInto d (root.join ⟨s⟩) top below ∧
    root.join ⟨t⟩ = Walker.walkedPath (root.join ⟨s⟩) below

theorem visits_cons (s : String) (subpaths : List String) : visits walker d root (s :: subpaths) =
    visits walker d root [s] ++ visits walker d root subpaths := by
  rw [visits, visits, visits, List.flatMap_singleton, List.flatMap_cons]

theorem mem_visits_iff : p ∈ visits walker d root subpaths ↔
    ∃ s ∈ subpaths, d.isDirectory (root.join ⟨s⟩) = true ∧ p ∈ walker.files d (root.join ⟨s⟩) := by
  rw [visits, List.mem_flatMap]
  refine exists_congr fun s => and_congr_right fun _ => ?_
  split
  · rename_i h
    rw [and_iff_right h]
  · rename_i h
    simp [h]

/-- **The walk of a sub-path that names nothing new comes to no other files.** -/
theorem mem_visits_of_namedAgain (h : ∀ t ∈ more, NamedAgain walker d root outer t)
    (hp : p ∈ visits walker d root more) : p ∈ visits walker d root outer := by
  obtain ⟨t, ht, hdir, hfile⟩ := mem_visits_iff.1 hp
  rcases h t ht with hmem | ⟨s, hs, top, below, hinto, hjoin⟩
  · exact mem_visits_iff.2 ⟨t, hmem, hdir, hfile⟩
  · rw [hjoin] at hfile
    refine mem_visits_iff.2 ⟨s, hs, ?_, Walker.mem_files_of_walksInto hinto hfile⟩
    rw [Disk.isDirectory, hinto.leads]
    rfl

/-- **What is told of a tree.**  Each text file is counted once for every walk that comes to it, and a word
is told, unless its path is excluded, when it has one place in all these texts.  So what names nothing new
takes away the words of all the files that its walks come to, and changes nothing else. -/
theorem unique_words_by_visits (hall : all.Perm (outer ++ more)) (h : indexTree d root all ignore = .ok ix) :
    ∃ walker, Walker.ofTexts (ignore ++ [revisionPattern]) [] = .ok walker ∧
      (∀ excluded s, s ∈ ix.unique excluded ↔ OccursOnce (visitedTexts walker d root all) s ∧
        ∀ e ∈ excluded, ¬e.toList <+: s.path.toList) ∧
      ((∀ t ∈ more, NamedAgain walker d root outer t) →
        ∃ ix₀, indexTree d root outer ignore = .ok ix₀ ∧ ∀ excluded s, s ∈ ix.unique excluded ↔
          s ∈ ix₀.unique excluded ∧ ∀ path p, ¬Occurs (visitedTexts walker d root more) path s.word p) := by
  obtain ⟨walker, hwalker, hread, rfl⟩ := indexTree_ok.1 h
  refine ⟨walker, hwalker, fun excluded s => ?_, fun hagain => ?_⟩
  · rw [WordIndex.mem_unique_iff, standing_eq_located_iff]
  · have hvisits : (visits walker d root all).Perm
        (visits walker d root outer ++ visits walker d root more) := by
      rw [visits, visits, visits, ← List.flatMap_append]
      exact hall.flatMap_right _
    have htexts : (visitedTexts walker d root all).Perm
        (visitedTexts walker d root outer ++ visitedTexts walker d root more) := by
      rw [visitedTexts, visitedTexts, visitedTexts, ← List.filterMap_append]
      exact hvisits.filterMap _
    have hfound : ∀ t ∈ visitedTexts walker d root more, t ∈ visitedTexts walker d root outer := by
      intro t ht
      obtain ⟨p, hp, htext⟩ := List.mem_filterMap.1 ht
      exact List.mem_filterMap.2 ⟨p, mem_visits_of_namedAgain hagain hp, htext⟩
    refine ⟨_, indexTree_ok.2 ⟨walker, hwalker, fun p hp => ?_, rfl⟩, fun excluded s => ?_⟩
    · exact hread p (hvisits.mem_iff.2 (List.mem_append_left _ hp))
    · rw [WordIndex.mem_unique_iff, WordIndex.mem_unique_iff, located_iff_of_again htexts hfound]
      tauto

/-- A directory with a file in it, and with a directory below it that has one, too. -/
def nestedTree : Disk where
  entries := [(["w", "src", "a.cpp"], .file "int kept;\n".toUTF8),
    (["w", "src", "lib", "b.cpp"], .file "int lost;\n".toUTF8)]
  home := ["w"]

/-- What the walks of its directories come to. -/
theorem visits_nestedTree : ∃ walker, Walker.ofTexts [revisionPattern] [] = .ok walker ∧
    visits walker nestedTree ⟨"."⟩ ["src"] = [⟨"./src/a.cpp"⟩, ⟨"./src/lib/b.cpp"⟩] ∧
    visits walker nestedTree ⟨"."⟩ ["src/lib"] = [⟨"./src/lib/b.cpp"⟩] ∧
    NamedAgain walker nestedTree ⟨"."⟩ ["src"] "src/lib" := by
  have hwalk : (Walker.ofTexts [revisionPattern] []).toOption.any (fun w =>
      w.relativeFiles nestedTree ⟨"./src"⟩ == [["a.cpp"], ["lib", "b.cpp"]] &&
        w.relativeFiles nestedTree ⟨"./src/lib"⟩ == [["b.cpp"]] &&
        !w.skip.matchesAny ⟨"./src/lib"⟩ && !w.skip.matchesAny ⟨"lib/b.cpp"⟩) = true := by decide +kernel
  obtain ⟨walker, hwalker, hwalk⟩ := (Option.any_eq_true _ _).1 hwalk
  rw [Bool.and_eq_true, Bool.and_eq_true, Bool.and_eq_true, beq_iff_eq, beq_iff_eq, Bool.not_eq_true',
    Bool.not_eq_true'] at hwalk
  obtain ⟨⟨⟨hsrc, hlib⟩, henters⟩, hkeeps⟩ := hwalk
  refine ⟨walker, ok_of_toOption hwalker, ?_, ?_,
    .inr ⟨"src", by decide, ["w", "src"], ["lib"], ?_, by decide⟩⟩
  · rw [visits, List.flatMap_singleton, if_pos (by decide +kernel)]
    exact Walker.files_eq_of_relativeFiles hsrc (by decide +kernel)
  · rw [visits, List.flatMap_singleton, if_pos (by decide +kernel)]
    exact Walker.files_eq_of_relativeFiles hlib (by decide +kernel)
  · refine ⟨by decide, rfl, rfl, by decide, ?_, ?_⟩
    · intro dir hne hdir
      rcases List.prefix_cons_iff.1 hdir with rfl | ⟨rest, rfl, hrest⟩
      · exact absurd rfl hne
      · rw [List.prefix_nil.1 hrest]
        exact henters
    · intro rest hrest
      have hrest : rest ∈ walker.relativeFiles nestedTree ⟨"./src/lib"⟩ := hrest
      rw [hlib, List.mem_singleton] at hrest
      subst hrest
      exact hkeeps

/-- The indexes of its directories. -/
theorem indexTree_nestedTree (h : Walker.ofTexts [revisionPattern] [] = .ok walker)
    (hvisits : ∀ p ∈ visits walker nestedTree ⟨"."⟩ subpaths,
      p = ⟨"./src/a.cpp"⟩ ∨ p = ⟨"./src/lib/b.cpp"⟩) :
    indexTree nestedTree ⟨"."⟩ subpaths [] =
      .ok (.ofTexts (visitedTexts walker nestedTree ⟨"."⟩ subpaths)) := by
  refine indexTree_ok.2 ⟨walker, h, fun p hp => ?_, rfl⟩
  rcases hvisits p hp with rfl | rfl
  · exact ⟨_, rfl⟩
  · exact ⟨_, rfl⟩

/-- Of two files a word is told that stands in the outer one, and the one of the inner one is lost when its
directory is named as well. -/
theorem unique_words_by_visits_nested : ["src/lib", "src"].Perm (["src"] ++ ["src/lib"]) ∧
    ∃ ix ix₀, indexTree nestedTree ⟨"."⟩ ["src/lib", "src"] [] = .ok ix ∧
      indexTree nestedTree ⟨"."⟩ ["src"] [] = .ok ix₀ ∧ ⟨"src/a.cpp", 1, "kept"⟩ ∈ ix.unique [] ∧
      ⟨"src/lib/b.cpp", 1, "lost"⟩ ∈ ix₀.unique [] ∧ ⟨"src/lib/b.cpp", 1, "lost"⟩ ∉ ix.unique [] := by
  have hperm : ["src/lib", "src"].Perm (["src"] ++ ["src/lib"]) := .swap _ _ []
  obtain ⟨walker, hwalker, hsrc, hlib, hagain⟩ := visits_nestedTree
  have hall : visits walker nestedTree ⟨"."⟩ ["src/lib", "src"] =
      [⟨"./src/lib/b.cpp"⟩, ⟨"./src/a.cpp"⟩, ⟨"./src/lib/b.cpp"⟩] := by
    rw [visits_cons, hlib, hsrc]
    rfl
  have hindex := indexTree_nestedTree hwalker (by rw [hall]; decide)
  obtain ⟨walker', hwalker', -, htold⟩ := unique_words_by_visits hperm hindex
  obtain rfl : walker' = walker := Except.ok.inj (hwalker'.symm.trans hwalker)
  obtain ⟨ix₀, hix₀, hword⟩ := htold (by simpa using hagain)
  obtain rfl := Except.ok.inj (hix₀.symm.trans (indexTree_nestedTree hwalker (by rw [hsrc]; decide)))
  refine ⟨hperm, _, _, hindex, hix₀, (hword _ _).2 ⟨?_, seenIn_eq_nil_iff.1 ?_⟩, ?_, fun hlost => ?_⟩
  · rw [WordIndex.mem_unique_iff, visitedTexts, hsrc]
    decide +kernel
  · rw [visitedTexts, hlib]
    decide +kernel
  · rw [WordIndex.mem_unique_iff, visitedTexts, hsrc]
    decide +kernel
  · have hnone := seenIn_eq_nil_iff.2 ((hword _ _).1 hlost).2
    rw [visitedTexts, hlib] at hnone
    revert hnone
    decide +kernel

/-- A word that is told of a directory is lost when the directory is named twice. -/
theorem lost_when_named_twice : ¬∀ (d : Disk) (root : Path) (subpaths ignore : List String)
    (ix ix₀ : WordIndex), indexTree d root (subpaths ++ subpaths) ignore = .ok ix →
      indexTree d root subpaths ignore = .ok ix₀ →
      ∀ excluded, ix.unique excluded = ix₀.unique excluded := by
  intro h
  obtain ⟨walker, hwalker, -, hlib, -⟩ := visits_nestedTree
  have htwice : visits walker nestedTree ⟨"."⟩ (["src/lib"] ++ ["src/lib"]) =
      [⟨"./src/lib/b.cpp"⟩, ⟨"./src/lib/b.cpp"⟩] := by
    rw [List.singleton_append, visits_cons, hlib]
    rfl
  have hsame := h _ _ _ _ _ _ (indexTree_nestedTree hwalker (by rw [htwice]; decide))
    (indexTree_nestedTree hwalker (by rw [hlib]; decide)) []
  have honce : ⟨"src/lib/b.cpp", 1, "lost"⟩ ∈
      (WordIndex.ofTexts (visitedTexts walker nestedTree ⟨"."⟩ ["src/lib"])).unique [] := by
    rw [WordIndex.mem_unique_iff, visitedTexts, hlib]
    decide +kernel
  rw [← hsame, WordIndex.mem_unique_iff, visitedTexts, htwice] at honce
  revert honce
  decide +kernel

end Audit

end Upkeep
