/-
**Which diffs are read back.**

Whatever is read of a text has lines without line feeds, and as many of them as the headers of its hunks
count.  So a diff is read back as the hunks that it was made of if and only if these are like that, and
a line feed in a line that was put in the place of another spoils the diff.

Main definitions:

* `Upkeep.Diff.Hunk.Counted` — hunks with headers that count their lines.

Main results:

* `Upkeep.Diff.readable_of_read?` — what is read can be read back;
* `Upkeep.Diff.read?_render_iff` — **a diff is read back if and only if its hunks are readable**;
* `Upkeep.Diff.counted_of_mem_hunks` — headers count right if the comparison is a script;
* `Upkeep.Diff.oneLine_newLines_iff` — what hunks show of a text is one line where the text is.
-/

import Upkeep.Proofs.Diff.Lines
import Upkeep.Proofs.Diff.Reading
import Upkeep.Proofs.Text.ByteLines

set_option relaxedAutoImplicit false
set_option autoImplicit false

namespace Upkeep

namespace Diff

/-! ### Lines of texts -/

variable {s : String} {l : String} {a b old new : Nat}

theorem oneLine_of_mem_segments {seg : List Char} {cs : List Char}
    (h : seg ∈ Text.segments (· == '\n') cs) : '\n' ∉ seg := by
  intro hfeed
  have hsep := Text.isSep_of_mem_segments h hfeed
  simp at hsep

/-- The lines of a text hold no line feed. -/
theorem oneLine_of_mem_lines (h : l ∈ Text.lines s) : OneLine l := by
  obtain ⟨cs, hcs, rfl⟩ := List.mem_map.1 h
  rw [OneLine, String.toList_ofList]
  rw [Text.lineChars, List.mem_append] at hcs
  rcases hcs with hcs | hcs
  · obtain ⟨seg, hseg, rfl⟩ := List.mem_map.1 hcs
    have hfeed := oneLine_of_mem_segments ((List.dropLast_sublist _).subset hseg)
    rw [Text.dropReturn]
    split
    · exact fun h => hfeed ((List.dropLast_sublist _).subset h)
    · exact hfeed
  · obtain ⟨hlast, -⟩ := Option.filter_eq_some_iff.1 (Option.mem_toList.1 hcs)
    exact oneLine_of_mem_segments (List.mem_of_getLast? hlast)

/-- The lines of a diff hold no line feed. -/
theorem oneLine_of_mem_diffLines (h : l ∈ diffLines s) : OneLine l := by
  have hseg : l ∈ (Text.segments (· == '\n') s.toList).map String.ofList := by
    rw [diffLines] at h
    split at h
    · exact (List.dropLast_sublist _).subset h
    · exact h
  obtain ⟨seg, hmem, rfl⟩ := List.mem_map.1 hseg
  rw [OneLine, String.toList_ofList]
  exact oneLine_of_mem_segments hmem

/-! ### What is read -/

theorem oneLine_of_cons {c : Char} {cs : List Char} (h : OneLine l) (hl : l.toList = c :: cs) :
    OneLine (String.ofList cs) := by
  rw [OneLine, String.toList_ofList]
  intro hfeed
  exact h (hl ▸ List.mem_cons_of_mem c hfeed)

theorem oneLine_of_afterStart? {start : String} (h : OneLine l)
    (hl : Text.afterStart? start l = some s) : OneLine s := by
  obtain ⟨cs, hcs, rfl⟩ := Option.map_eq_some_iff.1 hl
  rw [OneLine, String.toList_ofList]
  intro hfeed
  exact h (Text.eq_append_of_stripPrefix? hcs ▸ List.mem_append_right _ hfeed)

namespace Hunk.Readable

variable {ls : List HunkLine}

theorem kept (h : (Hunk.mk ⟨a, old⟩ ⟨b, new⟩ ls).Readable) (hs : OneLine s) :
    (Hunk.mk ⟨a, old + 1⟩ ⟨b, new + 1⟩ (.kept s :: ls)).Readable where
  old_count := congrArg (· + 1) h.old_count
  new_count := congrArg (· + 1) h.new_count
  old_oneLine := List.forall_mem_cons.2 ⟨hs, h.old_oneLine⟩
  new_oneLine := List.forall_mem_cons.2 ⟨hs, h.new_oneLine⟩

theorem removed (h : (Hunk.mk ⟨a, old⟩ ⟨b, new⟩ ls).Readable) (hs : OneLine s) :
    (Hunk.mk ⟨a, old + 1⟩ ⟨b, new⟩ (.removed s :: ls)).Readable where
  old_count := congrArg (· + 1) h.old_count
  new_count := h.new_count
  old_oneLine := List.forall_mem_cons.2 ⟨hs, h.old_oneLine⟩
  new_oneLine := h.new_oneLine

theorem added (h : (Hunk.mk ⟨a, old⟩ ⟨b, new⟩ ls).Readable) (hs : OneLine s) :
    (Hunk.mk ⟨a, old⟩ ⟨b, new + 1⟩ (.added s :: ls)).Readable where
  old_count := h.old_count
  new_count := congrArg (· + 1) h.new_count
  old_oneLine := h.old_oneLine
  new_oneLine := List.forall_mem_cons.2 ⟨hs, h.new_oneLine⟩

end Hunk.Readable

/-- The body of a hunk is read to its counts. -/
theorem readable_of_readBody? {ls rest : List String} {body : List HunkLine}
    (h : readBody? old new ls = some (body, rest)) (hls : ∀ l ∈ ls, OneLine l) :
    (Hunk.mk ⟨a, old⟩ ⟨b, new⟩ body).Readable ∧ ∀ l ∈ rest, OneLine l := by
  fun_induction readBody? old new ls generalizing body rest with
  | case1 =>
      cases h
      exact ⟨⟨rfl, rfl, by simp [Hunk.oldLines], by simp [Hunk.newLines]⟩, hls⟩
  | case2 => cases h
  | case3 line ls cs old new hline _ ih =>
      obtain ⟨hl, hls⟩ := List.forall_mem_cons.1 hls
      obtain ⟨_, hbody, heq⟩ := Option.map_eq_some_iff.1 h
      cases heq
      obtain ⟨hr, hrest⟩ := ih hbody hls
      exact ⟨hr.kept (oneLine_of_cons hl hline), hrest⟩
  | case4 line ls cs old new hline _ ih =>
      obtain ⟨hl, hls⟩ := List.forall_mem_cons.1 hls
      obtain ⟨_, hbody, heq⟩ := Option.map_eq_some_iff.1 h
      cases heq
      obtain ⟨hr, hrest⟩ := ih hbody hls
      exact ⟨hr.removed (oneLine_of_cons hl hline), hrest⟩
  | case5 line ls cs old new hline _ ih =>
      obtain ⟨hl, hls⟩ := List.forall_mem_cons.1 hls
      obtain ⟨_, hbody, heq⟩ := Option.map_eq_some_iff.1 h
      cases heq
      obtain ⟨hr, hrest⟩ := ih hbody hls
      exact ⟨hr.added (oneLine_of_cons hl hline), hrest⟩
  | case6 => cases h

/-- The hunk at the start of some lines is readable. -/
theorem readable_of_readHunk? {ls rest : List String} {h : Hunk} (hread : readHunk? ls = some (h, rest))
    (hls : ∀ l ∈ ls, OneLine l) : h.Readable ∧ ∀ l ∈ rest, OneLine l := by
  cases ls with
  | nil => cases hread
  | cons l ls =>
      obtain ⟨⟨old, new⟩, -, hread⟩ := Option.bind_eq_some_iff.1 hread
      obtain ⟨⟨body, rest'⟩, hbody, heq⟩ := Option.bind_eq_some_iff.1 hread
      cases heq
      exact readable_of_readBody? hbody (List.forall_mem_cons.1 hls).2

/-- The hunks at the start of some lines are readable. -/
theorem readable_of_readHunks (budget : Nat) {ls : List String} (hls : ∀ l ∈ ls, OneLine l) :
    (∀ h ∈ (readHunks budget ls).1, h.Readable) ∧ ∀ l ∈ (readHunks budget ls).2, OneLine l := by
  induction budget generalizing ls with
  | zero => exact ⟨by simp [readHunks], hls⟩
  | succ budget ih =>
      cases hread : readHunk? ls with
      | none =>
          simp only [readHunks, hread]
          exact ⟨by simp, hls⟩
      | some read =>
          obtain ⟨hr, hrest⟩ := readable_of_readHunk? hread hls
          obtain ⟨hrs, hrest⟩ := ih hrest
          simp only [readHunks, hread]
          exact ⟨List.forall_mem_cons.2 ⟨hr, hrs⟩, hrest⟩

/-- The files that some lines are made of are readable. -/
theorem readable_of_readFiles? {budget : Nat} {ls : List String} {ps : PatchSet}
    (hread : readFiles? budget ls = some ps) (hls : ∀ l ∈ ls, OneLine l) : ∀ p ∈ ps, p.Readable := by
  induction budget generalizing ls ps with
  | zero =>
      cases ls with
      | nil =>
          cases hread
          simp
      | cons l ls => cases hread
  | succ budget ih =>
      match ls, hread with
      | [], hread =>
          cases hread
          simp
      | [_], hread => cases hread
      | l :: l' :: ls, hread =>
          obtain ⟨old, -, hread⟩ := Option.bind_eq_some_iff.1 hread
          obtain ⟨new, hnew, hread⟩ := Option.bind_eq_some_iff.1 hread
          obtain ⟨more, hmore, hread⟩ := Option.bind_eq_some_iff.1 hread
          split at hread
          · cases hread
            obtain ⟨-, hls⟩ := List.forall_mem_cons.1 hls
            obtain ⟨hl, hls⟩ := List.forall_mem_cons.1 hls
            obtain ⟨hhunks, hrest⟩ := readable_of_readHunks ls.length hls
            exact List.forall_mem_cons.2 ⟨⟨oneLine_of_afterStart? hl hnew, hhunks⟩, ih hmore hrest⟩
          · cases hread

/-- **What is read can be read back.** -/
theorem readable_of_read? {ps : PatchSet} (h : read? s = some ps) : ∀ p ∈ ps, p.Readable :=
  readable_of_readFiles? h fun _ hl => oneLine_of_mem_diffLines hl

/-! ### What is read back -/

theorem Hunk.readable_plain_iff {h : Hunk} : h.plain.Readable ↔ h.Readable := by
  constructor
  · rintro ⟨hold, hnew, hold', hnew'⟩
    rw [oldLines_plain] at hold hold'
    rw [newLines_plain] at hnew hnew'
    exact ⟨hold, hnew, hold', hnew'⟩
  · rintro ⟨hold, hnew, hold', hnew'⟩
    rw [← oldLines_plain] at hold hold'
    rw [← newLines_plain] at hnew hnew'
    exact ⟨hold, hnew, hold', hnew'⟩

/-- **A diff is read back if and only if its hunks are readable**: every header counts its lines, and
all lines and paths are one line each. -/
theorem read?_render_iff (ps : PatchSet) :
    read? (render .plain ps) = some (ps.map FilePatch.plain) ↔ ∀ p ∈ ps, p.Readable := by
  constructor
  · intro hread p hp
    obtain ⟨hpath, hhunks⟩ := readable_of_read? hread p.plain (List.mem_map_of_mem hp)
    exact ⟨hpath, fun h hh => Hunk.readable_plain_iff.1 (hhunks h.plain (List.mem_map_of_mem hh))⟩
  · exact read?_render

/-! ### Hunks of two texts -/

/-- The header of a hunk counts its lines. -/
structure Hunk.Counted (h : Hunk) : Prop where
  old_count : h.oldLines.length = h.old.count
  new_count : h.newLines.length = h.new.count

instance (h : Hunk) : Decidable h.Counted :=
  decidable_of_iff (h.oldLines.length = h.old.count ∧ h.newLines.length = h.new.count)
    ⟨fun ⟨hold, hnew⟩ => ⟨hold, hnew⟩, fun hcounted => ⟨hcounted.old_count, hcounted.new_count⟩⟩

variable {olds news : List String} {context : Nat} {h : Hunk}

/-- The headers of the hunks of a script count right. -/
theorem counted_of_mem_hunks (hscript : IsScript olds news (script olds news))
    (hh : h ∈ hunks olds news context) : h.Counted := by
  have hfits := (spans_hunksOf context hscript).fits h hh
  exact ⟨hfits.length_oldLines, hfits.length_newLines⟩

/-- A hunk shows lines of both texts. -/
theorem mem_of_mem_hunks (hh : h ∈ hunks olds news context) :
    (∀ s ∈ h.oldLines, s ∈ olds) ∧ ∀ s ∈ h.newLines, s ∈ news := by
  obtain ⟨h', hfits, hlines⟩ := exists_fits_of_mem_hunks hh
  have hold : h.oldLines = h'.oldLines := by rw [Hunk.oldLines, Hunk.oldLines, hlines]
  have hnew : h.newLines = h'.newLines := by rw [Hunk.newLines, Hunk.newLines, hlines]
  rw [hold, hnew, hfits.oldLines_eq, hfits.newLines_eq]
  exact ⟨fun s hs => List.mem_of_mem_drop (List.mem_of_mem_take hs),
    fun s hs => List.mem_of_mem_drop (List.mem_of_mem_take hs)⟩

/-- Where the old text is made of lines, the hunks show a line feed if the new text holds one. -/
theorem oneLine_newLines_iff (context : Nat) (holds : ∀ s ∈ olds, OneLine s) :
    (∀ h ∈ hunks olds news context, ∀ s ∈ h.newLines, OneLine s) ↔ ∀ s ∈ news, OneLine s := by
  constructor
  · intro hshown s hs
    by_contra hfeed
    -- A line that is not in the old text is added as often as it is in the new one.
    have hcount := count_hunks olds news context s
    have hold : olds.count s = 0 := List.count_eq_zero.2 fun h => hfeed (holds s h)
    have hremoved : ((hunks olds news context).flatMap Hunk.oldLines).count s = 0 := by
      refine List.count_eq_zero.2 fun h => ?_
      obtain ⟨hunk, hhunk, hs⟩ := List.mem_flatMap.1 h
      exact hfeed (holds s ((mem_of_mem_hunks hhunk).1 s hs))
    have hadded : 0 < ((hunks olds news context).flatMap Hunk.newLines).count s := by
      have := List.count_pos_iff.2 hs
      omega
    obtain ⟨hunk, hhunk, hs⟩ := List.mem_flatMap.1 (List.count_pos_iff.1 hadded)
    exact hfeed (hshown hunk hhunk s hs)
  · intro hnews hunk hhunk s hs
    exact hnews s ((mem_of_mem_hunks hhunk).2 s hs)

end Diff

end Upkeep
