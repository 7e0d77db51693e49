/-
**Reading a unified diff back.**

A diff in the plain style is read back hunk by hunk.  The reader takes as many lines behind a header
as its counts say, so nothing depends on what these lines look like.  What it gives are the hunks that
were written, with every marked line as the removed and the added line that it stands for.

Main definitions:

* `Upkeep.Diff.OneLine` — texts that a line can hold;
* `Upkeep.Diff.Hunk.plain`, `Upkeep.Diff.FilePatch.plain` — without marked lines;
* `Upkeep.Diff.Hunk.Readable`, `Upkeep.Diff.FilePatch.Readable` — what can be read back.

Main results:

* `Upkeep.Diff.readHeader?_header` — a header tells its two stretches;
* `Upkeep.Diff.readBody?_rendered` — as many lines are taken as are counted;
* `Upkeep.Diff.read?_render` — **a diff is read back**.
-/

import Upkeep.Diff.Reader

set_option relaxedAutoImplicit false
set_option autoImplicit false

namespace Upkeep

namespace Diff

/-! ### Headers -/

theorem Range.toList_render (r : Range) :
    r.render.toList =
      if r.count = 1 then Nat.toDigits 10 r.start
      else Nat.toDigits 10 r.start ++ ',' :: Nat.toDigits 10 r.count := by
  unfold Range.render
  split <;> simp

/-- A stretch is written with digits and a comma. -/
theorem Range.not_mem_render {c : Char} (hd : c.isDigit = false) (hc : c ≠ ',') (r : Range) :
    c ∉ r.render.toList := by
  have hn : ∀ n, c ∉ Nat.toDigits 10 n := by
    intro n h
    have := Nat.isDigit_of_mem_toDigits (by decide) (by decide) h
    simp [hd] at this
  rw [Range.toList_render]
  split
  · exact hn _
  · simp [hn, hc]

/-- A stretch is read back from its text. -/
theorem Range.read?_render (r : Range) : Range.read? r.render.toList = some r := by
  have hcomma : ∀ n, ',' ∉ Nat.toDigits 10 n := by
    intro n h
    have := Nat.isDigit_of_mem_toDigits (by decide) (by decide) h
    simp at this
  rw [Range.toList_render]
  split
  · rename_i h
    rw [Range.read?, Text.splitOnce?_of_not_mem _ _ (hcomma _)]
    simp [← h]
  · have hs := Text.splitOnce?_append [] _ (Nat.toDigits 10 r.count) (hcomma r.start)
    simp only [List.append_assoc, List.singleton_append] at hs
    rw [Range.read?, hs]
    simp

/-- **A header tells its two stretches.** -/
theorem readHeader?_header (h : Hunk) : readHeader? h.header = some (h.old, h.new) := by
  have hplus : " +".toList = [' ', '+'] := rfl
  have hlist : h.header.toList = "@@ -".toList ++ (h.old.render.toList ++ [' ', '+'] ++
      (h.new.render.toList ++ " @@".toList)) := by
    simp [Hunk.header]
  have hold : ' ' ∉ h.old.render.toList := Range.not_mem_render rfl (by decide) h.old
  rw [readHeader?, hlist, Text.stripPrefix?_append, hplus]
  simp only [Option.bind_eq_bind, Option.bind_some]
  rw [Text.splitOnce?_append _ _ _ hold]
  simp only [Option.bind_some]
  rw [Text.stripSuffix?_append]
  simp [Range.read?_render]

/-- The first line of a file is no header of a hunk. -/
theorem readHeader?_file (path : String) : readHeader? ("--- " ++ path) = none := by
  have hlist : ("--- " ++ path).toList = '-' :: '-' :: '-' :: ' ' :: path.toList := by simp
  have hstart : "@@ -".toList = ['@', '@', ' ', '-'] := rfl
  rw [readHeader?, hlist, hstart]
  simp [Text.stripPrefix?]

/-! ### Lines of a hunk -/

/-- A line of a hunk without marks: a marked line is a removed and an added line. -/
def HunkLine.plain : HunkLine → List HunkLine
  | marked old new => [removed old, added new]
  | l => [l]

/-- The hunk without marked lines. -/
def Hunk.plain (h : Hunk) : Hunk := { h with lines := h.lines.flatMap HunkLine.plain }

@[simp] theorem Hunk.plain_old (h : Hunk) : h.plain.old = h.old := rfl

@[simp] theorem Hunk.plain_new (h : Hunk) : h.plain.new = h.new := rfl

theorem HunkLine.before_plain (l : HunkLine) : l.plain.flatMap before = l.before := by
  cases l <;> rfl

theorem HunkLine.after_plain (l : HunkLine) : l.plain.flatMap after = l.after := by
  cases l <;> rfl

@[simp] theorem Hunk.oldLines_plain (h : Hunk) : h.plain.oldLines = h.oldLines := by
  simp [Hunk.oldLines, Hunk.plain, List.flatMap_assoc, HunkLine.before_plain]

@[simp] theorem Hunk.newLines_plain (h : Hunk) : h.plain.newLines = h.newLines := by
  simp [Hunk.newLines, Hunk.plain, List.flatMap_assoc, HunkLine.after_plain]

theorem readBody?_kept (old new : Nat) (s : String) (rest : List String) :
    readBody? (old + 1) (new + 1) ((" " ++ s) :: rest) =
      (readBody? old new rest).map fun b => (.kept s :: b.1, b.2) := by
  simp [readBody?]

theorem readBody?_removed (old new : Nat) (s : String) (rest : List String) :
    readBody? (old + 1) new (("-" ++ s) :: rest) =
      (readBody? old new rest).map fun b => (.removed s :: b.1, b.2) := by
  simp [readBody?]

theorem readBody?_added (old new : Nat) (s : String) (rest : List String) :
    readBody? old (new + 1) (("+" ++ s) :: rest) =
      (readBody? old new rest).map fun b => (.added s :: b.1, b.2) := by
  simp [readBody?]

/-- One line of a hunk is read for every old and new line that it stands for, whatever its text
is. -/
theorem readBody?_rendered (ls : List HunkLine) (rest : List String) :
    readBody? (ls.flatMap HunkLine.before).length (ls.flatMap HunkLine.after).length
      (ls.flatMap (HunkLine.rendered .plain) ++ rest) = some (ls.flatMap HunkLine.plain, rest) := by
  induction ls with
  | nil => exact readBody?_zero rest
  | cons l ls ih =>
      cases l with
      | kept s =>
          simp only [List.flatMap_cons, HunkLine.before, HunkLine.after, HunkLine.rendered,
            HunkLine.plain, List.cons_append, List.nil_append, List.length_cons, readBody?_kept, ih,
            Option.map_some]
      | removed s =>
          simp only [List.flatMap_cons, HunkLine.before, HunkLine.after, HunkLine.rendered,
            HunkLine.plain, Style.paint, List.cons_append, List.nil_append, List.length_cons,
            readBody?_removed, ih, Option.map_some]
      | added s =>
          simp only [List.flatMap_cons, HunkLine.before, HunkLine.after, HunkLine.rendered,
            HunkLine.plain, Style.paint, List.cons_append, List.nil_append, List.length_cons,
            readBody?_added, ih, Option.map_some]
      | marked o n =>
          simp only [List.flatMap_cons, HunkLine.before, HunkLine.after, HunkLine.rendered,
            HunkLine.plain, List.cons_append, List.nil_append, List.length_cons, readBody?_removed,
            readBody?_added, ih, Option.map_some]

/-! ### Hunks and files -/

/-- A text that a line can hold. -/
def OneLine (s : String) : Prop := '\n' ∉ s.toList

instance (s : String) : Decidable (OneLine s) := inferInstanceAs (Decidable (_ ∉ _))

/-- A hunk that can be read back: its header counts its lines, and each of these is one line. -/
structure Hunk.Readable (h : Hunk) : Prop where
  old_count : h.oldLines.length = h.old.count
  new_count : h.newLines.length = h.new.count
  old_oneLine : ∀ s ∈ h.oldLines, OneLine s
  new_oneLine : ∀ s ∈ h.newLines, OneLine s

/-- The patch of a file without marked lines. -/
def FilePatch.plain (p : FilePatch) : FilePatch := { p with hunks := p.hunks.map Hunk.plain }

/-- A patch of a file that can be read back. -/
structure FilePatch.Readable (p : FilePatch) : Prop where
  path_oneLine : OneLine p.path.text
  hunks : ∀ h ∈ p.hunks, h.Readable

/-- A hunk is read back, and nothing behind it. -/
theorem readHunk?_rendered {h : Hunk} (hr : h.Readable) (rest : List String) :
    readHunk? (h.rendered .plain ++ rest) = some (h.plain, rest) := by
  have hbody := readBody?_rendered h.lines rest
  rw [← Hunk.oldLines, ← Hunk.newLines, hr.old_count, hr.new_count] at hbody
  simp only [Hunk.rendered, Style.paint, List.cons_append, readHunk?, readHeader?_header,
    Option.bind_eq_bind, Option.bind_some, hbody]
  rfl

/-- The hunks in front of lines that begin no hunk are read back. -/
theorem readHunks_rendered {hs : List Hunk} {rest : List String} {budget : Nat}
    (hr : ∀ h ∈ hs, h.Readable) (hrest : readHunk? rest = none) (hb : hs.length ≤ budget) :
    readHunks budget (hs.flatMap (Hunk.rendered .plain) ++ rest) = (hs.map Hunk.plain, rest) := by
  induction hs generalizing budget with
  | nil =>
      cases budget with
      | zero => rfl
      | succ budget => simp [readHunks, hrest]
  | cons h hs ih =>
      obtain ⟨hh, hr⟩ := List.forall_mem_cons.1 hr
      obtain ⟨budget, rfl⟩ : ∃ b, budget = b + 1 := ⟨budget - 1, by simp at hb; omega⟩
      have hb' : hs.length ≤ budget := by simpa using hb
      have hi := ih hr hb'
      simp only [List.flatMap_cons, List.append_assoc, readHunks, readHunk?_rendered hh, hi,
        List.map_cons]

/-- Every hunk takes a line at least. -/
theorem length_le_rendered (hs : List Hunk) :
    hs.length ≤ (hs.flatMap (Hunk.rendered .plain)).length := by
  induction hs with
  | nil => simp
  | cons h hs ih =>
      simp only [List.flatMap_cons, List.length_append, List.length_cons, Hunk.rendered] at ih ⊢
      omega

theorem readHunk?_files (ps : PatchSet) :
    readHunk? (ps.flatMap (FilePatch.rendered .plain)) = none := by
  cases ps with
  | nil => rfl
  | cons p ps =>
      simp [FilePatch.rendered, Style.paint, readHunk?, readHeader?_file]

/-- The files of a diff are read back. -/
theorem readFiles?_rendered {ps : PatchSet} {budget : Nat} (hr : ∀ p ∈ ps, p.Readable)
    (hb : ps.length ≤ budget) :
    readFiles? budget (ps.flatMap (FilePatch.rendered .plain)) = some (ps.map FilePatch.plain) := by
  induction ps generalizing budget with
  | nil => simp [readFiles?]
  | cons p ps ih =>
      obtain ⟨hp, hr⟩ := List.forall_mem_cons.1 hr
      obtain ⟨budget, rfl⟩ : ∃ b, budget = b + 1 := ⟨budget - 1, by simp at hb; omega⟩
      have hb' : ps.length ≤ budget := by simpa using hb
      have hi := ih hr hb'
      have hlen : p.hunks.length ≤ (p.hunks.flatMap (Hunk.rendered .plain) ++
          ps.flatMap (FilePatch.rendered .plain)).length := by
        have := length_le_rendered p.hunks
        rw [List.length_append]
        omega
      have hh := readHunks_rendered hp.hunks (readHunk?_files ps) hlen
      simp only [List.flatMap_cons, FilePatch.rendered, Style.paint, List.cons_append, readFiles?,
        Text.afterStart?_append, Option.bind_eq_bind, Option.bind_some, hh, hi, beq_self_eq_true,
        if_true, List.map_cons]
      rfl

/-! ### The lines of a diff -/

/-- The lines of a text that was made of lines. -/
theorem diffLines_unlines {ls : List String} (h : ∀ l ∈ ls, OneLine l) :
    diffLines (Text.unlines ls) = ls := by
  have hsegs : Text.segments (· == '\n') (Text.unlines ls).toList = ls.map String.toList ++ [[]] := by
    rw [Text.toList_unlines]
    induction ls with
    | nil => rfl
    | cons l ls ih =>
        obtain ⟨hl, h⟩ := List.forall_mem_cons.1 h
        have hsep : ∀ c ∈ l.toList, (c == '\n') = false := by
          intro c hc
          simpa using fun heq : c = '\n' => hl (heq ▸ hc)
        rw [List.flatMap_cons, List.append_assoc, List.singleton_append,
          Text.segments_append_sep hsep (by simp), ih h]
        rfl
  simp [diffLines, hsegs, Function.comp_def]

theorem oneLine_append_iff {s t : String} : OneLine (s ++ t) ↔ OneLine s ∧ OneLine t := by
  rw [OneLine, String.toList_append, List.mem_append, not_or]
  rfl

theorem Range.oneLine_render (r : Range) : OneLine r.render :=
  Range.not_mem_render rfl (by decide) r

theorem Hunk.oneLine_header (h : Hunk) : OneLine h.header := by
  have hold := h.old.oneLine_render
  have hnew := h.new.oneLine_render
  simp_all [OneLine, Hunk.header]

/-- The lines that show a line of a hunk hold no line feed unless it does. -/
theorem HunkLine.oneLine_rendered {l : HunkLine} (hb : ∀ s ∈ l.before, OneLine s)
    (ha : ∀ s ∈ l.after, OneLine s) : ∀ s ∈ l.rendered .plain, OneLine s := by
  have hsign : OneLine " " ∧ OneLine "-" ∧ OneLine "+" := by decide
  cases l with
  | kept s =>
      intro t ht
      obtain rfl : t = " " ++ s := by simpa [rendered] using ht
      exact oneLine_append_iff.2 ⟨hsign.1, hb s (by simp [before])⟩
  | removed s =>
      intro t ht
      obtain rfl : t = "-" ++ s := by simpa [rendered, Style.paint] using ht
      exact oneLine_append_iff.2 ⟨hsign.2.1, hb s (by simp [before])⟩
  | added s =>
      intro t ht
      obtain rfl : t = "+" ++ s := by simpa [rendered, Style.paint] using ht
      exact oneLine_append_iff.2 ⟨hsign.2.2, ha s (by simp [after])⟩
  | marked o n =>
      intro t ht
      rcases (by simpa [rendered] using ht : t = "-" ++ o ∨ t = "+" ++ n) with rfl | rfl
      · exact oneLine_append_iff.2 ⟨hsign.2.1, hb o (by simp [before])⟩
      · exact oneLine_append_iff.2 ⟨hsign.2.2, ha n (by simp [after])⟩

theorem Hunk.Readable.oneLine {h : Hunk} (hr : h.Readable) :
    ∀ s ∈ h.rendered .plain, OneLine s := by
  intro s hs
  rcases List.mem_cons.1 hs with rfl | hs
  · exact h.oneLine_header
  · obtain ⟨l, hl, hs⟩ := List.mem_flatMap.1 hs
    exact HunkLine.oneLine_rendered
      (fun t ht => hr.old_oneLine t (List.mem_flatMap.2 ⟨l, hl, ht⟩))
      (fun t ht => hr.new_oneLine t (List.mem_flatMap.2 ⟨l, hl, ht⟩)) s hs

/-- The lines of a patch that can be read back hold no line feed. -/
theorem FilePatch.Readable.oneLine {p : FilePatch} (hp : p.Readable) :
    ∀ s ∈ p.rendered .plain, OneLine s := by
  have hstart : OneLine "--- " ∧ OneLine "+++ " := by decide
  intro s hs
  rcases List.mem_cons.1 hs with rfl | hs
  · exact oneLine_append_iff.2 ⟨hstart.1, hp.path_oneLine⟩
  · rcases List.mem_cons.1 hs with rfl | hs
    · exact oneLine_append_iff.2 ⟨hstart.2, hp.path_oneLine⟩
    · obtain ⟨h, hh, hs⟩ := List.mem_flatMap.1 hs
      exact (hp.hunks h hh).oneLine s hs

/-- **A diff is read back**, with every marked line as the two lines that it stands for. -/
theorem read?_render {ps : PatchSet} (h : ∀ p ∈ ps, p.Readable) :
    read? (render .plain ps) = some (ps.map FilePatch.plain) := by
  have hone : ∀ l ∈ ps.flatMap (FilePatch.rendered .plain), OneLine l := by
    intro l hl
    obtain ⟨p, hp, hl⟩ := List.mem_flatMap.1 hl
    exact (h p hp).oneLine l hl
  have hlen : ps.length ≤ (ps.flatMap (FilePatch.rendered .plain)).length := by
    clear h hone
    induction ps with
    | nil => simp
    | cons p ps ih =>
        simp only [List.flatMap_cons, List.length_append, List.length_cons, FilePatch.rendered]
        omega
  rw [read?, render, diffLines_unlines hone]
  exact readFiles?_rendered h hlen

end Diff

end Upkeep
