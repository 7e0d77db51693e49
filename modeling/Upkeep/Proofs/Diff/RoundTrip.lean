/-
**Applying what was read back.**

A reader of a unified diff who trusts the counts in the headers, and applies every hunk at the place
that its header states, gets from the old lines to the new ones.  This holds for every edit script,
however it was found, for any context, and for several files in one diff.

Main definitions:

* `Upkeep.Diff.Change` — a changed file with its edit script;
* `Upkeep.Diff.FilePatch.Carries` — a patch that carries a change.

Main results:

* `Upkeep.Diff.applyFrom?_of_spans` — hunks that account for all differences apply;
* `Upkeep.Diff.read_render_carries` — **what is read back from a rendered diff carries the
  changes**.
-/

import Upkeep.Proofs.Diff.Hunk
import Upkeep.Proofs.Diff.Reading

set_option relaxedAutoImplicit false
set_option autoImplicit false

namespace Upkeep

namespace Diff

variable {old new : List String}

/-! ### Applying hunks -/

/-- Hunks that account for all differences from a pair of places on turn what is left of the old
lines into what is left of the new lines. -/
theorem applyFrom?_of_spans {i j : Nat} {hs : List Hunk} (h : Spans old new i j hs) :
    applyFrom? i (old.drop i) hs = some (new.drop j) := by
  induction hs generalizing i j with
  | nil =>
      rw [applyFrom?]
      exact congrArg some h
  | cons k hs ih =>
      obtain ⟨⟨hi, hj, hgap⟩, hf, h⟩ := h
      have hplace : i + (k.old.offset - i) = k.old.offset := by omega
      have hplace' : j + (k.new.offset - j) = k.new.offset := by omega
      have hle := hf.old_le
      have hhere : (old.drop i).drop (k.old.offset - i) = old.drop k.old.offset := by
        rw [List.drop_drop, hplace]
      have hpre : k.oldLines.isPrefixOf (old.drop k.old.offset) = true := by
        rw [List.isPrefixOf_iff_prefix, hf.oldLines_eq]
        exact List.take_prefix ..
      have hgaplen : k.old.offset - i ≤ (old.drop i).length := by
        rw [List.length_drop]
        omega
      -- The gap in front of a hunk is the same on both sides.
      have hafter : slice old i (k.old.offset - i) ++ k.newLines ++
          new.drop (k.new.offset + k.new.count) = new.drop j := by
        have hdrop := slice_append_drop new j (k.new.offset - j)
        rw [hplace'] at hdrop
        rw [hgap, hf.newLines_eq, List.append_assoc, slice_append_drop]
        exact hdrop
      simp only [applyFrom?, hhere, hpre, hf.length_oldLines, List.drop_drop, ih h, hi, hgaplen,
        decide_true, Bool.and_self, if_true, Option.map_some]
      exact congrArg some hafter

/-- Hunks that account for all differences apply. -/
theorem applyHunks?_of_spans {hs : List Hunk} (h : Spans old new 0 0 hs) :
    applyHunks? hs old = some new := by
  simpa [applyHunks?] using applyFrom?_of_spans h

/-! ### Without marked lines -/

theorem Hunk.Fits.plain {h : Hunk} (hf : h.Fits old new) : h.plain.Fits old new :=
  ⟨hf.old_le, hf.new_le, by simpa using hf.oldLines_eq, by simpa using hf.newLines_eq⟩

theorem Spans.plain {i j : Nat} {hs : List Hunk} (h : Spans old new i j hs) :
    Spans old new i j (hs.map Hunk.plain) := by
  induction hs generalizing i j with
  | nil => exact h
  | cons k hs ih =>
      obtain ⟨hplace, hf, h⟩ := h
      exact ⟨hplace, hf.plain, ih h⟩

theorem mem_of_mem_slice {xs : List String} {i n : Nat} {s : String} (h : s ∈ slice xs i n) :
    s ∈ xs := List.mem_of_mem_drop (List.mem_of_mem_take h)

/-- A hunk that fits lists of lines can be read back. -/
theorem Hunk.Fits.readable {h : Hunk} (hf : h.Fits old new) (hold : ∀ s ∈ old, OneLine s)
    (hnew : ∀ s ∈ new, OneLine s) : h.Readable := by
  refine ⟨hf.length_oldLines, hf.length_newLines, ?_, ?_⟩
  · intro s hs
    rw [hf.oldLines_eq] at hs
    exact hold s (mem_of_mem_slice hs)
  · intro s hs
    rw [hf.newLines_eq] at hs
    exact hnew s (mem_of_mem_slice hs)

/-! ### Changes of files -/

/-- A changed file: its lines before and after, and the edits between them, however they were
found. -/
structure Change where
  path : Path
  old : List String
  new : List String
  edits : List Edit
deriving DecidableEq, Repr

/-- The patch of a changed file. -/
def Change.patch (context : Nat) (c : Change) : FilePatch :=
  ⟨c.path, hunksOf c.old c.new context c.edits⟩

/-- A change that a diff can show: its path and all its lines are lines, and its edits are a
script. -/
structure Change.Proper (c : Change) : Prop where
  path_oneLine : OneLine c.path.text
  old_oneLine : ∀ s ∈ c.old, OneLine s
  new_oneLine : ∀ s ∈ c.new, OneLine s
  script : IsScript c.old c.new c.edits

instance (c : Change) : Decidable c.Proper :=
  decidable_of_iff (OneLine c.path.text ∧ (∀ s ∈ c.old, OneLine s) ∧ (∀ s ∈ c.new, OneLine s) ∧
      IsScript c.old c.new c.edits)
    ⟨fun ⟨hpath, hold, hnew, hscript⟩ => ⟨hpath, hold, hnew, hscript⟩,
      fun ⟨hpath, hold, hnew, hscript⟩ => ⟨hpath, hold, hnew, hscript⟩⟩

/-- The change of a file with the edits that the comparison of its lines finds. -/
def Change.between (path : Path) (old new : List String) : Change :=
  ⟨path, old, new, Diff.script old new⟩

theorem Change.patch_between (context : Nat) (path : Path) (old new : List String) :
    (Change.between path old new).patch context = ⟨path, hunks old new context⟩ := rfl

/-- A patch that carries a change: its hunks stand in order without overlapping, show the lines of
both sides at their places, as many as their headers count, and turn the old lines into the new
ones. -/
structure FilePatch.Carries (p : FilePatch) (c : Change) : Prop where
  path : p.path = c.path
  ordered : p.hunks.Pairwise Hunk.Before
  fits : ∀ h ∈ p.hunks, h.Fits c.old c.new
  counts : ∀ h ∈ p.hunks, h.oldLines.length = h.old.count ∧ h.newLines.length = h.new.count
  applies : applyHunks? p.hunks c.old = some c.new

theorem Change.Proper.spans {c : Change} (h : c.Proper) (context : Nat) :
    Spans c.old c.new 0 0 (c.patch context).hunks := spans_hunksOf context h.script

theorem Change.Proper.readable {c : Change} (h : c.Proper) (context : Nat) :
    (c.patch context).Readable :=
  ⟨h.path_oneLine, fun k hk =>
    ((h.spans context).fits k hk).readable h.old_oneLine h.new_oneLine⟩

theorem Change.Proper.carries {c : Change} (h : c.Proper) (context : Nat) :
    (c.patch context).plain.Carries c := by
  have hs := (h.spans context).plain
  exact ⟨rfl, hs.pairwise, hs.fits,
    fun k hk => ⟨(hs.fits k hk).length_oldLines, (hs.fits k hk).length_newLines⟩,
    applyHunks?_of_spans hs⟩

/-- **What is read back from a rendered diff carries the changes**: the hunks that the counts of the
headers tell are those that were written, marked lines taken apart, and applied at the places that
the headers state they turn the old lines of every file into its new lines. -/
theorem read_render_carries (context : Nat) (cs : List Change) (h : ∀ c ∈ cs, c.Proper) :
    read? (render .plain (cs.map (Change.patch context))) =
        some (cs.map fun c => (c.patch context).plain) ∧
      ∀ c ∈ cs, (c.patch context).plain.Carries c := by
  refine ⟨?_, fun c hc => (h c hc).carries context⟩
  have hr : ∀ p ∈ cs.map (Change.patch context), p.Readable := by
    intro p hp
    obtain ⟨c, hc, rfl⟩ := List.mem_map.1 hp
    exact (h c hc).readable context
  rw [read?_render hr, List.map_map]
  rfl

/-- Lines that look like a diff and get a prefix, and a file that is new. -/
def lookalikes : List Change :=
  [.between ⟨"a.c"⟩ ["-- x", "@@ -1 +1 @@", "c"] ["XXX -- x", "XXX @@ -1 +1 @@", "c"],
    .between ⟨"b.c"⟩ [] ["+++ y"]]

theorem read_render_carries_lookalikes :
    (∀ c ∈ lookalikes, c.Proper) ∧
      read? (render .plain (lookalikes.map (Change.patch 3))) =
        some (lookalikes.map fun c => (c.patch 3).plain) ∧
      ∀ c ∈ lookalikes, (c.patch 3).plain.Carries c :=
  have h : ∀ c ∈ lookalikes, c.Proper := by decide +kernel
  ⟨h, read_render_carries 3 lookalikes h⟩

-- The edits of a comparison need not be a script: sliding them leaves their places behind.
example : ¬ IsScript ["b", "a"] ["a", "a"] (script ["b", "a"] ["a", "a"]) := by decide +kernel

end Diff

end Upkeep
