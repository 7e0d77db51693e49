/-
**How many lines a removal drops.**

The lines that a removal targets are those with a mention of the cvar, each once.  Of the lines of a
file with one text as many are dropped as targets have this text, or all of them; blank lines may go
along.  If the file is as it was first read, and all lines with the text of a target are targets, then
of the lines that are not blank just the targets are dropped.

Main definitions:

* `Upkeep.Cvar.Record.targets` — the lines of a file with a mention.

Main results:

* `Upkeep.Cvar.count_textsOf_linesOf` — every target is named once;
* `Upkeep.Cvar.removal_drops` — **how many lines a removal drops**.
-/

import Mathlib.Data.List.Dedup
import Upkeep.Proofs.Cvar.Removal
import Upkeep.Proofs.Data.Ordered
import Upkeep.Proofs.Patch.Dropped
import Upkeep.Proofs.Path.Order

set_option relaxedAutoImplicit false
set_option autoImplicit false

namespace Upkeep

namespace Cvar

open Files

variable {p p' : Patch} {w w' : Workspace} {ms : List Mention} {file : Path}

/-! ### Named lines -/

/-- The lines of a file with a mention of a cvar. -/
def Record.targets (r : Record) (file : Path) : List Nat :=
  ((r.mentions.filter (·.2.file.same file)).map (·.2.line)).dedup

theorem Record.nodup_targets (r : Record) (file : Path) : (r.targets file).Nodup :=
  List.nodup_dedup _

theorem Record.mem_targets {r : Record} {n : Nat} :
    n ∈ r.targets file ↔ ∃ m ∈ r.mentions, m.2.file.same file = true ∧ m.2.line = n := by
  simp only [targets, List.mem_dedup, List.mem_map, List.mem_filter, and_assoc]

instance : Std.TransCmp LineKey.order := by
  have hfile : Std.TransCmp fun a b : LineKey => a.1.compare b.1 := Data.transCmp_on Prod.fst
  have hline : Std.TransCmp fun a b : LineKey => compare a.2 b.2 := Data.transCmp_on Prod.snd
  exact inferInstanceAs
    (Std.TransCmp (compareLex (fun a b : LineKey => a.1.compare b.1) fun a b => compare a.2 b.2))

/-- The named lines are in order. -/
theorem ascending_linesOf (ms : List Mention) : Data.Ascending LineKey.order (linesOf ms) := by
  refine List.foldlRecOn _ _ List.Pairwise.nil ?_
  intro keys h m _
  exact h.insertBy _

/-- Every line with a mention is named, perhaps by a path that is written otherwise. -/
theorem exists_mem_linesOf {m : Mention} (hm : m ∈ ms) :
    ∃ k ∈ linesOf ms, m.2.file.same k.1 = true ∧ m.2.line = k.2 := by
  let Named (keys : List LineKey) : Prop :=
    ∃ k ∈ keys, LineKey.order (m.2.file, m.2.line) k = .eq
  have hnamed : Named (linesOf ms) := by
    obtain ⟨before, after, rfl⟩ := List.append_of_mem hm
    rw [linesOf, List.foldl_append, List.foldl_cons]
    -- It is there once it is inserted, and stays.
    have hinsert : ∀ keys, Named (Data.insertBy LineKey.order (m.2.file, m.2.line) keys) :=
      fun keys => Data.exists_mem_insertBy _ keys
    refine List.foldlRecOn _ _ (hinsert _) ?_
    rintro keys ⟨k, hk, hsame⟩ m' _
    exact ⟨k, Data.mem_insertBy_of_mem hk, hsame⟩
  obtain ⟨k, hk, hsame⟩ := hnamed
  rw [LineKey.order, Ordering.then_eq_eq, Path.compare_eq_eq_iff,
    Std.LawfulEqCmp.compare_eq_iff_eq] at hsame
  exact ⟨k, hk, hsame⟩

/-- The numbers of the named lines of a file are its targets. -/
theorem perm_targets (r : Record) (file : Path) :
    (((linesOf r.mentions).filter (·.1.same file)).map Prod.snd).Perm (r.targets file) := by
  refine (List.perm_ext_iff_of_nodup ?_ (r.nodup_targets file)).2 ?_
  · -- Of two named lines of one file the numbers differ.
    rw [List.Nodup, List.pairwise_map, List.pairwise_filter]
    refine (ascending_linesOf r.mentions).imp ?_
    intro k k' hlt hk hk' heq
    have hfile : k.1.compare k'.1 = .eq := by
      rw [Path.compare_eq_eq_iff]
      exact Path.same_trans hk (by rwa [Path.same_comm])
    simp [LineKey.order, hfile, heq] at hlt
  · intro n
    rw [Record.mem_targets, List.mem_map]
    constructor
    · rintro ⟨k, hk, rfl⟩
      obtain ⟨hk, hfile⟩ := List.mem_filter.1 hk
      obtain ⟨m, hm, rfl⟩ := exists_of_mem_linesOf hk
      exact ⟨m, hm, hfile, rfl⟩
    · rintro ⟨m, hm, hfile, rfl⟩
      obtain ⟨k, hk, hsame, hline⟩ := exists_mem_linesOf hm
      rw [Path.same_comm] at hsame
      exact ⟨k, List.mem_filter.2 ⟨hk, Path.same_trans hsame hfile⟩, hline.symm⟩

/-- How many targets have a text. -/
def textTargets (w : Workspace) (r : Record) (file : Path) (line : String) : Nat :=
  (r.targets file).countP fun n => w.lineAt? file n == some line

theorem lineAt?_congr (w : Workspace) {file file' : Path} (h : file.same file' = true) (n : Nat) :
    w.lineAt? file n = w.lineAt? file' n := by
  rw [Workspace.lineAt?, Workspace.lineAt?, w.held?_congr h]

/-- Every target is named once. -/
theorem count_textsOf_linesOf (w : Workspace) (r : Record) (file : Path) (line : String) :
    (textsOf w (linesOf r.mentions) file).count line = textTargets w r file line := by
  rw [textTargets, ← (perm_targets r file).countP_eq, List.countP_map, textsOf,
    List.count_filterMap]
  apply List.countP_congr
  intro k hk
  rw [Function.comp_apply, lineAt?_congr w (List.mem_filter.1 hk).2]

/-! ### Targeted places -/

/-- If all lines with the texts of targets are targets, there are at least as many targets with the
text of a target as lines. -/
theorem count_le_textTargets {r : Record} {base : List String} {line : String}
    (hheld : w.held? file = some base)
    (htargets : ∀ i, base[i]? = some line → i + 1 ∈ r.targets file) :
    base.count line ≤ textTargets w r file line := by
  let places := (List.range base.length).filter fun i => base[i]? == some line
  have hcount : places.length = base.count line := by
    have hlen := congrArg (List.count line) (filterMap_getElem?_range base)
    rw [List.count_filterMap, List.countP_eq_length_filter] at hlen
    exact hlen
  have hnodup : (places.map (· + 1)).Nodup :=
    (List.nodup_range.filter _).map fun i j h => Nat.succ.inj h
  have hsubset : places.map (· + 1) ⊆
      (r.targets file).filter fun n => w.lineAt? file n == some line := by
    intro n hn
    obtain ⟨i, hi, rfl⟩ := List.mem_map.1 hn
    have hline : base[i]? = some line := by simpa using (List.mem_filter.1 hi).2
    refine List.mem_filter.2 ⟨htargets i hline, ?_⟩
    simp [Workspace.lineAt?, hheld, hline]
  have hle := (List.subperm_of_subset hnodup hsubset).length_le
  rwa [List.length_map, hcount, ← List.countP_eq_length_filter] at hle

/-! ### The removal -/

/-- A deletion only reads. -/
theorem extends_of_edit (hd : p.Distinct) {k : LineKey} {b : Bool}
    (hedit : (p.edit k.1 k.2 .delete).on w = (.ok (b, p'), w')) : w.Extends w' := by
  obtain ⟨w₁, hext, -, hcases⟩ := Patch.edit_delete_ok hd hedit
  rcases hcases with ⟨-, -, rfl⟩ | ⟨target, p₁, -, hload, -⟩
  · exact hext
  · rcases Patch.load_ok hload with ⟨_, -, -, rfl⟩ | ⟨-, _, hext₁, -, -⟩
    · exact hext
    · exact hext.trans hext₁

/-- Deletions only read. -/
theorem Removed.extends_of_edits {done keys : List LineKey} (h : Removed w done p)
    (hrun : Work.on (keys.foldlM (fun p (k : LineKey) => do
      return (← p.edit k.1 k.2 .delete).2) p) w = (.ok p', w')) : w.Extends w' := by
  induction keys generalizing w done p with
  | nil =>
      cases hrun
      exact .refl _
  | cons k keys ih =>
      rw [List.foldlM_cons, on_bind_ok] at hrun
      obtain ⟨p₁, w₁, hedit, hrun⟩ := hrun
      obtain ⟨⟨b, p₂⟩, w₂, hedit, hpure⟩ := on_bind_ok.1 hedit
      cases hpure
      exact (extends_of_edit h.distinct hedit).trans (ih (h.edit hedit) hrun)

/-- **How many lines a removal drops**: a file that it leaves alone has no text of a target.  In every
other file the lines that are left stay in order; of the lines with one text that is not blank as many
are dropped as targets have this text, or all of them; and every other line that is dropped is blank.
If the file is as it was first read, and every line with the text of a target is a target, then of the
lines that are not blank just the targets are dropped. -/
theorem removal_drops {r : Record} {context : Nat}
    (hrun : (removal r context).on w = (.ok p, w')) :
    w.Extends w' ∧
    (∀ file, p.copy? file = none → ∀ line, textTargets w' r file line = 0) ∧
    ∀ file text, (file, text) ∈ p.copies →
      ∃ base kept, w'.Current file base ∧ Leaves base text kept ∧ text.Sublist base ∧
        (∀ line, Text.isBlankLine line = false → (dropped base kept).count line =
          min (textTargets w' r file line) (base.count line)) ∧
        (∀ line ∈ dropped base kept, Text.isBlankLine line = true ∨
          0 < textTargets w' r file line) ∧
        (w'.held? file = some base →
          (∀ i line, base[i]? = some line → 0 < textTargets w' r file line →
            i + 1 ∈ r.targets file) →
          ∀ i line, base[i]? = some line → Text.isBlankLine line = false →
            (i ∉ kept ↔ i + 1 ∈ r.targets file)) := by
  have hempty := removed_empty w context
  have h := hempty.edits hrun
  rw [List.nil_append] at h
  refine ⟨hempty.extends_of_edits hrun, ?_, ?_⟩
  · intro file hnone line
    rw [← count_textsOf_linesOf, h.untouched file hnone]
    rfl
  · intro file text hcopy
    obtain ⟨base, kept, hcurrent, hleaves, hgone⟩ := h.deleted _ hcopy
    have hlaw : ∀ i line, base[i]? = some line → Text.isBlankLine line = false →
        (i ∉ kept ↔ (base.take i).count line < textTargets w' r file line) := by
      intro i line hline hblank
      rw [hgone i line hline hblank, Nat.not_le, count_textsOf_linesOf]
    refine ⟨base, kept, hcurrent, hleaves, hleaves.sublist, ?_, ?_, ?_⟩
    · intro line hblank
      rw [hgone.count_dropped hblank, count_textsOf_linesOf]
    · intro line hline
      obtain ⟨i, hi, hat⟩ := mem_dropped.1 hline
      cases hblank : Text.isBlankLine line with
      | true => exact .inl rfl
      | false => exact .inr (Nat.lt_of_le_of_lt (Nat.zero_le _) ((hlaw i line hat hblank).1 hi))
    · intro hheld htargets i line hline hblank
      rw [hlaw i line hline hblank]
      constructor
      · intro hlt
        exact htargets i line hline (Nat.lt_of_le_of_lt (Nat.zero_le _) hlt)
      · intro htarget
        -- The line itself is a target with its text, so all equal lines are.
        have hpos : 0 < textTargets w' r file line :=
          List.countP_pos_iff.2 ⟨i + 1, htarget, by simp [Workspace.lineAt?, hheld, hline]⟩
        have hall := count_le_textTargets (r := r) hheld fun j hj => htargets j line hj hpos
        have hmono := count_take_mono base line
          (show i + 1 ≤ base.length from (List.getElem?_eq_some_iff.1 hline).1)
        rw [count_take_succ hline, List.take_length] at hmono
        omega

/-- Lines with blank lines among them, two of which are equal. -/
def amongBlanks : List String := ["f(a);", "g(b);", "", "h(a, a);", "", "f(a);"]

/-- A workspace that holds these lines. -/
def holdingBlanks : Workspace := (Workspace.ofDisk ⟨[], []⟩ false).holdLines ⟨"a.cpp"⟩ amongBlanks

/-- A cvar that is mentioned twice between blank lines, and on both of two equal lines. -/
def mentionedAround : Record :=
  ⟨[(.get, [⟨⟨"a.cpp"⟩, 1, 3⟩, ⟨⟨"a.cpp"⟩, 4, 3⟩, ⟨⟨"a.cpp"⟩, 4, 6⟩, ⟨⟨"a.cpp"⟩, 6, 3⟩])],
    [], [], [], [], []⟩

theorem removal_drops_amongBlanks :
    (removal mentionedAround 3).on holdingBlanks =
        (.ok ⟨[(⟨"a.cpp"⟩, ["g(b);"])], 3⟩, holdingBlanks) ∧
      ∃ kept, Leaves amongBlanks ["g(b);"] kept ∧
        (∀ line, Text.isBlankLine line = false → (dropped amongBlanks kept).count line =
          min (textTargets holdingBlanks mentionedAround ⟨"a.cpp"⟩ line)
            (amongBlanks.count line)) ∧
        ∀ i line, amongBlanks[i]? = some line → Text.isBlankLine line = false →
          (i ∉ kept ↔ i + 1 ∈ mentionedAround.targets ⟨"a.cpp"⟩) := by
  have hrun : (removal mentionedAround 3).on holdingBlanks =
      (.ok ⟨[(⟨"a.cpp"⟩, ["g(b);"])], 3⟩, holdingBlanks) :=
    Prod.ext (ok_of_toOption (by decide +kernel)) rfl
  have hheld : holdingBlanks.held? ⟨"a.cpp"⟩ = some amongBlanks := by decide +kernel
  obtain ⟨-, -, hdrops⟩ := removal_drops hrun
  obtain ⟨base, kept, hcurrent, hleaves, -, hcount, -, hplaces⟩ :=
    hdrops ⟨"a.cpp"⟩ _ (List.mem_singleton_self _)
  obtain rfl : amongBlanks = base := Option.some.inj (hheld.symm.trans (current_iff.1 hcurrent))
  refine ⟨hrun, kept, hleaves, hcount, hplaces hheld ?_⟩
  have htargets : ∀ i < 6, ∀ line ∈ amongBlanks[i]?,
      0 < textTargets holdingBlanks mentionedAround ⟨"a.cpp"⟩ line →
        i + 1 ∈ mentionedAround.targets ⟨"a.cpp"⟩ := by decide +kernel
  intro i line hline
  exact htargets i (List.getElem?_eq_some_iff.1 hline).1 line hline

end Cvar

end Upkeep
