/-
**What the removal of a cvar deletes.**

A removal deletes every line with a mention of a cvar, and finds these lines by their text.  So the
law speaks of texts: of the lines of a file with one text, the first ones go, as many as lines with
this text hold a mention.  A line that shares its text with none of them stays, whatever else it
mentions.

Main definitions:

* `Upkeep.Cvar.textsOf` — the texts of the lines of a file that are named;
* `Upkeep.Cvar.Removed` — patches that have deleted the named lines.

Main results:

* `Upkeep.Cvar.Removed.edit` — one more line is deleted;
* `Upkeep.Cvar.removal_deletes_iff` — **which lines a removal deletes**.
-/

import Upkeep.Cvar.Migration
import Upkeep.Cvar.Verdict
import Upkeep.Proofs.Cvar.Analysis
import Upkeep.Proofs.Patch.Copies

set_option relaxedAutoImplicit false
set_option autoImplicit false

namespace Upkeep

namespace Cvar

open Files Cpp

variable {p p' : Patch} {w w' : Workspace} {keys : List LineKey} {file : Path}

/-! ### Named lines -/

/-- The texts of the lines of a file that are named, as they are held. -/
def textsOf (w : Workspace) (keys : List LineKey) (file : Path) : List String :=
  (keys.filter (·.1.same file)).filterMap fun k => w.lineAt? k.1 k.2

theorem textsOf_append_same {k : LineKey} (h : k.1.same file = true) :
    textsOf w (keys ++ [k]) file = textsOf w keys file ++ (w.lineAt? k.1 k.2).toList := by
  rw [textsOf, textsOf, List.filter_append, List.filterMap_append]
  cases hline : w.lineAt? k.1 k.2 <;> simp [h, hline]

theorem textsOf_append_other {k : LineKey} (h : k.1.same file = false) :
    textsOf w (keys ++ [k]) file = textsOf w keys file := by
  rw [textsOf, textsOf, List.filter_append]
  simp [h]

/-- The files of all named lines are held. -/
def AllHeld (w : Workspace) (keys : List LineKey) : Prop :=
  ∀ k ∈ keys, ∃ ls, w.held? k.1 = some ls

/-- Texts that are held do not change. -/
theorem textsOf_extends (hheld : AllHeld w keys) (hw : w.Extends w') (file : Path) :
    textsOf w' keys file = textsOf w keys file := by
  apply List.filterMap_congr
  intro k hk
  obtain ⟨ls, hls⟩ := hheld k (List.mem_filter.1 hk).1
  rw [Workspace.lineAt?, Workspace.lineAt?, hls, hw.held _ _ hls]

/-! ### One deletion -/

/-- A patch that has deleted the named lines, as far as they were there: in every working copy the
first of equal lines are gone. -/
structure Removed (w : Workspace) (keys : List LineKey) (p : Patch) : Prop where
  held : AllHeld w keys
  distinct : p.Distinct
  untouched : ∀ file, p.copy? file = none → textsOf w keys file = []
  deleted : ∀ c ∈ p.copies, ∃ base kept, w.Current c.1 base ∧ Leaves base c.2 kept ∧
    FirstGone base (textsOf w keys c.1) kept

theorem removed_empty (w : Workspace) (context : Nat) : Removed w [] (.empty context) :=
  ⟨by simp [AllHeld], List.Pairwise.nil, fun _ _ => rfl, by simp [Patch.empty]⟩

/-- Reading more files changes nothing. -/
theorem Removed.mono (h : Removed w keys p) (hw : w.Extends w') : Removed w' keys p := by
  have htexts := textsOf_extends h.held hw
  refine ⟨?_, h.distinct, ?_, ?_⟩
  · intro k hk
    obtain ⟨ls, hls⟩ := h.held k hk
    exact ⟨ls, hw.held _ _ hls⟩
  · intro file hfile
    rw [htexts]
    exact h.untouched file hfile
  · intro c hc
    obtain ⟨base, kept, hcurrent, hleaves, hgone⟩ := h.deleted c hc
    rw [htexts]
    exact ⟨base, kept, hcurrent.mono hw, hleaves, hgone⟩

/-- A file that is loaded has lost nothing yet. -/
theorem Removed.load (h : Removed w keys p) (hload : (p.load file).on w = (.ok p', w')) :
    Removed w' keys p' ∧ w.Extends w' ∧ ∃ text, p'.copy? file = some text := by
  have hd := h.distinct.load hload
  rcases Patch.load_ok hload with ⟨text, hcopy, rfl, rfl⟩ | ⟨hnone, text, hext, hcurrent, rfl⟩
  · exact ⟨h, .refl _, text, hcopy⟩
  · have h' := h.mono hext
    refine ⟨⟨h'.held, hd, ?_, ?_⟩, hext, text, ?_⟩
    · intro f hf
      apply h'.untouched f
      rw [Patch.copy?_eq_none_iff] at hf ⊢
      intro f' hf'
      exact hf f' (by rw [Patch.files, List.map_append]; exact List.mem_append_left _ hf')
    · intro c hc
      rcases List.mem_append.1 hc with hc | hc
      · exact h'.deleted c hc
      · obtain rfl := List.mem_singleton.1 hc
        refine ⟨text, _, hcurrent, .refl text, ?_⟩
        rw [h'.untouched file hnone]
        exact firstGone_nil text
    · exact Patch.copy?_of_mem hd (List.mem_append_right _ (List.mem_singleton_self _))
        (Path.same_self file)

theorem AllHeld.append (h : AllHeld w keys) {k : LineKey} (hk : ∃ ls, w.held? k.1 = some ls) :
    AllHeld w (keys ++ [k]) := by
  intro k' hk'
  rcases List.mem_append.1 hk' with hk' | hk'
  · exact h k' hk'
  · obtain rfl := List.mem_singleton.1 hk'
    exact hk

/-- A line that is not there needs no deletion. -/
theorem Removed.skip (h : Removed w keys p) {k : LineKey} (hheld : ∃ ls, w.held? k.1 = some ls)
    (hnone : w.lineAt? k.1 k.2 = none) : Removed w (keys ++ [k]) p := by
  have htexts : ∀ file, textsOf w (keys ++ [k]) file = textsOf w keys file := by
    intro file
    cases hfile : k.1.same file with
    | true => simp [textsOf_append_same hfile, hnone]
    | false => exact textsOf_append_other hfile
  refine ⟨h.held.append hheld, h.distinct, ?_, ?_⟩
  · intro file hfile
    rw [htexts]
    exact h.untouched file hfile
  · intro c hc
    rw [htexts]
    exact h.deleted c hc

/-- The first line with the text of a named line is deleted. -/
theorem Removed.deleteFirst (h : Removed w keys p) {k : LineKey} {target : String}
    {copy : List String} (hheld : ∃ ls, w.held? k.1 = some ls)
    (hline : w.lineAt? k.1 k.2 = some target) (hcopy : p.copy? k.1 = some copy) :
    Removed w (keys ++ [k]) (p.deleteFirst k.1 target) := by
  have hfiles := Patch.files_modifyCopy p k.1 (deleteLine · target)
  refine ⟨h.held.append hheld, ?_, ?_, ?_⟩
  · rw [Patch.Distinct, Patch.deleteFirst, hfiles]
    exact h.distinct
  · intro file hfile
    have hnone : p.copy? file = none := by
      rwa [Patch.copy?_eq_none_iff, Patch.deleteFirst, hfiles, ← Patch.copy?_eq_none_iff] at hfile
    have hother : k.1.same file = false := by
      cases hsame : k.1.same file with
      | false => rfl
      | true =>
          rw [← Patch.copy?_congr p hsame, hcopy] at hnone
          cases hnone
    rw [textsOf_append_other hother]
    exact h.untouched file hnone
  · intro c hc
    obtain ⟨c₀, hc₀, hpath, htext⟩ := Patch.exists_of_mem_modifyCopy hc
    obtain ⟨base, kept, hcurrent, hleaves, hgone⟩ := h.deleted c₀ hc₀
    rw [hpath, htext]
    cases hsame : c₀.1.same k.1 with
    | false =>
        rw [Path.same_comm] at hsame
        rw [textsOf_append_other hsame]
        exact ⟨base, kept, hcurrent, hleaves, hgone⟩
    | true =>
        rw [Path.same_comm] at hsame
        obtain ⟨kept', hleaves', hgone'⟩ := hgone.deleteLine hleaves target
        refine ⟨base, kept', hcurrent, hleaves', hgone'.congr ?_⟩
        intro line
        rw [textsOf_append_same hsame, hline, List.count_append, List.count_cons]
        simp [List.count_cons]

/-- One more line is deleted. -/
theorem Removed.edit (h : Removed w keys p) {k : LineKey} {b : Bool}
    (hedit : (p.edit k.1 k.2 .delete).on w = (.ok (b, p'), w')) :
    Removed w' (keys ++ [k]) p' := by
  obtain ⟨w₁, hext, ⟨ls, hheld⟩, hcases⟩ := Patch.edit_delete_ok h.distinct hedit
  rcases hcases with ⟨hnone, rfl, rfl⟩ | ⟨target, p₁, hline, hload, rfl⟩
  · exact (h.mono hext).skip ⟨ls, hheld⟩ hnone
  · obtain ⟨h₁, hext₁, copy, hcopy⟩ := (h.mono hext).load hload
    have hheld' := hext₁.held _ _ hheld
    refine h₁.deleteFirst ⟨ls, hheld'⟩ ?_ hcopy
    rw [← hline, Workspace.lineAt?, Workspace.lineAt?, hheld, hheld']

/-! ### The removal -/

/-- All named lines are deleted, one after the other. -/
theorem Removed.edits {done : List LineKey} (h : Removed w done p)
    (hrun : Work.on (keys.foldlM (fun p (k : LineKey) => do
      return (← p.edit k.1 k.2 .delete).2) p) w = (.ok p', w')) :
    Removed w' (done ++ keys) p' := by
  induction keys generalizing w done p with
  | nil =>
      cases hrun
      rwa [List.append_nil]
  | cons k keys ih =>
      rw [List.foldlM_cons, on_bind_ok] at hrun
      obtain ⟨p₁, w₁, hedit, hrun⟩ := hrun
      obtain ⟨⟨b, p₂⟩, w₂, hedit, hpure⟩ := on_bind_ok.1 hedit
      cases hpure
      have hnext := ih (h.edit hedit) hrun
      rwa [List.append_assoc] at hnext

/-- The named lines are those of the mentions. -/
theorem exists_of_mem_linesOf {ms : List Mention} {k : LineKey} (h : k ∈ linesOf ms) :
    ∃ m ∈ ms, k = (m.2.file, m.2.line) := by
  let Named (ks : List LineKey) : Prop := ∀ k ∈ ks, ∃ m ∈ ms, k = (m.2.file, m.2.line)
  have hnamed : Named (linesOf ms) := by
    refine List.foldlRecOn _ _ (by simp [Named]) ?_
    intro ks hks m hm k hk
    rcases Data.mem_insertBy hk with rfl | hk
    · exact ⟨m, hm, rfl⟩
    · exact hks k hk
  exact hnamed k h

/-- A text of a named line is the text of a line with a mention. -/
theorem exists_mention_of_mem_textsOf {ms : List Mention} {line : String}
    (h : line ∈ textsOf w (linesOf ms) file) :
    ∃ m ∈ ms, m.2.file.same file = true ∧ w.lineAt? m.2.file m.2.line = some line := by
  obtain ⟨k, hk, hline⟩ := List.mem_filterMap.1 h
  obtain ⟨hk, hfile⟩ := List.mem_filter.1 hk
  obtain ⟨m, hm, rfl⟩ := exists_of_mem_linesOf hk
  exact ⟨m, hm, hfile, hline⟩

/-- **Which lines a removal deletes**: in every file that it touches the lines that are left stay in
order, and a line that is not blank, whatever else is mentioned on it, is deleted exactly when fewer
equal lines stand above it than lines with its text hold a mention of the cvar.  So it only goes when
a line with its text holds such a mention. -/
theorem removal_deletes_iff {r : Record} {context : Nat}
    (hrun : (removal r context).on w = (.ok p, w')) {text : List String}
    (hcopy : (file, text) ∈ p.copies) :
    ∃ base kept, w'.Current file base ∧ Leaves base text kept ∧
      ∀ i line, base[i]? = some line → Text.isBlankLine line = false →
        (i ∉ kept ↔ (base.take i).count line <
          (textsOf w' (linesOf r.mentions) file).count line) ∧
        (i ∉ kept → ∃ m ∈ r.mentions, m.2.file.same file = true ∧
          w'.lineAt? m.2.file m.2.line = some line) := by
  have h := (removed_empty w context).edits hrun
  rw [List.nil_append] at h
  obtain ⟨base, kept, hcurrent, hleaves, hgone⟩ := h.deleted _ hcopy
  refine ⟨base, kept, hcurrent, hleaves, ?_⟩
  intro i line hline hblank
  have hlaw : i ∉ kept ↔ (base.take i).count line <
      (textsOf w' (linesOf r.mentions) file).count line := by
    rw [hgone i line hline hblank, Nat.not_le]
  refine ⟨hlaw, ?_⟩
  intro hi
  have hpos := Nat.lt_of_le_of_lt (Nat.zero_le _) (hlaw.1 hi)
  exact exists_mention_of_mem_textsOf (List.count_pos_iff.1 hpos)

/-- A workspace that holds a file in which two lines are equal. -/
def twoEqual : Workspace :=
  (Workspace.ofDisk ⟨[], []⟩ false).hold ⟨"a.cpp"⟩ "f(a);\ng(b);\nf(a);\nvmCvar_t a, b;\n"

/-- A cvar that is mentioned on the latter of two equal lines, and declared together with another. -/
def mentionedBelow : Record :=
  ⟨[(.define, [⟨⟨"a.cpp"⟩, 4, 10⟩]), (.get, [⟨⟨"a.cpp"⟩, 3, 3⟩])], [], [], [], [], []⟩

theorem removal_deletes_iff_twoEqual :
    (removal mentionedBelow 3).on twoEqual =
        (.ok ⟨[(⟨"a.cpp"⟩, ["g(b);", "f(a);"])], 3⟩, twoEqual) ∧
      ∃ base kept, twoEqual.Current ⟨"a.cpp"⟩ base ∧ Leaves base ["g(b);", "f(a);"] kept ∧
        ∀ i line, base[i]? = some line → Text.isBlankLine line = false →
          (i ∉ kept ↔ (base.take i).count line <
            (textsOf twoEqual (linesOf mentionedBelow.mentions) ⟨"a.cpp"⟩).count line) ∧
          (i ∉ kept → ∃ m ∈ mentionedBelow.mentions, m.2.file.same ⟨"a.cpp"⟩ = true ∧
            twoEqual.lineAt? m.2.file m.2.line = some line) :=
  have hrun : (removal mentionedBelow 3).on twoEqual =
      (.ok ⟨[(⟨"a.cpp"⟩, ["g(b);", "f(a);"])], 3⟩, twoEqual) := rfl
  ⟨hrun, removal_deletes_iff hrun (List.mem_singleton_self _)⟩

/-- The rows of `vmCvar_t a, b;`. -/
def pairRows : List Row :=
  [partRow 1 "declaration" none 0 14, partRow 2 "type_identifier" (some "type") 0 8,
    partRow 2 "identifier" (some "declarator") 9 10, markRow 2 "," 10,
    partRow 2 "identifier" (some "declarator") 12 13, markRow 2 ";" 13]

/-- Two cvars are declared together, and one of them is used. -/
def declaredTogether : Source :=
  sourceOf "vmCvar_t a, b;\nint y = b;\n" (pairRows ++ useRows 15 1)

/-- Whether the first cvar is dead, the second is not, and the removal of the first leaves no line
with the text of a line on which a syntax tree mentions the second. -/
def removalTakes (cfg : Settings) (files : List Source) (dead other : String) : Bool :=
  match analyzeFiles ⟨[], []⟩ cfg searching (files.map (·.path)) files with
  | .error _ => false
  | .ok a =>
    match a.ledger.get? dead, a.ledger.get? other with
    | some r, some r' =>
      classify cfg.policy r == .dead && classify cfg.policy r' != .dead &&
        match (removal r 3).on a.workspace with
        | (.error _, _) => false
        | (.ok p, w) => r'.parsedMentions.any fun m =>
          (p.copy? m.2.file).any fun text =>
            (w.lineAt? m.2.file m.2.line).any fun line => !text.contains line
    | _, _ => false

/-- A removal takes a line that it shares with a cvar in use. -/
theorem removal_takes_shared : removalTakes {} [declaredTogether] "a" "b" = true := by
  decide +kernel

end Cvar

end Upkeep
