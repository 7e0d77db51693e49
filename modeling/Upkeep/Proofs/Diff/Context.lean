/-
**Context only adds kept lines.**

More context makes hunks longer and joins them, less context shortens them and takes them apart.  All
of this happens at kept lines: a script is cut in two only inside a run of kept lines, and what is
trimmed at its ends is kept as well.  A block of marked lines never reaches across a kept line, so no
block is cut or joined either.  The removed, added and marked lines of all hunks together are those of
the whole script, whatever the context; with no context at all a cut leaves no kept line behind, but
it is still made where there is one.

Main definitions:

* `Upkeep.Diff.HunkLine.changes`, `Upkeep.Diff.changedLines` — the lines of hunks that tell of a change;
* `Upkeep.Diff.shown`, `Upkeep.Diff.changesIn` — the lines that edits show, and the changed ones among
  them with their marked blocks shown as such.

Main results:

* `Upkeep.Diff.collapseMarks_append_kept` — marked blocks end at a kept line;
* `Upkeep.Diff.flatMap_changesIn_groupFrom` — grouping cuts at kept lines;
* `Upkeep.Diff.changedLines_hunks` — **the changed lines of the hunks are those of the script**;
* `Upkeep.Diff.hunks_eq_nil_iff` — there are no hunks only where nothing but one stretch is kept.
-/

import Upkeep.Proofs.Diff.Lines

set_option relaxedAutoImplicit false
set_option autoImplicit false

namespace Upkeep

namespace Diff

variable {old new : List String}

/-! ### Marked blocks and kept lines -/

/-- Whether a line tells of a change. -/
def HunkLine.changes : HunkLine → Bool
  | kept _ => false
  | _ => true

/-- The block of removed lines and of added ones behind them at the start, shown as marked lines if it
is a marked block. -/
def block (ls : List HunkLine) : List HunkLine :=
  (markedBlock? (ls.takeWhile HunkLine.isRemoved)
      ((ls.dropWhile HunkLine.isRemoved).takeWhile HunkLine.isAdded)).getD
    (ls.takeWhile HunkLine.isRemoved ++ (ls.dropWhile HunkLine.isRemoved).takeWhile HunkLine.isAdded)

/-- What is behind the block at the start. -/
def behindBlock (ls : List HunkLine) : List HunkLine :=
  (ls.dropWhile HunkLine.isRemoved).dropWhile HunkLine.isAdded

theorem collapseFrom_cons (budget : Nat) (l : HunkLine) (ls : List HunkLine) :
    collapseFrom (budget + 1) (l :: ls) =
      if l.isRemoved then block (l :: ls) ++ collapseFrom budget (behindBlock (l :: ls))
      else l :: collapseFrom budget ls := rfl

theorem length_behindBlock_le {l : HunkLine} (hl : l.isRemoved = true) (ls : List HunkLine) :
    (behindBlock (l :: ls)).length ≤ ls.length := by
  rw [behindBlock, List.dropWhile_cons_of_pos hl]
  exact ((List.dropWhile_sublist _).trans (List.dropWhile_sublist _)).length_le

/-- The budget does not matter once it is large enough. -/
theorem collapseFrom_of_le {budget : Nat} {ls : List HunkLine} (h : ls.length ≤ budget) :
    collapseFrom budget ls = collapseMarks ls := by
  suffices hs : ∀ budget' : Nat, ls.length ≤ budget' →
      collapseFrom budget ls = collapseFrom budget' ls from hs ls.length (Nat.le_refl _)
  induction budget generalizing ls with
  | zero =>
      intro budget' _
      obtain rfl : ls = [] := List.length_eq_zero_iff.1 (Nat.le_zero.1 h)
      cases budget' <;> rfl
  | succ budget ih =>
      intro budget' h'
      cases ls with
      | nil => cases budget' <;> rfl
      | cons l ls =>
          obtain ⟨budget', rfl⟩ : ∃ b, budget' = b + 1 := Nat.exists_eq_succ_of_ne_zero (by
            rintro rfl
            simp at h')
          rw [List.length_cons, Nat.succ_le_succ_iff] at h h'
          rw [collapseFrom_cons, collapseFrom_cons, ih h budget' h']
          split
          · have hle := length_behindBlock_le ‹_› ls
            rw [ih (Nat.le_trans hle h) budget' (Nat.le_trans hle h')]
          · rfl

@[simp] theorem collapseMarks_nil : collapseMarks [] = [] := rfl

/-- A block, or else one line, is shown at a time. -/
theorem collapseMarks_cons (l : HunkLine) (ls : List HunkLine) :
    collapseMarks (l :: ls) =
      if l.isRemoved then block (l :: ls) ++ collapseMarks (behindBlock (l :: ls))
      else l :: collapseMarks ls := by
  rw [collapseMarks, List.length_cons, collapseFrom_cons, collapseFrom_of_le (Nat.le_refl _)]
  split
  · rw [collapseFrom_of_le (length_behindBlock_le ‹_› ls)]
  · rfl

section Stops

variable {α : Type} {f : α → Bool} {a : α}

theorem takeWhile_append_of_stops (h : f a = false) (xs ys : List α) :
    (xs ++ a :: ys).takeWhile f = xs.takeWhile f := by
  induction xs with
  | nil => simp [h]
  | cons x xs ih => rw [List.cons_append, List.takeWhile_cons, List.takeWhile_cons, ih]

theorem dropWhile_append_of_stops (h : f a = false) (xs ys : List α) :
    (xs ++ a :: ys).dropWhile f = xs.dropWhile f ++ a :: ys := by
  induction xs with
  | nil => simp [h]
  | cons x xs ih =>
      rw [List.cons_append, List.dropWhile_cons, List.dropWhile_cons, ih]
      split <;> rfl

end Stops

section Kept

variable (as : List HunkLine) (s : String) (bs : List HunkLine)

/-- A block ends at a kept line. -/
theorem block_append_kept : block (as ++ .kept s :: bs) = block as := by
  have hremoved : HunkLine.isRemoved (.kept s) = false := rfl
  have hadded : HunkLine.isAdded (.kept s) = false := rfl
  rw [block, takeWhile_append_of_stops hremoved, dropWhile_append_of_stops hremoved,
    takeWhile_append_of_stops hadded, ← block]

theorem behindBlock_append_kept :
    behindBlock (as ++ .kept s :: bs) = behindBlock as ++ .kept s :: bs := by
  have hremoved : HunkLine.isRemoved (.kept s) = false := rfl
  have hadded : HunkLine.isAdded (.kept s) = false := rfl
  rw [behindBlock, dropWhile_append_of_stops hremoved, dropWhile_append_of_stops hadded, ← behindBlock]

/-- Marked blocks end at a kept line, so what is before it and what is behind it are shown on their
own.  The induction takes off one line, or one block, at the start. -/
theorem collapseMarks_append_kept :
    collapseMarks (as ++ .kept s :: bs) = collapseMarks as ++ .kept s :: collapseMarks bs := by
  induction hn : as.length using Nat.strongRecOn generalizing as with
  | ind n ih =>
      cases as with
      | nil => exact collapseMarks_cons (.kept s) bs
      | cons l ls =>
          rw [List.cons_append, collapseMarks_cons, collapseMarks_cons]
          split
          · rename_i hl
            have hshorter : (behindBlock (l :: ls)).length < n := by
              rw [← hn, List.length_cons]
              exact Nat.lt_succ_of_le (length_behindBlock_le hl ls)
            rw [← List.cons_append, block_append_kept, behindBlock_append_kept, ih _ hshorter _ rfl,
              List.append_assoc]
          · rw [ih ls.length (by simp [← hn]) ls rfl, List.cons_append]

end Kept

/-! ### Changed lines -/

/-- The removed, added and marked lines among some lines, with their marked blocks shown as such. -/
def changesIn (ls : List HunkLine) : List HunkLine := (collapseMarks ls).filter HunkLine.changes

/-- The removed, added and marked lines of hunks, one hunk after the other. -/
def changedLines (hs : List Hunk) : List HunkLine :=
  hs.flatMap fun h => h.lines.filter HunkLine.changes

@[simp] theorem changesIn_nil : changesIn [] = [] := rfl

@[simp] theorem changedLines_nil : changedLines [] = [] := rfl

theorem changesIn_append_kept (as : List HunkLine) (s : String) (bs : List HunkLine) :
    changesIn (as ++ .kept s :: bs) = changesIn as ++ changesIn bs := by
  rw [changesIn, collapseMarks_append_kept, List.filter_append, List.filter_cons_of_neg (by
    simp [HunkLine.changes])]
  rfl

/-- Kept lines at the start do not matter. -/
theorem changesIn_kept_append (ks : List String) (ls : List HunkLine) :
    changesIn (ks.map .kept ++ ls) = changesIn ls := by
  induction ks with
  | nil => rfl
  | cons k ks ih =>
      have hcons := changesIn_append_kept [] k (ks.map .kept ++ ls)
      rw [changesIn_nil, List.nil_append, List.nil_append, ih] at hcons
      exact hcons

/-- Kept lines between others set them apart. -/
theorem changesIn_append_kept_append (as : List HunkLine) {ks : List String} (hks : ks ≠ [])
    (bs : List HunkLine) :
    changesIn (as ++ (ks.map .kept ++ bs)) = changesIn as ++ changesIn bs := by
  cases ks with
  | nil => exact absurd rfl hks
  | cons k ks =>
      rw [List.map_cons, List.cons_append, changesIn_append_kept, changesIn_kept_append]

/-- Kept lines at the end do not matter. -/
theorem changesIn_append_of_kept (as : List HunkLine) (ks : List String) :
    changesIn (as ++ ks.map .kept) = changesIn as := by
  cases ks with
  | nil => rw [List.map_nil, List.append_nil]
  | cons k ks =>
      have happend := changesIn_append_kept_append as (List.cons_ne_nil k ks) []
      rwa [List.append_nil, changesIn_nil, List.append_nil] at happend

/-! ### Groups -/

/-- The lines that edits show. -/
def shown (old new : List String) (es : List Edit) : List HunkLine :=
  es.flatMap (·.hunkLines old new)

theorem shown_append (old new : List String) (es fs : List Edit) :
    shown old new (es ++ fs) = shown old new es ++ shown old new fs := List.flatMap_append

theorem shown_cons (old new : List String) (e : Edit) (es : List Edit) :
    shown old new (e :: es) = e.hunkLines old new ++ shown old new es := List.flatMap_cons

theorem shown_keep_cons (old new : List String) (i j n : Nat) (es : List Edit) :
    shown old new (.keep i j n :: es) = (slice old i n).map .kept ++ shown old new es := rfl

theorem shown_keep (old new : List String) (i j n : Nat) :
    shown old new [.keep i j n] = (slice old i n).map .kept := by
  rw [shown_keep_cons]
  exact List.append_nil _

/-- The changed lines of the hunks of groups are those that each group shows. -/
theorem changedLines_hunksOfGroups (old new : List String) (gs : List (List Edit)) :
    changedLines (gs.filterMap (hunkOfGroup? old new)) =
      gs.flatMap fun g => changesIn (shown old new g) := by
  induction gs with
  | nil => rfl
  | cons g gs ih =>
      have hlines := lines_hunkOfGroup? old new g
      rw [List.filterMap_cons, List.flatMap_cons, ← ih]
      cases hhunk : hunkOfGroup? old new g with
      | none =>
          rw [hhunk] at hlines
          split at hlines
          · subst g
            rfl
          · cases hlines
      | some h =>
          rw [hhunk] at hlines
          split at hlines
          · cases hlines
          · rw [changedLines, List.flatMap_cons, Option.some.inj hlines]
            rfl

/-- The kept lines of edits are there. -/
def Edit.KeepsThere (old : List String) : Edit → Prop
  | .keep i _ n => i + n ≤ old.length
  | _ => True

theorem slice_ne_nil {α : Type} {xs : List α} {i n : Nat} (hn : 0 < n) (h : i + n ≤ xs.length) :
    slice xs i n ≠ [] := by
  intro hnil
  have hlen := length_slice h
  rw [hnil, List.length_nil] at hlen
  omega

/-- A last group that is left out shows no changed line. -/
theorem flatMap_changesIn_lastGroup (old new : List String) (es : List Edit) :
    ((lastGroup es).flatMap fun g => changesIn (shown old new g)) = changesIn (shown old new es) := by
  unfold lastGroup
  split
  · rfl
  · rename_i i j n
    have hkept := changesIn_kept_append (slice old i n) []
    rw [List.append_nil] at hkept
    rw [shown_keep, hkept]
    rfl
  · exact List.flatMap_singleton ..

/-- **Grouping cuts at kept lines.**  The induction follows the edits that are left; where kept lines
close a group, some of them are there, as many as do not matter at its end and at the start of the
next one, and the whole run sets the changed lines apart. -/
theorem flatMap_changesIn_groupFrom (new : List String) (context : Nat) (building es : List Edit)
    (h : ∀ e ∈ es, e.KeepsThere old) :
    ((groupFrom context building es).flatMap fun g => changesIn (shown old new g)) =
      changesIn (shown old new (building.reverse ++ es)) := by
  fun_induction groupFrom context building es with
  | case1 building =>
      rw [List.append_nil]
      exact flatMap_changesIn_lastGroup ..
  | case2 building i j n es hn ih =>
      obtain ⟨hthere, hrest⟩ := List.forall_mem_cons.1 h
      rw [List.flatMap_cons, ih hrest, List.reverse_cons, shown_append, shown_keep,
        changesIn_append_of_kept, List.reverse_singleton, List.singleton_append, Edit.cutLeft_keep,
        shown_keep_cons, changesIn_kept_append, shown_append, shown_keep_cons,
        changesIn_append_kept_append _ (slice_ne_nil (by omega) hthere)]
  | case3 building i j n es hn ih =>
      rw [ih (List.forall_mem_cons.1 h).2, List.reverse_cons, List.append_assoc,
        List.singleton_append]
  | case4 building e es hne ih =>
      rw [ih (List.forall_mem_cons.1 h).2, List.reverse_cons, List.append_assoc,
        List.singleton_append]

/-! ### Trimming -/

theorem changesIn_trimFirst (new : List String) (context : Nat) (es : List Edit) :
    changesIn (shown old new (trimFirst context es)) = changesIn (shown old new es) := by
  unfold trimFirst
  split
  · rw [Edit.cutLeft_keep, shown_keep_cons, shown_keep_cons, changesIn_kept_append,
      changesIn_kept_append]
  · rfl

/-- Trimming at the end cuts kept lines alone. -/
theorem exists_shown_trimLast (old new : List String) (context : Nat) (es : List Edit) :
    ∃ (front : List HunkLine) (ks ks' : List String),
      shown old new (trimLast context es) = front ++ ks.map .kept ∧
      shown old new es = front ++ ks'.map .kept := by
  fun_induction trimLast context es with
  | case1 => exact ⟨[], [], [], rfl, rfl⟩
  | case2 i j n => exact ⟨[], _, _, shown_keep .., shown_keep ..⟩
  | case3 e => exact ⟨shown old new [e], [], [], (List.append_nil _).symm, (List.append_nil _).symm⟩
  | case4 e e' es ih =>
      obtain ⟨front, ks, ks', hcut, hall⟩ := ih
      refine ⟨e.hunkLines old new ++ front, ks, ks', ?_, ?_⟩
      · rw [shown_cons, hcut, List.append_assoc]
      · rw [shown_cons, hall, List.append_assoc]

theorem changesIn_trimmed (new : List String) (context : Nat) (es : List Edit) :
    changesIn (shown old new (trimmed context es)) = changesIn (shown old new es) := by
  obtain ⟨front, ks, ks', hcut, hall⟩ := exists_shown_trimLast old new context (trimFirst context es)
  rw [trimmed, hcut, changesIn_append_of_kept, ← changesIn_trimFirst new context es, hall,
    changesIn_append_of_kept]

theorem keepsThere_trimFirst (context : Nat) {es : List Edit} (h : ∀ e ∈ es, e.KeepsThere old) :
    ∀ e ∈ trimFirst context es, e.KeepsThere old := by
  unfold trimFirst
  split
  · rename_i i j n es
    obtain ⟨hthere, hrest⟩ := List.forall_mem_cons.1 h
    refine List.forall_mem_cons.2 ⟨?_, hrest⟩
    rw [Edit.cutLeft_keep]
    rw [Edit.KeepsThere] at hthere ⊢
    omega
  · exact h

theorem keepsThere_trimLast (context : Nat) {es : List Edit} (h : ∀ e ∈ es, e.KeepsThere old) :
    ∀ e ∈ trimLast context es, e.KeepsThere old := by
  fun_induction trimLast context es with
  | case1 => exact h
  | case2 i j n =>
      have hthere := h _ List.mem_cons_self
      refine List.forall_mem_singleton.2 ?_
      rw [Edit.KeepsThere] at hthere ⊢
      omega
  | case3 e => exact h
  | case4 e e' es ih =>
      obtain ⟨hthere, hrest⟩ := List.forall_mem_cons.1 h
      exact List.forall_mem_cons.2 ⟨hthere, ih hrest⟩

/-! ### Hunks -/

/-- The changed lines of the hunks of edits are those that the edits show. -/
theorem changedLines_hunksOf (new : List String) (context : Nat) {es : List Edit}
    (h : ∀ e ∈ es, e.KeepsThere old) :
    changedLines (hunksOf old new context es) = changesIn (shown old new es) := by
  rw [hunksOf, changedLines_hunksOfGroups, groups, trimmed,
    flatMap_changesIn_groupFrom new context [] _
      (keepsThere_trimLast context (keepsThere_trimFirst context h)),
    List.reverse_nil, List.nil_append, ← trimmed, changesIn_trimmed]

/-- What edits without gaps keep is there, and so is what edits keep that show the same. -/
theorem keepsThere_of_alike {es es' : List Edit} {i j i' j' : Nat}
    (h : List.Forall₂ Edit.Alike es es') (hleads : Leads old new i j es' i' j') :
    ∀ e ∈ es, e.KeepsThere old := by
  induction h generalizing i j with
  | nil => simp
  | cons he _ ih =>
      obtain ⟨-, -, hf, hleads⟩ := leads_cons.1 hleads
      refine List.forall_mem_cons.2 ⟨?_, ih hleads⟩
      cases he with
      | keep i j n => exact hf.oldEnd_le
      | delete i j j' n => trivial
      | insert i i' j n => trivial
      | replace i n j m => trivial

/-- What a comparison keeps is there. -/
theorem keepsThere_script (old new : List String) : ∀ e ∈ script old new, e.KeepsThere old := by
  obtain ⟨es, halike, hscript⟩ := exists_script old new
  exact keepsThere_of_alike halike hscript

/-- **The changed lines of the hunks are those of the script**, whatever the context. -/
theorem changedLines_hunks (old new : List String) (context : Nat) :
    changedLines (hunks old new context) = changesIn (shown old new (script old new)) :=
  changedLines_hunksOf new context (keepsThere_script old new)

/-! ### No hunks -/

/-- The edits keep one stretch, or there are none. -/
def KeepsOnce (es : List Edit) : Prop := es = [] ∨ ∃ i j n, es = [.keep i j n]

theorem lastGroup_eq_nil_iff {es : List Edit} : lastGroup es = [] ↔ KeepsOnce es := by
  unfold lastGroup
  split
  · exact iff_of_true rfl (.inl rfl)
  · exact iff_of_true rfl (.inr ⟨_, _, _, rfl⟩)
  · rename_i hnil hkeep
    refine iff_of_false (List.cons_ne_nil _ _) ?_
    rintro (h | ⟨i, j, n, h⟩)
    · exact hnil h
    · exact hkeep i j n h

/-- Without groups there is one stretch of kept lines at most. -/
theorem keepsOnce_of_groupFrom {context : Nat} {building es : List Edit}
    (h : groupFrom context building es = []) : KeepsOnce (building.reverse ++ es) := by
  fun_induction groupFrom context building es with
  | case1 building => simpa using lastGroup_eq_nil_iff.1 h
  | case2 => cases h
  | case3 building i j n es hn ih => simpa using ih h
  | case4 building e es hne ih => simpa using ih h

theorem keepsOnce_trimFirst {context : Nat} {es : List Edit} (h : KeepsOnce (trimFirst context es)) :
    KeepsOnce es := by
  unfold trimFirst at h
  split at h
  · rename_i i j n es
    rcases h with h | ⟨i', j', n', h⟩
    · cases h
    · obtain rfl := (List.cons.inj h).2
      exact .inr ⟨i, j, n, rfl⟩
  · exact h

theorem keepsOnce_trimLast {context : Nat} {es : List Edit} (h : KeepsOnce (trimLast context es)) :
    KeepsOnce es := by
  unfold trimLast at h
  split at h
  · exact h
  · exact .inr ⟨_, _, _, rfl⟩
  · exact h
  · rename_i e e' es
    -- There are as many edits as before, and these are two at least.
    have hlonger : trimLast context (e' :: es) ≠ [] := by
      unfold trimLast
      split <;> simp_all
    rcases h with h | ⟨i, j, n, h⟩
    · cases h
    · exact absurd (List.cons.inj h).2 hlonger

/-- A stretch of kept lines makes no group. -/
theorem groups_keep (context i j n : Nat) : groups context [.keep i j n] = [] := by
  rw [groups, trimmed, trimFirst, Edit.cutLeft_keep, trimLast, groupFrom, if_neg (by omega)]
  rfl

theorem groups_eq_nil_iff (context : Nat) {es : List Edit} :
    groups context es = [] ↔ KeepsOnce es := by
  constructor
  · intro h
    exact keepsOnce_trimFirst (keepsOnce_trimLast (keepsOnce_of_groupFrom h))
  · rintro (rfl | ⟨i, j, n, rfl⟩)
    · rfl
    · exact groups_keep context i j n

/-- No group is without edits. -/
theorem ne_nil_of_mem_groupFrom {context : Nat} {building es g : List Edit}
    (h : g ∈ groupFrom context building es) : g ≠ [] := by
  fun_induction groupFrom context building es with
  | case1 building =>
      unfold lastGroup at h
      split at h
      · cases h
      · cases h
      · rw [List.mem_singleton.1 h]
        assumption
  | case2 building i j n es hn ih =>
      rcases List.mem_cons.1 h with rfl | h
      · simp
      · exact ih h
  | case3 building i j n es hn ih => exact ih h
  | case4 building e es hne ih => exact ih h

theorem hunksOf_eq_nil_iff (old new : List String) (context : Nat) (es : List Edit) :
    hunksOf old new context es = [] ↔ KeepsOnce es := by
  rw [← groups_eq_nil_iff context, hunksOf, List.filterMap_eq_nil_iff]
  constructor
  · intro h
    refine List.eq_nil_iff_forall_not_mem.2 fun g hg => ?_
    have hlines := lines_hunkOfGroup? old new g
    rw [h g hg, if_neg (ne_nil_of_mem_groupFrom hg)] at hlines
    cases hlines
  · intro h g hg
    rw [h] at hg
    cases hg

/-- **There are no hunks where the script keeps one stretch at most**, whatever the context. -/
theorem hunks_eq_nil_iff (old new : List String) (context : Nat) :
    hunks old new context = [] ↔ KeepsOnce (script old new) := hunksOf_eq_nil_iff old new context _

/-! ### Equal lists -/

theorem commonStart_self (xs : List String) : commonStart xs xs = xs.length := by
  induction xs with
  | nil => rfl
  | cons x xs ih => rw [commonStart, if_pos rfl, ih, List.length_cons]

/-- Edits that are not moved stay where they are. -/
theorem tidy_of_keeps {kind : Edit → Bool} (old new : List String) (budget : Nat)
    (done rest : List Edit) (h : ∀ e ∈ rest, kind e = false) :
    tidy kind old new budget done rest = done.reverse ++ rest := by
  induction budget generalizing done rest with
  | zero => rw [tidy]
  | succ budget ih =>
      cases rest with
      | nil => simp [tidy]
      | cons e rest =>
          obtain ⟨he, hrest⟩ := List.forall_mem_cons.1 h
          rw [tidy, if_neg (by simp [he]), ih _ _ hrest, List.reverse_cons, List.append_assoc,
            List.singleton_append]

/-- The script of equal lists keeps them. -/
theorem script_self (xs : List String) : script xs xs = keepSome 0 0 xs.length := by
  have hraw : rawScript xs xs = keepSome 0 0 xs.length := by
    rw [rawScript, scriptFrom]
    simp [commonStart_self, commonEnd, keepSome]
  have hkeeps : ∀ e ∈ keepSome 0 0 xs.length, e = .keep 0 0 xs.length := by
    intro e he
    rw [keepSome] at he
    split at he
    · cases he
    · exact List.mem_singleton.1 he
  have hcompact : compact xs xs (rawScript xs xs) = keepSome 0 0 xs.length := by
    rw [hraw, compact, tidy_of_keeps _ _ _ [] (keepSome 0 0 xs.length) fun e he => by
      rw [hkeeps e he]; rfl]
    exact tidy_of_keeps _ _ _ [] _ fun e he => by rw [hkeeps e he]; rfl
  rw [script, hcompact, keepSome]
  split <;> rfl

/-- Equal lists have no hunks. -/
theorem hunks_self (xs : List String) (context : Nat) : hunks xs xs context = [] := by
  rw [hunks_eq_nil_iff, script_self, keepSome]
  split
  · exact .inl rfl
  · exact .inr ⟨_, _, _, rfl⟩

end Diff

end Upkeep
