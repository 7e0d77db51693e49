/-
**Which lines a deletion deletes.**

A deletion finds its line by the text, takes the first line that has it, and takes blank lines around
it along.  These are counted on both sides of the line at once, so on each side as many go as there are
directly above it, or directly below it, whichever are fewer: the line stands in the middle of what is
taken out.  The places are words.  Behind the last word there is no place that could be looked at, and an
index that is the last word stops the count.

So which lines are gone after many deletions does not depend on their order: of the lines with one text,
the first ones, as many as there were deletions of that text.  Blank lines can also go with others.

Main definitions:

* `Upkeep.Leaves` — the lines that are left of a text;
* `Upkeep.blanksAbove`, `Upkeep.blanksBelow` — the blank lines directly above and below a place;
* `Upkeep.CutAround` — a text with a centred stretch taken out;
* `Upkeep.FirstGone` — the first of equal lines are gone;
* `Upkeep.deleteLine` — the deletion of the first line with a text.

Main results:

* `Upkeep.blankRun_eq_min` — **the blank lines that go with a line**;
* `Upkeep.countBlanks_eq` — **how they are counted in words**;
* `Upkeep.cutAround_delete` — a deletion takes out a centred stretch;
* `Upkeep.FirstGone.deleteLine` — **one more deletion takes the first equal line that is left**.
-/

import Upkeep.Patch.Basic

set_option relaxedAutoImplicit false
set_option autoImplicit false

namespace Upkeep

variable {base text : List String} {kept : List Nat} {line target : String} {i j : Nat}

/-! ### Equal lines above a line -/

theorem count_take_mono (base : List String) (line : String) (h : i ≤ j) :
    (base.take i).count line ≤ (base.take j).count line :=
  ((List.take_prefix_take_left h).sublist).count_le line

theorem count_take_succ (h : base[i]? = some line) :
    (base.take (i + 1)).count line = (base.take i).count line + 1 := by
  rw [List.take_add_one, h, List.count_append]
  simp

/-- A line with another text does not count. -/
theorem count_take_succ_of_ne (h : base[i]? ≠ some line) :
    (base.take (i + 1)).count line = (base.take i).count line := by
  rw [List.take_add_one, List.count_append]
  cases hb : base[i]? with
  | none => simp
  | some line' =>
      rw [hb, ne_eq, Option.some.injEq] at h
      simp [h]

/-- A later line has more equal lines above it. -/
theorem count_take_lt (hi : base[i]? = some line) (h : i < j) :
    (base.take i).count line < (base.take j).count line := by
  have hsucc := count_take_succ hi
  have hmono := count_take_mono base line (show i + 1 ≤ j from h)
  omega

/-- The last of the equal lines above a line has one less above it. -/
theorem exists_above (h : 0 < (base.take i).count line) :
    ∃ k < i, base[k]? = some line ∧ (base.take k).count line + 1 = (base.take i).count line := by
  induction i with
  | zero => simp at h
  | succ i ih =>
      by_cases hi : base[i]? = some line
      · exact ⟨i, Nat.lt_succ_self i, hi, (count_take_succ hi).symm⟩
      · have hsame := count_take_succ_of_ne hi
        rw [hsame] at h ⊢
        obtain ⟨k, hk, hline, hcount⟩ := ih h
        exact ⟨k, Nat.lt_succ_of_lt hk, hline, hcount⟩

/-! ### What is left -/

/-- `text` is what is left of `base` when the lines at the places `kept` are kept. -/
structure Leaves (base text : List String) (kept : List Nat) : Prop where
  increasing : kept.Pairwise (· < ·)
  lines : kept.map (base[·]?) = text.map some

theorem Leaves.refl (base : List String) : Leaves base base (List.range base.length) := by
  refine ⟨List.pairwise_lt_range, ?_⟩
  apply List.ext_getElem?
  intro i
  by_cases hi : i < base.length
  · simp [hi]
  · simp [hi]

/-- A line that is left is the line at its place. -/
theorem Leaves.getElem? (h : Leaves base text kept) (hj : kept[j]? = some i) :
    base[i]? = text[j]? := by
  have hlines := congrArg (·[j]?) h.lines
  simp only [List.getElem?_map, hj, Option.map_some] at hlines
  cases ht : text[j]? with
  | none => simp [ht] at hlines
  | some line => simpa [ht] using hlines

theorem Leaves.length_eq (h : Leaves base text kept) : kept.length = text.length := by
  simpa using congrArg List.length h.lines

/-- The places of what is left are in order. -/
theorem Leaves.lt_iff (h : Leaves base text kept) {m k : Nat} (hm : kept[m]? = some k)
    (hj : kept[j]? = some i) : k < i ↔ m < j := by
  have hlt : ∀ {a b x y : Nat}, kept[a]? = some x → kept[b]? = some y → a < b → x < y := by
    intro a b x y ha hb hab
    obtain ⟨ha', rfl⟩ := List.getElem?_eq_some_iff.1 ha
    obtain ⟨hb', rfl⟩ := List.getElem?_eq_some_iff.1 hb
    exact List.pairwise_iff_getElem.1 h.increasing a b ha' hb' hab
  constructor
  · intro hki
    rcases Nat.lt_trichotomy m j with hmj | rfl | hjm
    · exact hmj
    · rw [hm, Option.some.injEq] at hj
      omega
    · have hik := hlt hj hm hjm
      omega
  · exact hlt hm hj

/-- A stretch of lines is taken out. -/
theorem Leaves.cut (h : Leaves base text kept) (hij : i ≤ j) :
    Leaves base (text.take i ++ text.drop j) (kept.take i ++ kept.drop j) := by
  constructor
  · refine h.increasing.sublist ?_
    have hdrop : (kept.drop j).Sublist (kept.drop i) := List.drop_sublist_drop_left _ hij
    have happend := List.Sublist.append_left hdrop (kept.take i)
    rwa [List.take_append_drop] at happend
  · rw [List.map_append, List.map_append, List.map_take, List.map_drop, List.map_take,
      List.map_drop, h.lines]

/-! ### Blank lines around a line -/

/-- The pairs of lines at equal distances from a line, up to the first that are not both blank. -/
theorem blankRun_spec {m : Nat} (hm : m < blankRun text j) :
    ∃ above below, (text.take j).reverse[m]? = some above ∧ text[j + 1 + m]? = some below ∧
      Text.isBlankLine above = true ∧ Text.isBlankLine below = true := by
  let pairs := List.zip (text.take j).reverse (text.drop (j + 1))
  let blank := fun p : String × String => Text.isBlankLine p.1 && Text.isBlankLine p.2
  have hm' : m < (pairs.takeWhile blank).length := hm
  have hmem : (pairs.takeWhile blank)[m] ∈ pairs.takeWhile blank := List.getElem_mem hm'
  have hblank : blank _ = true := List.all_eq_true.1 List.all_takeWhile _ hmem
  have hpair : pairs[m]? = some (pairs.takeWhile blank)[m] := by
    rw [← List.getElem?_eq_getElem hm', ← List.getElem?_append_left hm',
      List.takeWhile_append_dropWhile]
  obtain ⟨habove, hbelow⟩ := List.getElem?_zip_eq_some.1 hpair
  rw [List.getElem?_drop] at hbelow
  obtain ⟨hfirst, hsecond⟩ := (Bool.and_eq_true _ _).mp hblank
  exact ⟨_, _, habove, hbelow, hfirst, hsecond⟩

/-- The blank lines that go with a line are there. -/
theorem blankRun_le (text : List String) (j : Nat) : blankRun text j ≤ j := by
  have hle := (List.takeWhile_prefix (fun p => Text.isBlankLine p.1 && Text.isBlankLine p.2)
    (l := List.zip (text.take j).reverse (text.drop (j + 1)))).length_le
  rw [List.length_zip, List.length_reverse, List.length_take] at hle
  rw [blankRun]
  omega

/-- Only blank lines go with a line. -/
theorem isBlankLine_of_blankRun {k : Nat} (hj : j < text.length)
    (hlow : j - blankRun text j ≤ k) (hhigh : k ≤ j + blankRun text j) (hne : k ≠ j)
    (hline : text[k]? = some line) : Text.isBlankLine line = true := by
  have hlen : (text.take j).length = j := by
    rw [List.length_take]
    omega
  rcases Nat.lt_or_gt_of_ne hne with hk | hk
  · obtain ⟨above, _, habove, -, hblank, -⟩ := blankRun_spec (show j - 1 - k < blankRun text j by omega)
    rw [List.getElem?_reverse (by omega), hlen, List.getElem?_take_of_lt (by omega),
      show j - 1 - (j - 1 - k) = k by omega, hline, Option.some.injEq] at habove
    rwa [habove]
  · obtain ⟨_, below, -, hbelow, -, hblank⟩ := blankRun_spec (show k - j - 1 < blankRun text j by omega)
    rw [show j + 1 + (k - j - 1) = k by omega, hline, Option.some.injEq] at hbelow
    rwa [hbelow]

/-- The number of blank lines directly above a place, without a gap. -/
def blanksAbove (text : List String) : Nat → Nat
  | 0 => 0
  | i + 1 => if text[i]?.any Text.isBlankLine then blanksAbove text i + 1 else 0

/-- The number of blank lines directly below a place, without a gap. -/
def blanksBelow (text : List String) (i : Nat) : Nat :=
  ((text.drop (i + 1)).takeWhile Text.isBlankLine).length

theorem blanksAbove_eq (h : i ≤ text.length) :
    blanksAbove text i = ((text.take i).reverse.takeWhile Text.isBlankLine).length := by
  induction i with
  | zero => rfl
  | succ i ih =>
      have hi : i < text.length := h
      rw [List.take_add_one, List.getElem?_eq_getElem hi, Option.toList_some, List.reverse_append,
        List.reverse_singleton, List.singleton_append, List.takeWhile_cons, blanksAbove,
        List.getElem?_eq_getElem hi, Option.any_some, ih (Nat.le_of_lt hi)]
      split <;> rfl

/-- Pairs at equal distances both pass as far as the members on each side do. -/
theorem length_takeWhile_zip {α β : Type} (p : α → Bool) (q : β → Bool) (xs : List α) (ys : List β) :
    ((List.zip xs ys).takeWhile fun e => p e.1 && q e.2).length =
      min (xs.takeWhile p).length (ys.takeWhile q).length := by
  induction xs generalizing ys with
  | nil => simp
  | cons x xs ih =>
      cases ys with
      | nil => simp
      | cons y ys =>
          rw [List.zip_cons_cons, List.takeWhile_cons, List.takeWhile_cons, List.takeWhile_cons]
          cases p x with
          | false => simp
          | true =>
              cases q y with
              | false => simp
              | true => simp [ih]

/-- **The blank lines that go with a line** are, on each side, as many as there are directly above it or
directly below it, whichever are fewer. -/
theorem blankRun_eq_min (text : List String) (i : Nat) :
    blankRun text i = min (blanksAbove text i) (blanksBelow text i) := by
  rw [blankRun, length_takeWhile_zip, blanksBelow]
  by_cases h : i ≤ text.length
  · rw [blanksAbove_eq h]
  · -- Behind the end nothing stands below.
    rw [List.drop_eq_nil_of_le (by omega), List.takeWhile_nil, List.length_nil, Nat.min_zero, Nat.min_zero]

/-- The blank lines that go with a line are there, below it as well. -/
theorem add_blankRun_lt (h : i < text.length) : i + blankRun text i < text.length := by
  have hmin : blankRun text i ≤ blanksBelow text i := by
    rw [blankRun_eq_min]
    exact Nat.min_le_right _ _
  have hle : blanksBelow text i ≤ (text.drop (i + 1)).length :=
    (List.takeWhile_prefix Text.isBlankLine).length_le
  rw [List.length_drop] at hle
  omega

/-! ### Counting in words -/

/-- The members of a list that pass from its start go on where the one behind them passes. -/
theorem lt_length_takeWhile_iff {α : Type} {p : α → Bool} {l : List α} {n : Nat}
    (h : n ≤ (l.takeWhile p).length) : n < (l.takeWhile p).length ↔ l[n]?.any p = true := by
  induction l generalizing n with
  | nil => simp
  | cons a l ih =>
      rw [List.takeWhile_cons] at h ⊢
      cases ha : p a with
      | false =>
          rw [ha, if_neg Bool.false_ne_true, List.length_nil, Nat.le_zero] at h
          subst h
          simp [ha]
      | true =>
          cases n with
          | zero => simp [ha]
          | succ n =>
              rw [ha, if_pos rfl, List.length_cons, Nat.add_le_add_iff_right] at h
              rw [if_pos rfl, List.length_cons, Nat.add_lt_add_iff_right, List.getElem?_cons_succ]
              exact ih h

/-- One more blank line goes on each side if the next ones above and below are there and blank. -/
theorem lt_blankRun_iff {n : Nat} (hn : n ≤ blankRun text i) (hi : n < i) :
    n < blankRun text i ↔ i + n + 1 < text.length ∧ text[i - n - 1]?.any Text.isBlankLine = true ∧
      text[i + n + 1]?.any Text.isBlankLine = true := by
  by_cases hlen : i + n + 1 < text.length
  · have habove : (text.take i).reverse[n]? = text[i - n - 1]? := by
      have hlength : (text.take i).length = i := by
        rw [List.length_take]
        omega
      rw [List.getElem?_reverse (by omega), hlength, List.getElem?_take_of_lt (by omega)]
      congr 1
      omega
    have hbelow : (text.drop (i + 1))[n]? = text[i + n + 1]? := by
      rw [List.getElem?_drop]
      congr 1
      omega
    rw [blankRun] at hn ⊢
    rw [lt_length_takeWhile_iff hn]
    simp only [Option.any_eq_true, List.getElem?_zip_eq_some, habove, hbelow, Bool.and_eq_true]
    constructor
    · rintro ⟨⟨above, below⟩, ⟨ha, hb⟩, hblank⟩
      exact ⟨hlen, ⟨above, ha, hblank.1⟩, below, hb, hblank.2⟩
    · rintro ⟨-, ⟨above, ha, hfirst⟩, below, hb, hsecond⟩
      exact ⟨(above, below), ⟨ha, hb⟩, hfirst, hsecond⟩
  · refine iff_of_false (fun hlt => ?_) fun h => hlen h.1
    obtain ⟨_, below, -, hbelow, -⟩ := blankRun_spec hlt
    rw [List.getElem?_eq_none (by omega)] at hbelow
    cases hbelow

theorem addWords_of_lt {a b : UInt64} (h : a.toNat + b.toNat < UInt64.size) :
    ∃ c, addWords a b = .ok c ∧ c.toNat = a.toNat + b.toNat := by
  refine ⟨a + b, if_pos h, ?_⟩
  rw [UInt64.toNat_add, Nat.mod_eq_of_lt h]

/-- One step of the count, while the place below does not go beyond the words. -/
theorem countBlanksFrom_step {index n : UInt64} (hn : n.toNat ≤ blankRun text index.toNat)
    (hroom : index.toNat + n.toNat + 1 < UInt64.size) : countBlanksFrom text index n =
      if n.toNat < blankRun text index.toNat then countBlanksFrom text index (n + 1) else .ok n := by
  rw [countBlanksFrom]
  by_cases hindex : n < index
  · have hi : n.toNat < index.toNat := UInt64.lt_iff_toNat_lt.1 hindex
    obtain ⟨sum, hsum, hsum'⟩ := addWords_of_lt (a := index) (b := n) (by omega)
    obtain ⟨below, hbelow, hbelow'⟩ := addWords_of_lt (a := sum) (b := 1) (by simpa [hsum'] using hroom)
    have habove : (index - n - 1).toNat = index.toNat - n.toNat - 1 := by
      have hdiff : (index - n).toNat = index.toNat - n.toNat :=
        UInt64.toNat_sub_of_le _ _ (UInt64.le_iff_toNat_le.2 (Nat.le_of_lt hi))
      rw [UInt64.toNat_sub_of_le _ _ (UInt64.le_iff_toNat_le.2 (by rw [hdiff, UInt64.toNat_one]; omega)),
        hdiff, UInt64.toNat_one]
    have hgoes : (below.toNat < text.length && blankAt text (index - n - 1) && blankAt text below) =
        decide (n.toNat < blankRun text index.toNat) := by
      rw [Bool.eq_iff_iff, decide_eq_true_iff, lt_blankRun_iff hn hi, blankAt, blankAt, habove,
        hbelow', hsum', UInt64.toNat_one]
      simp only [Bool.and_eq_true, decide_eq_true_eq, and_assoc]
    rw [dif_pos hindex, hsum]
    change (addWords sum 1 >>= _) = _
    rw [hbelow]
    change (if _ then _ else _) = _
    simp only [hgoes, decide_eq_true_eq]
    rfl
  · have hle : index.toNat ≤ n.toNat := Nat.le_of_not_lt fun h => hindex (UInt64.lt_iff_toNat_lt.2 h)
    have hmost := blankRun_le text index.toNat
    rw [dif_neg hindex, if_neg (by omega)]
    rfl

/-- The count goes on from what has been counted. -/
theorem exists_countBlanksFrom (hlen : text.length < UInt64.size) {index n : UInt64}
    (hn : n.toNat ≤ blankRun text index.toNat) (hroom : index.toNat + n.toNat + 1 < UInt64.size) :
    ∃ c, countBlanksFrom text index n = .ok c ∧ c.toNat = blankRun text index.toNat := by
  -- The induction is on the lines that have not been counted yet.
  induction hrest : blankRun text index.toNat - n.toNat generalizing n with
  | zero => exact ⟨n, by rw [countBlanksFrom_step hn hroom, if_neg (by omega)], by omega⟩
  | succ rest ih =>
      have hlt : n.toNat < blankRun text index.toNat := by omega
      have hi := Nat.lt_of_lt_of_le hlt (blankRun_le text index.toNat)
      have hbelow := ((lt_blankRun_iff hn hi).1 hlt).1
      have hsucc : (n + 1).toNat = n.toNat + 1 := by
        rw [UInt64.toNat_add, UInt64.toNat_one, Nat.mod_eq_of_lt (show n.toNat + 1 < UInt64.size by omega)]
      rw [countBlanksFrom_step hn hroom, if_pos hlt]
      exact ih (by omega) (by omega) (by omega)

/-- **The blank lines are counted in words as they are in numbers**, unless the index is the last word: then
there is no place below it. -/
theorem countBlanks_eq (hlen : text.length < UInt64.size) (index : UInt64) :
    (countBlanks text index).map UInt64.toNat =
      if index.toNat + 1 = UInt64.size then .error .overflow else .ok (blankRun text index.toNat) := by
  have hsize := index.toNat_lt_size
  split
  · next hlast =>
    have hpos : 0 < index := by
      rw [UInt64.lt_iff_toNat_lt, UInt64.toNat_zero]
      have hword : 1 < UInt64.size := by decide
      omega
    rw [countBlanks, countBlanksFrom, dif_pos hpos]
    have hsum : addWords index 0 = .ok index := by
      rw [addWords, UInt64.toNat_zero, Nat.add_zero, if_pos hsize, UInt64.add_zero]
    have hbelow : addWords index 1 = .error .overflow := by
      rw [addWords, UInt64.toNat_one, if_neg (by omega)]
    rw [hsum]
    change Except.map _ (addWords index 1 >>= _) = _
    rw [hbelow]
    rfl
  · next hroom =>
    obtain ⟨c, hc, hvalue⟩ := exists_countBlanksFrom (n := 0) hlen (Nat.zero_le _)
      (show index.toNat + 0 + 1 < UInt64.size by omega)
    rw [countBlanks, hc, ← hvalue]
    rfl
/-! ### What is taken out -/

/-- What is left of a text without a stretch that has the line at a place in its middle, the blank lines that
go with it on either side, and nothing else. -/
def CutAround (text : List String) (i : Nat) (left : List String) : Prop :=
  ∃ above around below, text = above ++ around ++ below ∧ left = above ++ below ∧
    around.length = 2 * blankRun text i + 1 ∧ above.length + blankRun text i = i ∧
    ∀ k line, around[k]? = some line → k ≠ blankRun text i → Text.isBlankLine line = true

/-- **A deletion takes out a stretch that is centred on its line.** -/
theorem cutAround_delete (h : i < text.length) : CutAround text i (LineEdit.delete.applyAt text i) := by
  have hlow := blankRun_le text i
  have hhigh := add_blankRun_lt h
  refine ⟨text.take (i - blankRun text i),
    (text.drop (i - blankRun text i)).take (2 * blankRun text i + 1),
    text.drop (i + blankRun text i + 1), ?_, rfl, ?_, ?_, ?_⟩
  · have hbelow : text.drop (i + blankRun text i + 1) =
        (text.drop (i - blankRun text i)).drop (2 * blankRun text i + 1) := by
      rw [List.drop_drop]
      congr 1
      omega
    rw [hbelow, List.append_assoc, List.take_append_drop, List.take_append_drop]
  · rw [List.length_take, List.length_drop]
    omega
  · rw [List.length_take]
    omega
  · intro k line hline hne
    rw [List.getElem?_take] at hline
    split at hline
    · rw [List.getElem?_drop] at hline
      exact isBlankLine_of_blankRun h (Nat.le_add_right _ _) (by omega) (by omega) hline
    · cases hline

/-! ### Deletions -/

/-- The deletion of the first line with a text, if there is one. -/
def deleteLine (text : List String) (target : String) : List String :=
  match text.findIdx? (· == target) with
  | some j => LineEdit.delete.applyAt text j
  | none => text

/-- Of equal lines that are not blank the first ones are gone, as many as there are targets with
their text. -/
def FirstGone (base targets : List String) (kept : List Nat) : Prop :=
  ∀ i line, base[i]? = some line → Text.isBlankLine line = false →
    (i ∈ kept ↔ targets.count line ≤ (base.take i).count line)

theorem firstGone_nil (base : List String) : FirstGone base [] (List.range base.length) := by
  intro i line hline _
  obtain ⟨hi, -⟩ := List.getElem?_eq_some_iff.1 hline
  simp [hi]

/-- The order of the targets does not matter. -/
theorem FirstGone.congr {targets targets' : List String} (h : FirstGone base targets kept)
    (hcount : ∀ line, targets.count line = targets'.count line) :
    FirstGone base targets' kept := by
  intro i line hline hblank
  rw [h i line hline hblank, hcount]

/-- What is left when a stretch is taken out. -/
theorem mem_take_append_drop {m n k : Nat} :
    k ∈ kept.take m ++ kept.drop n ↔ ∃ l, kept[l]? = some k ∧ (l < m ∨ n ≤ l) := by
  rw [List.mem_append]
  constructor
  · rintro (hk | hk)
    · obtain ⟨l, hl⟩ := List.mem_iff_getElem?.1 hk
      rw [List.getElem?_take] at hl
      split at hl
      · rename_i hlt
        exact ⟨l, hl, .inl hlt⟩
      · cases hl
    · obtain ⟨l, hl⟩ := List.mem_iff_getElem?.1 hk
      rw [List.getElem?_drop] at hl
      exact ⟨n + l, hl, .inr (Nat.le_add_right n l)⟩
  · rintro ⟨l, hl, hlt | hle⟩
    · left
      exact List.mem_of_getElem? ((List.getElem?_take_of_lt hlt).trans hl)
    · right
      refine List.mem_of_getElem? (i := l - n) ?_
      rwa [List.getElem?_drop, Nat.add_sub_cancel' hle]

/-- The places that are left when a line is deleted together with the blank lines around it: of the
places of lines that are not blank, all but its own. -/
theorem Leaves.delete (h : Leaves base text kept) (hj : text[j]? = some target)
    (hi : kept[j]? = some i) :
    ∃ kept', Leaves base (LineEdit.delete.applyAt text j) kept' ∧
      ∀ k line, base[k]? = some line → Text.isBlankLine line = false →
        (k ∈ kept' ↔ k ∈ kept ∧ k ≠ i) := by
  have hlt : j < text.length := (List.getElem?_eq_some_iff.1 hj).1
  have hrun := blankRun_le text j
  refine ⟨_, h.cut (show j - blankRun text j ≤ j + blankRun text j + 1 by omega), ?_⟩
  intro k line hline hblank
  rw [mem_take_append_drop]
  constructor
  · rintro ⟨m, hm, hout⟩
    refine ⟨List.mem_of_getElem? hm, ?_⟩
    rintro rfl
    have hle := h.lt_iff hm hi
    have hge := h.lt_iff hi hm
    omega
  · rintro ⟨hk, hne⟩
    obtain ⟨m, hm⟩ := List.mem_iff_getElem?.1 hk
    refine ⟨m, hm, ?_⟩
    by_cases hlow : m < j - blankRun text j
    · exact .inl hlow
    · by_cases hhigh : j + blankRun text j + 1 ≤ m
      · exact .inr hhigh
      · -- Between the two all other lines are blank.
        have hmj : m ≠ j := by
          rintro rfl
          rw [hi] at hm
          exact hne (Option.some.inj hm).symm
        have hat : text[m]? = some line := by rw [← h.getElem? hm, hline]
        rw [isBlankLine_of_blankRun hlt (by omega) (by omega) hmj hat] at hblank
        cases hblank

/-- The first line with a text that is left has as many equal lines above it as are gone. -/
theorem FirstGone.count_above {targets : List String} (hgone : FirstGone base targets kept)
    (h : Leaves base text kept) (hfirst : text.findIdx? (· == target) = some j)
    (hi : kept[j]? = some i) (hblank : Text.isBlankLine target = false) :
    (base.take i).count target = targets.count target := by
  obtain ⟨hj, hlast, hbefore⟩ := List.findIdx?_eq_some_iff_getElem.1 hfirst
  have hline : base[i]? = some target := by
    rw [h.getElem? hi, List.getElem?_eq_getElem hj, Option.some.injEq]
    simpa using hlast
  have hle := (hgone i target hline hblank).1 (List.mem_of_getElem? hi)
  refine Nat.le_antisymm (Nat.le_of_not_lt ?_) hle
  intro hlt
  -- Otherwise the equal line above it would be left as well, and come first.
  obtain ⟨k, hk, hkline, hcount⟩ := exists_above (show 0 < (base.take i).count target by omega)
  have hkept := (hgone k target hkline hblank).2 (by omega)
  obtain ⟨m, hm⟩ := List.mem_iff_getElem?.1 hkept
  have hmj := (h.lt_iff hm hi).1 hk
  have hat : text[m]? = some target := by rw [← h.getElem? hm, hkline]
  obtain ⟨hm', heq⟩ := List.getElem?_eq_some_iff.1 hat
  have hnot := hbefore m hmj
  simp [heq] at hnot

/-- Where no line with a text is left, one more deletion of it takes none. -/
theorem FirstGone.of_absent {targets : List String} (hgone : FirstGone base targets kept)
    (h : Leaves base text kept) (habsent : target ∉ text) :
    FirstGone base (target :: targets) kept := by
  intro k line hline hblank
  rw [hgone k line hline hblank, List.count_cons]
  split
  · rename_i heq
    rw [beq_iff_eq] at heq
    subst heq
    -- None of the lines with this text is left.
    have hnone : ¬ targets.count target ≤ (base.take k).count target := by
      intro hle
      obtain ⟨m, hm⟩ := List.mem_iff_getElem?.1 ((hgone k target hline hblank).2 hle)
      have hat : text[m]? = some target := by rw [← h.getElem? hm, hline]
      exact habsent (List.mem_of_getElem? hat)
    omega
  · rw [Nat.add_zero]

/-- The first line with a text is taken. -/
theorem FirstGone.of_first {targets : List String} (hgone : FirstGone base targets kept)
    (h : Leaves base text kept) (hfirst : text.findIdx? (· == target) = some j) :
    ∃ kept', Leaves base (LineEdit.delete.applyAt text j) kept' ∧
      FirstGone base (target :: targets) kept' := by
  obtain ⟨hj, hlast, -⟩ := List.findIdx?_eq_some_iff_getElem.1 hfirst
  have htext : text[j]? = some target := by
    rw [List.getElem?_eq_getElem hj, Option.some.injEq]
    simpa using hlast
  obtain ⟨i, hi⟩ : ∃ i, kept[j]? = some i :=
    ⟨_, List.getElem?_eq_getElem (by rw [h.length_eq]; exact hj)⟩
  have hbase : base[i]? = some target := by rw [h.getElem? hi, htext]
  obtain ⟨kept', h', hkept'⟩ := h.delete htext hi
  refine ⟨kept', h', ?_⟩
  intro k line hline hblank
  rw [hkept' k line hline hblank, hgone k line hline hblank, List.count_cons]
  split
  · rename_i heq
    rw [beq_iff_eq] at heq
    subst heq
    -- The line taken is the one with all that are gone above it.
    have habove := hgone.count_above h hfirst hi hblank
    constructor
    · rintro ⟨hle, hne⟩
      rcases Nat.lt_or_gt_of_ne hne with hki | hik
      · have hlt := count_take_lt hline hki
        omega
      · have hlt := count_take_lt hbase hik
        omega
    · intro hle
      refine ⟨by omega, ?_⟩
      rintro rfl
      omega
  · rename_i hneq
    rw [Nat.add_zero]
    apply and_iff_left_of_imp
    rintro - rfl
    rw [hbase, Option.some.injEq] at hline
    simp [hline] at hneq

/-- **One more deletion takes the first equal line that is left.** -/
theorem FirstGone.deleteLine {targets : List String} (hgone : FirstGone base targets kept)
    (h : Leaves base text kept) (target : String) :
    ∃ kept', Leaves base (deleteLine text target) kept' ∧
      FirstGone base (target :: targets) kept' := by
  rw [Upkeep.deleteLine]
  cases hfirst : text.findIdx? (· == target) with
  | none =>
      refine ⟨kept, h, hgone.of_absent h ?_⟩
      intro hmem
      have hnot := List.findIdx?_eq_none_iff.1 hfirst _ hmem
      simp at hnot
  | some j => exact hgone.of_first h hfirst

end Upkeep
