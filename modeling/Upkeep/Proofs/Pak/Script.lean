/-
**The braces and keywords of scripts.**

No brace outside comments is lost on the way from the bytes to the tokens: a run that is the name of a
file, a word, and what is passed over all end in front of the next brace.  So a census knows the braces
from counting, whatever else stands in the script.  Whether words outside braces count does not matter
to the braces, and only adds to the keywords.

Main definitions:

* `Upkeep.Pak.Script.Census.level` — what a census knows from counting braces;
* `Upkeep.Pak.Script.Census.Under` — a census beside one of the same tokens in which more words count.

Main results:

* `Upkeep.Pak.Script.braces_tokens` — the braces among the tokens are those of the text;
* `Upkeep.Pak.Script.Census.Under.count`, `Upkeep.Pak.Script.Census.Under.foldl_count` — one token, and
  all tokens, keep a census under the other;
* `Upkeep.Pak.Script.keywords_braces` — **what a census says of the braces, and which words count**.
-/

import Upkeep.Proofs.Pak.Braces
import Upkeep.Proofs.Pak.Counts

set_option relaxedAutoImplicit false
set_option autoImplicit false

namespace Upkeep

namespace Pak

namespace Script

/-! ### Braces among tokens -/

/-- The brace that a token is. -/
def Token.brace? : Token → Option UInt8
  | .opening => some openBrace
  | .closing => some closeBrace
  | .file _ => none
  | .word _ => none

/-- A brace is no part of a name or a word. -/
theorem not_part_of_isBrace {b : UInt8} (h : isBrace b = true) :
    isNameByte b = false ∧ isWordByte b = false ∧ isLetterByte b = false := by
  rw [isBrace, Bool.or_eq_true, beq_iff_eq, beq_iff_eq] at h
  rcases h with rfl | rfl
  · decide
  · decide

theorem braces_cons_of_not {b : UInt8} (hb : isBrace b = false) (t : List UInt8) :
    braces (b :: t) = braces t := List.filter_cons_of_neg (by simp [hb])

/-- What is passed over without braces loses none. -/
theorem braces_dropWhile {p : UInt8 → Bool} (hp : ∀ b, isBrace b = true → p b = false)
    (t : List UInt8) : braces (t.dropWhile p) = braces t := by
  have htaken : (t.takeWhile p).filter isBrace = [] := by
    rw [List.filter_eq_nil_iff]
    intro b hb hbrace
    have := List.all_eq_true.1 List.all_takeWhile b hb
    rw [hp b hbrace] at this
    cases this
  conv_rhs => rw [← List.takeWhile_append_dropWhile (p := p) (l := t)]
  rw [braces, braces, List.filter_append, htaken, List.nil_append]

/-- **The braces among the tokens are those of the text**, in order. -/
theorem braces_tokens (t : List UInt8) : (tokens t).filterMap Token.brace? = braces t := by
  fun_induction tokens t with
  | case1 => rfl
  | case2 b t hb ih =>
      rw [beq_iff_eq] at hb
      rw [hb, List.filterMap_cons, ih]
      rfl
  | case3 b t _ hb ih =>
      rw [beq_iff_eq] at hb
      rw [hb, List.filterMap_cons, ih]
      rfl
  | case4 b t hopen hclose _ _ ih =>
      rw [List.filterMap_cons, ih, braces_dropWhile fun b hb => (not_part_of_isBrace hb).1,
        braces_cons_of_not (by simp [isBrace, hopen, hclose])]
      rfl
  | case5 b t hopen hclose _ _ _ ih =>
      rw [List.filterMap_cons, ih, braces_dropWhile fun b hb => (not_part_of_isBrace hb).2.1,
        braces_cons_of_not (by simp [isBrace, hopen, hclose])]
      rfl
  | case6 b t hopen hclose _ _ ih =>
      rw [ih, braces_cons_of_not (by simp [isBrace, hopen, hclose])]

/-! ### The level of a census -/

section Level

variable (d : Bool) (c : Census)

/-- What a census knows from counting braces. -/
def Census.level : Level := ⟨c.depth, c.unexpectedClose⟩

/-- A token that is a brace counts as it, and no other changes the level. -/
theorem level_count (t : Token) :
    (count d c t).level = t.brace?.toList.foldl Level.step c.level := by
  cases t with
  | opening => rfl
  | closing =>
      rw [count, Token.brace?, Option.toList_some, List.foldl_cons, List.foldl_nil, Level.step_closing]
      split
      · rename_i hzero
        rw [if_pos (show c.level.depth = 0 from hzero), Census.level, hzero]
      · rename_i hzero
        rw [if_neg (show c.level.depth ≠ 0 from hzero)]
        rfl
  | file _ => rfl
  | word w =>
      rw [count]
      split
      · rfl
      · rfl

theorem level_foldl_count (ts : List Token) :
    (ts.foldl (count d) c).level = (ts.filterMap Token.brace?).foldl Level.step c.level := by
  induction ts generalizing c with
  | nil => rfl
  | cons t ts ih =>
      rw [List.foldl_cons, ih, level_count]
      cases t <;> rfl

/-- A census knows the braces of its script from counting them. -/
theorem level_keywords (s : List UInt8) :
    (keywords s d).level = (braces (stripComments s)).foldl Level.step .zero := by
  rw [keywords, level_foldl_count, braces_tokens]
  rfl

end Level

/-! ### Words outside braces -/

/-- The keyword that a token is at a depth. -/
def Token.keyword? (anyDepth : Bool) (depth : Nat) : Token → Option String
  | .word w => if (anyDepth || 0 < depth) && 1 < w.length then some (keywordText w) else none
  | _ => none

/-- What is a keyword inside braces is one anywhere if words outside braces count. -/
theorem Token.keyword?_anyDepth {t : Token} {m n : Nat} {w : String}
    (h : t.keyword? false m = some w) : t.keyword? true n = some w := by
  cases t with
  | word v =>
      rw [Token.keyword?] at h ⊢
      split at h
      · rename_i hcounts
        rw [Bool.and_eq_true] at hcounts
        rw [if_pos (by simpa using hcounts.2), h]
      · cases h
  | opening => cases h
  | closing => cases h
  | file _ => cases h

theorem keywords_count (d : Bool) (c : Census) (t : Token) :
    (count d c t).keywords = (t.keyword? d c.depth).toList.foldl Counts.add c.keywords := by
  cases t with
  | opening => rfl
  | closing =>
      rw [count]
      split
      · rfl
      · rfl
  | file _ => rfl
  | word w =>
      rw [count, Token.keyword?]
      split
      · rfl
      · rfl

/-- A census beside one of the same tokens in which more words count: both know the same of the braces,
and no keyword has a higher number. -/
structure Census.Under (c c' : Census) : Prop where
  level : c.level = c'.level
  proper : c.keywords.Proper
  proper' : c'.keywords.Proper
  le : ∀ w, c.keywords.of w ≤ c'.keywords.of w

namespace Census.Under

variable {c c' : Census}

/-- One more token keeps a census under the other. -/
theorem count (h : c.Under c') (t : Token) :
    (Script.count false c t).Under (Script.count true c' t) where
  level := by rw [level_count, level_count, h.level]
  proper := by
    rw [keywords_count]
    exact h.proper.foldl_add _
  proper' := by
    rw [keywords_count]
    exact h.proper'.foldl_add _
  le w := by
    rw [keywords_count, keywords_count, h.proper.of_foldl_add, h.proper'.of_foldl_add]
    have hle := h.le w
    cases hkeyword : t.keyword? false c.depth with
    | none => exact Nat.le_add_right_of_le hle
    | some v =>
        rw [Token.keyword?_anyDepth hkeyword]
        exact Nat.add_le_add_right hle _

theorem foldl_count (h : c.Under c') (ts : List Token) :
    (ts.foldl (Script.count false) c).Under (ts.foldl (Script.count true) c') := by
  induction ts generalizing c c' with
  | nil => exact h
  | cons t ts ih => exact ih (h.count t)

end Census.Under

theorem under_keywords (s : List UInt8) : (keywords s false).Under (keywords s true) :=
  Census.Under.foldl_count ⟨rfl, .nil, .nil, fun _ => Nat.le_refl _⟩ _

/-- **What a census says of the braces, and which words count.**  Of the text without comments: nothing
is noted exactly if the braces are nested; something is left open exactly if an opening brace has no
partner, and something was closed that was not open exactly if a closing brace has none.  All this is so
whether or not words outside braces count; if they do, no keyword counts less. -/
theorem keywords_braces (s : List UInt8) :
    (∀ d, ((keywords s d).unexpectedClose = false ∧ (keywords s d).unclosed = false ↔
        Balanced (braces (stripComments s))) ∧
      ((keywords s d).unclosed = true ↔
        ∃ i, (stripComments s)[i]? = some openBrace ∧ ∀ j, partner? (stripComments s) j ≠ some i) ∧
      ((keywords s d).unexpectedClose = true ↔
        ∃ j, (stripComments s)[j]? = some closeBrace ∧ partner? (stripComments s) j = none)) ∧
    (keywords s false).unclosed = (keywords s true).unclosed ∧
    (keywords s false).unexpectedClose = (keywords s true).unexpectedClose ∧
    ∀ w, (keywords s false).keywords.of w ≤ (keywords s true).keywords.of w := by
  have hunder := under_keywords s
  have hdepth := congrArg Level.depth hunder.level
  refine ⟨fun d => ?_, congrArg (· != 0) hdepth, congrArg Level.surplus hunder.level, hunder.le⟩
  have hlevel := level_keywords d s
  have hdepth : (keywords s d).depth = _ := congrArg Level.depth hlevel
  have hsurplus : (keywords s d).unexpectedClose = _ := congrArg Level.surplus hlevel
  refine ⟨?_, ?_, ?_⟩
  · rw [balanced_iff, ← hlevel, Census.level, Level.zero, Level.mk.injEq, Census.unclosed]
    simp [and_comm]
  · rw [← depth_ne_zero_iff, ← hdepth, Census.unclosed, bne_iff_ne]
  · rw [← surplus_iff, ← hsurplus]

end Script

end Pak

end Upkeep
