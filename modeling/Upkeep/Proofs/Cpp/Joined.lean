/-
**Include directives of joined texts.**

The scan for include directives looks at each line where it begins, so one would expect that the directives
of two texts with a line feed between them are those of the one and then those of the other.  But the name of
a directive ends at the next quote, on whatever line this is.  A text may leave a name open at its end: what
follows goes into the name then, up to the first quote, with all the directives that stand there.  Nothing
else reaches over the end of a line.

Main definitions:

* `Upkeep.Cpp.LeavesOpen` — texts that leave a name open at their end.

Main results:

* `Upkeep.Cpp.includesFrom_closed`, `Upkeep.Cpp.LeavesOpen.includesFrom` — the directives of a text that goes
  on behind a line feed;
* `Upkeep.Cpp.LeavesOpen.exists_line` — a name is left open only by a line that opens one and does not close
  it;
* `Upkeep.Cpp.quotedIncludes_joined` — **the directives of joined texts**.
-/

import Upkeep.Proofs.Cpp.Directives

set_option relaxedAutoImplicit false
set_option autoImplicit false

namespace Upkeep

namespace Cpp

variable {s t h r name rest : List Char} {c : Char} {atStart : Bool}

/-! ### Texts with few quotes -/

/-- A directive has two quotes. -/
theorem two_le_count_of_directive? {d : List Char × List Char} (hd : directive? s = some d) :
    2 ≤ s.count '"' := by
  obtain ⟨h, hh, rfl, -, -⟩ := directive?_eq_some_iff.1 hd
  rw [List.count_append, hh.count_quote, List.count_append, List.count_cons_self]
  omega

theorem includesFrom_of_directiveAt? (hd : directiveAt? atStart s = some (name, rest)) :
    includesFrom atStart s = name :: includesFrom false rest := by
  cases s with
  | nil =>
      have htwo := two_le_count_of_directive? (directive?_of_directiveAt? hd)
      simp at htwo
  | cons c s => exact includesFrom_of_some hd

/-- There is no directive in a text with less than two quotes. -/
theorem includesFrom_of_count_le_one (hs : s.count '"' ≤ 1) : includesFrom atStart s = [] := by
  induction atStart, s using scan_induction with
  | done atStart => exact includesFrom_nil atStart
  | found atStart c t name rest hd ih =>
      have htwo := two_le_count_of_directive? (directive?_of_directiveAt? hd)
      omega
  | passed atStart c t hd ih =>
      rw [includesFrom_of_none hd]
      refine ih (Nat.le_trans ?_ hs)
      exact (List.sublist_cons_self c t).count_le '"'

/-! ### Texts that go on -/

/-- A directive stays what it is when the text goes on. -/
theorem directiveAt?_append (hd : directiveAt? atStart s = some (name, rest)) (t : List Char) :
    directiveAt? atStart (s ++ t) = some (name, rest ++ t) := by
  rw [directiveAt?, if_pos (atStart_of_directiveAt? hd)]
  obtain ⟨h, hh, rfl, hquote, hne⟩ := directive?_eq_some_iff.1 (directive?_of_directiveAt? hd)
  exact directive?_eq_some_iff.2 ⟨h, hh, by simp, hquote, hne⟩

/-- Where no name is opened, or one that ends, none begins because the text goes on behind a line feed. -/
theorem directiveAt?_append_feed (hd : directiveAt? atStart s = none)
    (hclosed : atStart = true → ∀ h r, IsOpening h → s = h ++ r → '"' ∈ r) (b : List Char) :
    directiveAt? atStart (s ++ '\n' :: b) = none := by
  cases hat : directiveAt? atStart (s ++ '\n' :: b) with
  | none => rfl
  | some d =>
      have hstart := atStart_of_directiveAt? hat
      obtain ⟨h, hh, heq, hquote, hne⟩ := directive?_eq_some_iff.1 (directive?_of_directiveAt? hat)
      rcases List.append_eq_append_iff.1 heq with ⟨gap, rfl, hgap⟩ | ⟨gap, rfl, hgap⟩
      · -- The beginning would have to go over the line feed.
        cases gap with
        | nil => exact absurd (hclosed hstart _ [] hh (by simp)) List.not_mem_nil
        | cons c gap =>
            obtain ⟨rfl, -⟩ := List.cons.inj hgap
            exact absurd (by simp) hh.lineFeed_not_mem
      · obtain ⟨front, back, rfl, hfront⟩ := List.eq_append_cons_of_mem (hclosed hstart h gap hh rfl)
        -- The name ends in front of the line feed, and is one without what follows.
        rw [List.append_assoc, List.cons_append] at hgap
        obtain ⟨hname, -⟩ := Text.append_cons_inj hquote hfront hgap
        have hfound : directive? (h ++ (front ++ '"' :: back)) = some (front, back) :=
          directive?_eq_some_iff.2 ⟨h, hh, rfl, hfront, hname ▸ hne⟩
        rw [directiveAt?, if_pos hstart, hfound] at hd
        cases hd

/-- The scan of a text leaves a name open at its end: it opens one at the start of a line and finds no quote
behind it. -/
inductive LeavesOpen : (atStart : Bool) → (text name : List Char) → Prop
  /-- The name is opened here. -/
  | here {s h r : List Char} : IsOpening h → '"' ∉ r → s = h ++ r → LeavesOpen true s r
  /-- The name is opened behind a directive. -/
  | behind {atStart : Bool} {s name rest r : List Char} :
      directiveAt? atStart s = some (name, rest) → LeavesOpen false rest r → LeavesOpen atStart s r
  /-- The name is opened behind a character that begins no directive. -/
  | passed {atStart : Bool} {c : Char} {s r : List Char} :
      directiveAt? atStart (c :: s) = none → LeavesOpen (c == '\n') s r → LeavesOpen atStart (c :: s) r

/-- **The directives of a text that leaves no name open**, and goes on behind a line feed. -/
theorem includesFrom_closed (hs : ∀ r, ¬LeavesOpen atStart s r) (b : List Char) :
    includesFrom atStart (s ++ '\n' :: b) = includesFrom atStart s ++ includesFrom true b := by
  induction atStart, s using scan_induction with
  | done atStart =>
      have hnone : directiveAt? atStart ('\n' :: b) = none := by
        refine directiveAt?_append_feed (s := []) (by cases atStart <;> rfl) ?_ b
        intro _ h r hh hr
        obtain ⟨rfl, -⟩ := List.append_eq_nil_iff.1 hr.symm
        exact absurd hh.quote_mem List.not_mem_nil
      rw [List.nil_append, includesFrom_of_none hnone, includesFrom_nil]
      rfl
  | found atStart c t name rest hd ih =>
      rw [includesFrom_of_directiveAt? (directiveAt?_append hd _), includesFrom_of_some hd,
        ih fun r hr => hs r (.behind hd hr), List.cons_append]
  | passed atStart c t hd ih =>
      have hclosed : atStart = true → ∀ h r, IsOpening h → c :: t = h ++ r → '"' ∈ r := by
        rintro rfl h r hh hr
        by_contra hquote
        exact hs r (.here hh hquote hr)
      have hnone := directiveAt?_append_feed hd hclosed b
      rw [List.cons_append] at hnone ⊢
      rw [includesFrom_of_none hnone, includesFrom_of_none hd, ih fun r hr => hs r (.passed hd hr)]

/-- A name is opened at the start of a line. -/
theorem LeavesOpen.exists_opening (hopen : LeavesOpen atStart s r) : '"' ∉ r ∧ ∃ front h,
    IsOpening h ∧ s = front ++ (h ++ r) ∧ (front = [] ∧ atStart = true ∨ ∃ init, front = init ++ ['\n']) := by
  induction hopen with
  | here hh hr hs => exact ⟨hr, [], _, hh, hs, .inl ⟨rfl, rfl⟩⟩
  | behind hd _ ih =>
      obtain ⟨hr, front, h, hh, rfl, hfront⟩ := ih
      obtain ⟨taken, rfl⟩ := directive?_suffix (directive?_of_directiveAt? hd)
      refine ⟨hr, taken ++ front, h, hh, (List.append_assoc ..).symm, .inr ?_⟩
      rcases hfront with ⟨-, hfalse⟩ | ⟨init, rfl⟩
      · cases hfalse
      · exact ⟨taken ++ init, (List.append_assoc ..).symm⟩
  | @passed _ c _ _ _ _ ih =>
      obtain ⟨hr, front, h, hh, rfl, hfront⟩ := ih
      refine ⟨hr, c :: front, h, hh, rfl, .inr ?_⟩
      rcases hfront with ⟨rfl, hfeed⟩ | ⟨init, rfl⟩
      · exact ⟨[], by rw [beq_iff_eq.1 hfeed]; rfl⟩
      · exact ⟨c :: init, rfl⟩

/-- In front of the name that is left open no other one is. -/
theorem LeavesOpen.closed_in_front (hopen : LeavesOpen (c == '\n') s r) (hh : IsOpening h)
    (hs : c :: s = h ++ t) : '"' ∈ t := by
  obtain ⟨-, front, h', hh', rfl, hfront⟩ := hopen.exists_opening
  have hfeed : '\n' ∈ c :: front := by
    rcases hfront with ⟨-, hc⟩ | ⟨init, rfl⟩
    · rw [beq_iff_eq.1 hc]
      exact List.mem_cons_self
    · simp
  rw [← List.cons_append] at hs
  rcases List.append_eq_append_iff.1 hs with ⟨gap, rfl, -⟩ | ⟨gap, -, rfl⟩
  · exact absurd (List.mem_append_left gap hfeed) hh.lineFeed_not_mem
  · exact List.mem_append_right _ (List.mem_append_left _ hh'.quote_mem)

/-- **The directives of a text that leaves a name open**, and goes on behind a line feed: what follows is
scanned from where the name is opened. -/
theorem LeavesOpen.includesFrom (hopen : LeavesOpen atStart s r) : ∃ h, IsOpening h ∧ ∀ b,
    includesFrom atStart (s ++ '\n' :: b) =
      Cpp.includesFrom atStart s ++ Cpp.includesFrom true (h ++ (r ++ '\n' :: b)) := by
  induction hopen with
  | @here s h r hh hr hs =>
      refine ⟨h, hh, fun b => ?_⟩
      have hcount : s.count '"' ≤ 1 := by
        rw [hs, List.count_append, hh.count_quote, List.count_eq_zero.2 hr]
      rw [includesFrom_of_count_le_one hcount, List.nil_append, hs, List.append_assoc]
  | behind hd _ ih =>
      obtain ⟨h, hh, ih⟩ := ih
      refine ⟨h, hh, fun b => ?_⟩
      rw [includesFrom_of_directiveAt? (directiveAt?_append hd _), includesFrom_of_directiveAt? hd, ih b,
        List.cons_append]
  | passed hd hopen ih =>
      obtain ⟨h, hh, ih⟩ := ih
      refine ⟨h, hh, fun b => ?_⟩
      have hnone := directiveAt?_append_feed hd (fun _ h t hh ht => hopen.closed_in_front hh ht) b
      rw [List.cons_append] at hnone ⊢
      rw [includesFrom_of_none hnone, includesFrom_of_none hd, ih b]

/-- **A name is left open only by a line** that opens it and has no other quote. -/
theorem LeavesOpen.exists_line (hopen : LeavesOpen atStart s r) :
    ∃ line ∈ Text.segments (· == '\n') s, ∃ h t, IsOpening h ∧ line = h ++ t ∧ '"' ∉ t := by
  obtain ⟨hr, front, h, hh, rfl, hfront⟩ := hopen.exists_opening
  have hline : ∃ line ∈ Text.segments (· == '\n') (h ++ r), ∃ t, line = h ++ t ∧ '"' ∉ t := by
    by_cases hfeed : '\n' ∈ r
    · obtain ⟨t, back, rfl, ht⟩ := List.eq_append_cons_of_mem hfeed
      rw [← List.append_assoc, Text.segments_append_cons (by simp [hh.lineFeed_not_mem, ht])]
      exact ⟨h ++ t, List.mem_cons_self, t, rfl, fun hmem => hr (List.mem_append_left _ hmem)⟩
    · rw [Text.segments_of_ne (by simp [hh.lineFeed_not_mem, hfeed])]
      exact ⟨h ++ r, List.mem_cons_self, r, rfl, hr⟩
  obtain ⟨line, hmem, t, hline, ht⟩ := hline
  refine ⟨line, ?_, h, t, hh, hline, ht⟩
  rcases hfront with ⟨rfl, -⟩ | ⟨init, rfl⟩
  · exact hmem
  · rw [List.append_assoc, List.singleton_append, Text.segments_append (by simp)]
    exact List.mem_append_right _ hmem

/-! ### Joined texts -/

theorem toList_joined (a b : String) : (a ++ "\n" ++ b).toList = a.toList ++ '\n' :: b.toList := by
  simp [String.toList_append]

theorem quotedIncludes_of_quote_not_mem {text : String} (h : '"' ∉ text.toList) :
    quotedIncludes text = [] := by
  rw [quotedIncludes, includesFrom_of_count_le_one (by rw [List.count_eq_zero.2 h]; exact Nat.zero_le 1)]
  rfl

section

variable {a : String} (hopen : LeavesOpen true a.toList r)
include hopen

/-- A name that is left open and never ends hides nothing. -/
theorem quotedIncludes_of_never_closed {b : String} (hb : '"' ∉ b.toList) :
    quotedIncludes (a ++ "\n" ++ b) = quotedIncludes a ++ quotedIncludes b := by
  obtain ⟨h, hh, hlaw⟩ := hopen.includesFrom
  have hcount : (h ++ (r ++ '\n' :: b.toList)).count '"' ≤ 1 := by
    rw [List.count_append, hh.count_quote, List.count_eq_zero.2 (by simp [hopen.exists_opening.1, hb])]
  rw [quotedIncludes_of_quote_not_mem hb, quotedIncludes, toList_joined, hlaw,
    includesFrom_of_count_le_one hcount, List.append_nil, List.append_nil]
  rfl

/-- What follows goes into a name that is left open, up to the first quote. -/
theorem quotedIncludes_of_closed_later {front : String} (hfront : '"' ∉ front.toList) (back : String) :
    quotedIncludes (a ++ "\n" ++ (front ++ "\"" ++ back)) = quotedIncludes a ++
      (String.ofList r ++ "\n" ++ front) :: (includesFrom false back.toList).map String.ofList := by
  obtain ⟨h, hh, hlaw⟩ := hopen.includesFrom
  have hd : directiveAt? true (h ++ (r ++ '\n' :: (front.toList ++ '"' :: back.toList))) =
      some (r ++ '\n' :: front.toList, back.toList) :=
    directive?_eq_some_iff.2 ⟨h, hh, by simp, by simp [hopen.exists_opening.1, hfront], by simp⟩
  have hname : String.ofList (r ++ '\n' :: front.toList) = String.ofList r ++ "\n" ++ front := by
    rw [← String.toList_inj, toList_joined, String.toList_ofList, String.toList_ofList]
  have htext : (front ++ "\"" ++ back).toList = front.toList ++ '"' :: back.toList := by
    simp [String.toList_append]
  rw [quotedIncludes, toList_joined, htext, hlaw, includesFrom_of_directiveAt? hd, List.map_append,
    List.map_cons, hname]
  rfl

end

/-- **The directives of joined texts** are those of the one and then those of the other, whatever the other
is, exactly if the first text leaves no name open.  If it does, this still holds where no quote follows;
otherwise what follows goes into the name, up to the first quote, and the scan goes on behind it.  A name is
left open only by a line that opens it and has no other quote. -/
theorem quotedIncludes_joined (a : String) :
    ((∀ b, quotedIncludes (a ++ "\n" ++ b) = quotedIncludes a ++ quotedIncludes b) ↔
      ∀ r, ¬LeavesOpen true a.toList r) ∧
    (∀ r b, LeavesOpen true a.toList r → '"' ∉ b.toList →
      quotedIncludes (a ++ "\n" ++ b) = quotedIncludes a ++ quotedIncludes b) ∧
    (∀ r front back, LeavesOpen true a.toList r → '"' ∉ front.toList →
      quotedIncludes (a ++ "\n" ++ (front ++ "\"" ++ back)) = quotedIncludes a ++
        (String.ofList r ++ "\n" ++ front) :: (includesFrom false back.toList).map String.ofList) ∧
    ∀ r, LeavesOpen true a.toList r → ∃ line ∈ Text.segments (· == '\n') a.toList,
      ∃ h t, IsOpening h ∧ line = h ++ t ∧ '"' ∉ t := by
  refine ⟨⟨fun h r hopen => ?_, fun hclosed b => ?_⟩,
    fun r b hopen hb => quotedIncludes_of_never_closed hopen hb,
    fun r front back hopen hfront => quotedIncludes_of_closed_later hopen hfront back,
    fun r hopen => hopen.exists_line⟩
  · -- A quote alone is no directive, but it ends the name.
    have hlater := quotedIncludes_of_closed_later hopen (show '"' ∉ "".toList by simp) ""
    rw [h, List.append_cancel_left_eq, quotedIncludes] at hlater
    have hquote : includesFrom true ("" ++ "\"" ++ "").toList = [] :=
      includesFrom_of_count_le_one (by decide)
    rw [hquote] at hlater
    cases hlater
  · rw [quotedIncludes, toList_joined, includesFrom_closed hclosed, List.map_append]
    rfl

/-- A text whose last line leaves a name open. -/
def openAtEnd : String := "# include \"a.h\"\n#include \"b.h"

theorem leavesOpen_openAtEnd : LeavesOpen true openAtEnd.toList "b.h".toList := by
  have hfirst : directiveAt? true openAtEnd.toList = some ("a.h".toList, "\n#include \"b.h".toList) := by
    decide +kernel
  have hopening : IsOpening "#include \"".toList :=
    ⟨[], [], [' '], by simp, by simp, by simp [isPad], by decide⟩
  refine .behind hfirst (.passed (c := '\n') (s := "#include \"b.h".toList) rfl ?_)
  exact .here hopening (by decide) (by decide)

/-- The name that is left open takes in the next line, up to the quote that should begin the name there, and
the scan goes on behind it; a text whose only name ends leaves the next line alone. -/
theorem quotedIncludes_joined_openAtEnd :
    (LeavesOpen true openAtEnd.toList "b.h".toList ∧ '"' ∉ "#include ".toList ∧
      quotedIncludes (openAtEnd ++ "\n" ++ ("#include " ++ "\"" ++ "c.h\"\n#include \"d.h\"")) =
        ["a.h", "b.h\n#include ", "d.h"]) ∧
    (∀ r, ¬LeavesOpen true "#include \"a.h\"".toList r) ∧
      quotedIncludes ("#include \"a.h\"" ++ "\n" ++ "#include \"c.h\"") = ["a.h", "c.h"] := by
  have hfront : '"' ∉ "#include ".toList := by decide
  obtain ⟨-, -, hlater, -⟩ := quotedIncludes_joined openAtEnd
  obtain ⟨hiff, -, -, hline⟩ := quotedIncludes_joined "#include \"a.h\""
  have hclosed : ∀ r, ¬LeavesOpen true "#include \"a.h\"".toList r := by
    intro r hopen
    obtain ⟨line, hmem, h, t, hh, rfl, ht⟩ := hline r hopen
    -- The only line has two quotes.
    have htwo : (h ++ t).count '"' = 2 := by
      rw [List.mem_singleton.1 (show h ++ t ∈ ["#include \"a.h\"".toList] from hmem)]
      decide
    rw [List.count_append, hh.count_quote, List.count_eq_zero.2 ht] at htwo
    cases htwo
  refine ⟨⟨leavesOpen_openAtEnd, hfront, ?_⟩, hclosed, ?_⟩
  · rw [hlater _ "#include " "c.h\"\n#include \"d.h\"" leavesOpen_openAtEnd hfront]
    decide +kernel
  · rw [hiff.2 hclosed]
    decide +kernel

/-- **A directive can be lost behind a line that leaves a name open.** -/
theorem directive_lost_in_name : ¬∀ a b : String,
    quotedIncludes (a ++ "\n" ++ b) = quotedIncludes a ++ quotedIncludes b := by
  intro h
  have hlost := h "#include \"a.h" "#include \"b.h\""
  revert hlost
  decide +kernel

end Cpp

end Upkeep
