/-
**What the check of the precompiled header guarantees.**

Nothing is wrong in a text when the first of the lines that hold the directive names the header and no other
of them does.  Such a line need not be a quoted include directive: angle brackets and comments count as well.
A quoted directive that is written in one piece does stand on such a line, so it names the header exactly if
it stands on the first of them.

Main definitions:

* `Upkeep.Audit.NamesHeader` — a line names the header.

Main results:

* `Upkeep.Audit.misuse?_eq_none_iff` — **when nothing is wrong**;
* `Upkeep.Audit.quoted_directives_of_checked` — **what this says of the quoted include directives**.
-/

import Upkeep.Audit.Precompiled
import Upkeep.Proofs.Cpp.Directives
import Upkeep.Proofs.Text.Words

set_option relaxedAutoImplicit false
set_option autoImplicit false

namespace Upkeep

namespace Audit

/-- The name of the header stands in a line behind a word boundary, in any case. -/
def NamesHeader (header line : String) : Prop :=
  Text.StandsBehind (Text.lowerChars header.toList) none (Text.lowerChars line.toList)

theorem namesHeader_iff {header line : String} : namesHeader header line = true ↔ NamesHeader header line :=
  Text.standsBehindBoundary_iff

instance (header line : String) : Decidable (NamesHeader header line) := decidable_of_iff _ namesHeader_iff

variable {header text : String} {lines : List String}

theorem misuseOf_eq_none_iff {hits : List Nat} : misuseOf hits = none ↔ hits = [0] := by
  match hits with
  | [] => simp [misuseOf]
  | [0] => simp [misuseOf]
  | [n + 1] => simp [misuseOf]
  | n :: m :: hits => simp [misuseOf]

/-- Of numbered lines the first one alone is chosen. -/
theorem chosen_eq_singleton_iff {p : String → Bool} {line : String} {rest : List String} :
    (((line :: rest).zipIdx.filter fun e => p e.1).map Prod.snd) = [0] ↔
      p line = true ∧ ∀ l ∈ rest, p l = false := by
  have hlater : ∀ n ∈ ((rest.zipIdx 1).filter fun e => p e.1).map Prod.snd, n ≠ 0 := by
    intro n hn
    obtain ⟨⟨l, i⟩, he, rfl⟩ := List.mem_map.1 hn
    have hle := (List.mem_zipIdx (List.mem_filter.1 he).1).1
    exact Nat.ne_of_gt hle
  have hnone : ((rest.zipIdx 1).filter fun e => p e.1).map Prod.snd = [] ↔ ∀ l ∈ rest, p l = false := by
    have hlines : ((rest.zipIdx 1).filter fun e => p e.1).map Prod.fst = rest.filter p :=
      calc ((rest.zipIdx 1).filter fun e => p e.1).map Prod.fst
        _ = ((rest.zipIdx 1).map Prod.fst).filter p := List.filter_map.symm
        _ = rest.filter p := by rw [List.zipIdx_map_fst]
    rw [List.map_eq_nil_iff, ← List.map_eq_nil_iff (f := Prod.fst), hlines, List.filter_eq_nil_iff]
    simp only [Bool.not_eq_true]
  rw [List.zipIdx_cons, List.filter_cons]
  split
  · rename_i hline
    rw [List.map_cons, List.cons_eq_cons, and_iff_right rfl, hnone, and_iff_right hline]
  · rename_i hline
    refine iff_of_false (fun h => ?_) fun h => hline h.1
    exact hlater 0 (h ▸ List.mem_singleton_self 0) rfl

/-- **When nothing is wrong**: the first line that holds the directive names the header, and no other does. -/
theorem misuse?_eq_none_iff : misuse? header lines = none ↔ ∃ before line after,
    lines = before ++ line :: after ∧ (∀ l ∈ before, Text.contains l directive = false) ∧
      Text.contains line directive = true ∧ NamesHeader header line ∧
      ∀ l ∈ after, Text.contains l directive = true → ¬NamesHeader header l := by
  have hparts : misuse? header lines = none ↔
      ∃ line rest, lines.filter (Text.contains · directive) = line :: rest ∧
        namesHeader header line = true ∧ ∀ l ∈ rest, namesHeader header l = false := by
    rw [misuse?, misuseOf_eq_none_iff, inclusionsOf]
    cases lines.filter (Text.contains · directive) with
    | nil => simp
    | cons line rest =>
        rw [chosen_eq_singleton_iff]
        constructor
        · exact fun h => ⟨line, rest, rfl, h⟩
        · rintro ⟨_, _, ⟨⟩, h⟩
          exact h
  rw [hparts]
  simp only [List.filter_eq_cons_iff, namesHeader_iff]
  constructor
  · rintro ⟨line, _, ⟨before, after, rfl, hbefore, hline, rfl⟩, hnames, hrest⟩
    refine ⟨before, line, after, rfl, fun l hl => by simpa using hbefore l hl, hline, hnames, ?_⟩
    intro l hl hin hl'
    have hfalse := hrest l (List.mem_filter.2 ⟨hl, hin⟩)
    rw [namesHeader_iff.2 hl'] at hfalse
    cases hfalse
  · rintro ⟨before, line, after, rfl, hbefore, hline, hnames, hafter⟩
    refine ⟨line, _, ⟨before, after, rfl, fun l hl => by simp [hbefore l hl], hline, rfl⟩, hnames, ?_⟩
    intro l hl
    obtain ⟨hl, hin⟩ := List.mem_filter.1 hl
    rw [← Bool.not_eq_true, namesHeader_iff]
    exact hafter l hl hin

/-- **What a text with nothing wrong in it says of its quoted include directives.**  The first line that
holds the directive names the header, and no other line that holds it does.  The quoted directives begin on
different lines, one behind the other; those in one piece stand on this line or behind it, and name the header
exactly if they stand on it. -/
theorem quoted_directives_of_checked (h : misuse? header (Text.lines text) = none) : ∃ first : Nat,
    (∃ line, (Text.lines text)[first]? = some line ∧ Text.contains line directive = true ∧
      NamesHeader header line) ∧
    (∀ row line, (Text.lines text)[row]? = some line → Text.contains line directive = true →
      first ≤ row ∧ (NamesHeader header line ↔ row = first)) ∧
    (Cpp.includes text).map (·.name) = Cpp.quotedIncludes text ∧
    (Cpp.includes text).Pairwise (·.row < ·.row) ∧
    ∀ e ∈ Cpp.includes text, e.joined = true → ∃ line, (Text.lines text)[e.row]? = some line ∧
      first ≤ e.row ∧ (NamesHeader header line ↔ e.row = first) := by
  obtain ⟨before, line, after, hlines, hbefore, hline, hnames, hafter⟩ := misuse?_eq_none_iff.1 h
  have hrows : ∀ row l, (Text.lines text)[row]? = some l → Text.contains l directive = true →
      before.length ≤ row ∧ (NamesHeader header l ↔ row = before.length) := by
    intro row l hl hin
    rw [hlines] at hl
    rcases Nat.lt_trichotomy row before.length with hlt | rfl | hgt
    · -- In front of the first such line there is none.
      rw [List.getElem?_append_left hlt] at hl
      rw [hbefore l (List.mem_of_getElem? hl)] at hin
      cases hin
    · rw [List.getElem?_append_right (Nat.le_refl _), Nat.sub_self] at hl
      obtain rfl := Option.some.inj hl
      exact ⟨Nat.le_refl _, iff_of_true hnames rfl⟩
    · obtain ⟨k, rfl⟩ := Nat.exists_eq_add_of_lt hgt
      rw [List.getElem?_append_right (by omega), show before.length + k + 1 - before.length = k + 1 by omega,
        List.getElem?_cons_succ] at hl
      exact ⟨Nat.le_of_lt hgt, iff_of_false (hafter l (List.mem_of_getElem? hl) hin) (by omega)⟩
  refine ⟨before.length, ⟨line, ?_, hline, hnames⟩, hrows, Cpp.map_name_includes text,
    Cpp.pairwise_includes text, fun e he hjoined => ?_⟩
  · rw [hlines, List.getElem?_append_right (Nat.le_refl _), Nat.sub_self]
    rfl
  · obtain ⟨l, hl, hin⟩ := Cpp.exists_line_of_joined he hjoined
    exact ⟨l, hl, hrows e.row l hl hin⟩

/-- Behind a comment the header comes first, written in another case and in a directory of its own; a
directive in two pieces and one in one piece follow. -/
theorem quoted_directives_of_checked_inOrder :
    misuse? "common.h"
      (Text.lines "// common.h\n#include \"src/Common.h\"\n# include \"a.h\"\n#include \"b.h\"\n") = none ∧
    ∀ e ∈ Cpp.includes "// common.h\n#include \"src/Common.h\"\n# include \"a.h\"\n#include \"b.h\"\n",
      e.joined = true → 1 ≤ e.row := by
  have h : misuse? "common.h" (Text.lines
      "// common.h\n#include \"src/Common.h\"\n# include \"a.h\"\n#include \"b.h\"\n") = none := by
    decide +kernel
  obtain ⟨first, -, hrows, -, -, hjoined⟩ := quoted_directives_of_checked h
  obtain ⟨-, hfirst⟩ := hrows 1 "#include \"src/Common.h\"" (by decide +kernel) (by decide +kernel)
  obtain rfl := hfirst.1 (by decide +kernel)
  refine ⟨h, fun e he hone => ?_⟩
  obtain ⟨line, -, hle, -⟩ := hjoined e he hone
  exact hle

/-- A header in angle brackets is found, and the first quoted directive names another one. -/
theorem quoted_directive_behind_brackets : ¬∀ (header text : String),
    (∀ c ∈ header.toList, Unicode.isBlank c = false) → misuse? header (Text.lines text) = none →
      ∀ e later, Cpp.includes text = e :: later →
        (∃ line, (Text.lines text)[e.row]? = some line ∧ NamesHeader header line) ∧
        ∀ e' ∈ later, ∀ line, (Text.lines text)[e'.row]? = some line → ¬NamesHeader header line := by
  intro h
  have hword : ("common.h".toList.all fun c => !Unicode.isBlank c) = true := by decide +kernel
  obtain ⟨⟨line, hline, hnames⟩, -⟩ := h "common.h" "#include <common.h>\n#include \"x.h\"\n"
    (fun c hc => by simpa using List.all_eq_true.1 hword c hc) (by decide +kernel) ⟨1, true, "x.h"⟩ []
    (by decide +kernel)
  have hx : line = "#include \"x.h\"" := Option.some.inj (hline.symm.trans (by decide +kernel))
  rw [hx] at hnames
  revert hnames
  decide +kernel

end Audit

end Upkeep
