/-
**Include directives and their lines.**

A quoted include directive begins at the start of a line and is known by the number of this line.  Names may
go over the end of a line, but no two directives begin on one line, so the numbers grow from one directive to
the next.  Where the word follows the number sign at once, the line holds both of them in one piece.

Main definitions:

* `Upkeep.Cpp.IsOpening` — what a directive begins with, up to the first quote;
* `Upkeep.Cpp.Include` — directives with their lines;
* `Upkeep.Cpp.includes` — the directives of a text.

Main results:

* `Upkeep.Cpp.directive?_eq_some_iff` — **what a directive is**;
* `Upkeep.Cpp.scan_induction` — induction over the scan for directives;
* `Upkeep.Cpp.map_name_includes` — their names are the quoted includes;
* `Upkeep.Cpp.begins_of_mem` — **each of them begins on its line**;
* `Upkeep.Cpp.pairwise_includes` — no two of them begin on one line;
* `Upkeep.Cpp.exists_line_of_joined` — the line of a directive in one piece holds its two parts.
-/

import Mathlib.Data.List.TakeWhile
import Upkeep.Cpp.Includes
import Upkeep.Proofs.Text.ByteLines
import Upkeep.Proofs.Text.Search

set_option relaxedAutoImplicit false
set_option autoImplicit false

namespace Upkeep

namespace Cpp

/-! ### What a directive is -/

section

variable {s h name rest : List Char} {c : Char}

/-- What a quoted include directive begins with: a number sign and the word, with blanks in front of each and
behind, and a quote. -/
def IsOpening (h : List Char) : Prop :=
  ∃ p q t, (∀ c ∈ p, isPad c = true) ∧ (∀ c ∈ q, isPad c = true) ∧ (∀ c ∈ t, isPad c = true) ∧
    h = p ++ '#' :: (q ++ ("include".toList ++ (t ++ ['"'])))

theorem not_mem_of_isPad (hs : ∀ c ∈ s, isPad c = true) (hc : isPad c = false) : c ∉ s := by
  intro hmem
  rw [hs c hmem] at hc
  cases hc

/-- A directive begins on one line. -/
theorem IsOpening.lineFeed_not_mem (hh : IsOpening h) : '\n' ∉ h := by
  obtain ⟨p, q, t, hp, hq, ht, rfl⟩ := hh
  have hnot : ∀ {s : List Char}, (∀ c ∈ s, isPad c = true) → '\n' ∉ s :=
    fun hs => not_mem_of_isPad hs (by decide)
  simp [hnot hp, hnot hq, hnot ht]

/-- There is one quote in what a directive begins with. -/
theorem IsOpening.count_quote (hh : IsOpening h) : h.count '"' = 1 := by
  obtain ⟨p, q, t, hp, hq, ht, rfl⟩ := hh
  have hnot : ∀ {s : List Char}, (∀ c ∈ s, isPad c = true) → s.count '"' = 0 :=
    fun hs => List.count_eq_zero.2 (not_mem_of_isPad hs (by decide))
  simp [List.count_append, hnot hp, hnot hq, hnot ht]

theorem IsOpening.quote_mem (hh : IsOpening h) : '"' ∈ h := by
  rw [← List.count_pos_iff, hh.count_quote]
  exact Nat.one_pos

theorem dropWhile_isPad_append (hs : ∀ c ∈ s, isPad c = true) (hc : isPad c = false) (t : List Char) :
    (s ++ c :: t).dropWhile isPad = c :: t := by
  rw [List.dropWhile_append_of_pos hs, List.dropWhile_cons_of_neg (by simp [hc])]

/-- Behind the first quote a directive is known by its name. -/
theorem IsOpening.directive?_append (hh : IsOpening h) (s : List Char) :
    directive? (h ++ s) = quotedName? s := by
  obtain ⟨p, q, t, hp, hq, ht, rfl⟩ := hh
  have hsign := dropWhile_isPad_append hp (by decide : isPad '#' = false)
  have hword : (q ++ ("include".toList ++ (t ++ '"' :: s))).dropWhile isPad =
      "include".toList ++ (t ++ '"' :: s) := dropWhile_isPad_append hq (by decide : isPad 'i' = false) _
  have hquote := dropWhile_isPad_append ht (by decide : isPad '"' = false) s
  rw [show p ++ '#' :: (q ++ ("include".toList ++ (t ++ ['"']))) ++ s =
    p ++ '#' :: (q ++ ("include".toList ++ (t ++ '"' :: s))) by simp]
  simp only [directive?, hsign, hword, Text.stripPrefix?_append, hquote]

/-- A directive has a beginning. -/
theorem exists_isOpening {d : List Char × List Char} (hd : directive? s = some d) :
    ∃ h t, IsOpening h ∧ s = h ++ t ∧ quotedName? t = some d := by
  have hpads : ∀ s : List Char, ∀ c ∈ s.takeWhile isPad, isPad c = true :=
    fun s => List.all_eq_true.1 List.all_takeWhile
  rw [directive?] at hd
  split at hd
  · rename_i s₁ hs₁
    split at hd
    · rename_i s₂ hs₂
      split at hd
      · rename_i s₃ hs₃
        refine ⟨_, s₃, ⟨_, _, _, hpads s, hpads s₁, hpads s₂, rfl⟩, ?_, hd⟩
        have hword := Text.eq_append_of_stripPrefix? hs₂
        calc s = s.takeWhile isPad ++ '#' :: s₁ := by rw [← hs₁, List.takeWhile_append_dropWhile]
          _ = s.takeWhile isPad ++ '#' :: (s₁.takeWhile isPad ++ ("include".toList ++ s₂)) := by
              rw [← hword, List.takeWhile_append_dropWhile]
          _ = s.takeWhile isPad ++ '#' :: (s₁.takeWhile isPad ++
                ("include".toList ++ (s₂.takeWhile isPad ++ '"' :: s₃))) := by
              rw [← hs₃, List.takeWhile_append_dropWhile]
          _ = _ := by simp
      · cases hd
    · cases hd
  · cases hd

theorem quotedName?_of_not_mem (hs : '"' ∉ s) : quotedName? s = none := by
  rw [quotedName?, List.dropWhile_eq_nil_iff.2 (Text.forall_bne_of_not_mem hs)]

theorem quotedName?_append (hname : '"' ∉ name) (rest : List Char) :
    quotedName? (name ++ '"' :: rest) = if name.isEmpty then none else some (name, rest) := by
  have hall := Text.forall_bne_of_not_mem hname
  rw [quotedName?, List.dropWhile_append_of_pos hall, List.takeWhile_append_of_pos hall]
  cases name with
  | nil => rfl
  | cons c name =>
      have hc : c ≠ '"' := by simpa using hall c List.mem_cons_self
      simp [hc]

/-- A name is not empty and reaches up to the next quote. -/
theorem quotedName?_eq_some_iff :
    quotedName? s = some (name, rest) ↔ s = name ++ '"' :: rest ∧ '"' ∉ name ∧ name ≠ [] := by
  constructor
  · intro hs
    by_cases hmem : '"' ∈ s
    · obtain ⟨a, b, rfl, ha⟩ := List.eq_append_cons_of_mem hmem
      rw [quotedName?_append ha] at hs
      cases a with
      | nil => cases hs
      | cons c a =>
          obtain ⟨rfl, rfl⟩ := Prod.mk.inj (Option.some.inj hs)
          exact ⟨rfl, ha, List.cons_ne_nil _ _⟩
    · rw [quotedName?_of_not_mem hmem] at hs
      cases hs
  · rintro ⟨rfl, hname, hne⟩
    rw [quotedName?_append hname, if_neg (by simpa using hne)]

/-- **What a directive is**: its beginning, a name that is not empty and has no quote, and a quote. -/
theorem directive?_eq_some_iff : directive? s = some (name, rest) ↔
    ∃ h, IsOpening h ∧ s = h ++ (name ++ '"' :: rest) ∧ '"' ∉ name ∧ name ≠ [] := by
  constructor
  · intro hd
    obtain ⟨h, t, hh, rfl, hname⟩ := exists_isOpening hd
    obtain ⟨rfl, hquote, hne⟩ := quotedName?_eq_some_iff.1 hname
    exact ⟨h, hh, rfl, hquote, hne⟩
  · rintro ⟨h, hh, rfl, hquote, hne⟩
    rw [hh.directive?_append]
    exact quotedName?_eq_some_iff.2 ⟨rfl, hquote, hne⟩

/-- What follows a directive is the end of the text that begins with it. -/
theorem directive?_suffix (hd : directive? s = some (name, rest)) : rest <:+ s := by
  obtain ⟨h, -, rfl, -, -⟩ := directive?_eq_some_iff.1 hd
  exact ⟨h ++ (name ++ ['"']), by simp⟩

end

/-! ### The directives of a text -/

/-- A quoted include directive. -/
structure Include where
  /-- The number of lines in front of the one that it begins on. -/
  row : Nat
  /-- The word follows the number sign at once. -/
  joined : Bool
  name : String
deriving DecidableEq, Repr

/-- Whether a text begins with a number sign and the word in one piece, behind blanks. -/
def isJoined (s : List Char) : Bool := "#include".toList.isPrefixOf (s.dropWhile isPad)

/-- The directives of a text behind `row` lines; `atStart` tells that a line begins here. -/
def includesAt (row : Nat) (atStart : Bool) (s : List Char) : List Include :=
  match s with
  | [] => []
  | c :: t =>
    match h : (if atStart then directive? (c :: t) else none) with
    | some (name, rest) =>
      have : rest.length < (c :: t).length := by
        split at h
        · exact directive?_length h
        · simp at h
      ⟨row, isJoined (c :: t), String.ofList name⟩ ::
        includesAt (row + ((c :: t).count '\n' - rest.count '\n')) false rest
    | none => includesAt (row + if c == '\n' then 1 else 0) (c == '\n') t
termination_by s.length
decreasing_by
  · exact this
  · exact Nat.lt_succ_self _

/-- The quoted include directives of a text, in order. -/
def includes (text : String) : List Include := includesAt 0 true text.toList

variable {row : Nat} {atStart : Bool} {s : List Char} {e : Include}

/-- The directive that begins here, if a line does. -/
def directiveAt? (atStart : Bool) (s : List Char) : Option (List Char × List Char) :=
  if atStart then directive? s else none

theorem directive?_of_directiveAt? {d : List Char × List Char} (h : directiveAt? atStart s = some d) :
    directive? s = some d := by
  cases atStart with
  | true => exact h
  | false => cases h

theorem atStart_of_directiveAt? {d : List Char × List Char} (h : directiveAt? atStart s = some d) :
    atStart = true := by
  cases atStart with
  | true => rfl
  | false => cases h

theorem includesFrom_of_some {c : Char} {t name rest : List Char}
    (h : directiveAt? atStart (c :: t) = some (name, rest)) :
    includesFrom atStart (c :: t) = name :: includesFrom false rest := by
  rw [includesFrom]
  split
  · rename_i name' rest' h'
    obtain ⟨rfl, rfl⟩ := Prod.mk.inj (Option.some.inj (h'.symm.trans h))
    rfl
  · rename_i h'
    cases h'.symm.trans h

theorem includesFrom_of_none {c : Char} {t : List Char} (h : directiveAt? atStart (c :: t) = none) :
    includesFrom atStart (c :: t) = includesFrom (c == '\n') t := by
  rw [includesFrom]
  split
  · rename_i h'
    cases h'.symm.trans h
  · rfl

theorem includesAt_of_some {c : Char} {t name rest : List Char}
    (h : directiveAt? atStart (c :: t) = some (name, rest)) :
    includesAt row atStart (c :: t) = ⟨row, isJoined (c :: t), String.ofList name⟩ ::
      includesAt (row + ((c :: t).count '\n' - rest.count '\n')) false rest := by
  rw [includesAt]
  split
  · rename_i name' rest' h'
    obtain ⟨rfl, rfl⟩ := Prod.mk.inj (Option.some.inj (h'.symm.trans h))
    rfl
  · rename_i h'
    cases h'.symm.trans h

theorem includesAt_of_none {c : Char} {t : List Char} (h : directiveAt? atStart (c :: t) = none) :
    includesAt row atStart (c :: t) = includesAt (row + if c == '\n' then 1 else 0) (c == '\n') t := by
  rw [includesAt]
  split
  · rename_i h'
    cases h'.symm.trans h
  · rfl

/-- A property of every scan holds if it does at the end, behind a directive and behind a character that
begins none. -/
theorem scan_induction {P : Bool → List Char → Prop} (done : ∀ atStart, P atStart [])
    (found : ∀ atStart c t name rest, directiveAt? atStart (c :: t) = some (name, rest) → P false rest →
      P atStart (c :: t))
    (passed : ∀ atStart c t, directiveAt? atStart (c :: t) = none → P (c == '\n') t → P atStart (c :: t))
    (atStart : Bool) (s : List Char) : P atStart s := by
  induction hn : s.length using Nat.strongRecOn generalizing atStart s with
  | ind n ih =>
      subst hn
      cases s with
      | nil => exact done atStart
      | cons c t =>
          cases h : directiveAt? atStart (c :: t) with
          | none => exact passed atStart c t h (ih _ (Nat.lt_succ_self _) _ _ rfl)
          | some d =>
              obtain ⟨name, rest⟩ := d
              have hlt := directive?_length (directive?_of_directiveAt? h)
              exact found atStart c t name rest h (ih _ hlt _ _ rfl)

theorem map_name_includesAt (row : Nat) (atStart : Bool) (s : List Char) :
    (includesAt row atStart s).map (·.name) = (includesFrom atStart s).map String.ofList := by
  induction atStart, s using scan_induction generalizing row with
  | done atStart => simp [includesAt]
  | found atStart c t name rest h ih =>
      rw [includesAt_of_some h, includesFrom_of_some h, List.map_cons, List.map_cons, ih]
  | passed atStart c t h ih => rw [includesAt_of_none h, includesFrom_of_none h, ih]

/-- **The names of the directives are the quoted includes.** -/
theorem map_name_includes (text : String) : (includes text).map (·.name) = quotedIncludes text :=
  map_name_includesAt 0 true text.toList

/-- **Each directive begins on its line**: at the start of the text, or behind a line feed. -/
theorem begins_of_mem (h : e ∈ includesAt row atStart s) : ∃ front back, s = front ++ back ∧
    e.row = row + front.count '\n' ∧ (front = [] ∧ atStart = true ∨ ∃ init, front = init ++ ['\n']) ∧
    e.joined = isJoined back := by
  induction atStart, s using scan_induction generalizing row with
  | done atStart => simp [includesAt] at h
  | found atStart c t name rest hd ih =>
      rw [includesAt_of_some hd, List.mem_cons] at h
      rcases h with rfl | h
      · exact ⟨[], c :: t, rfl, rfl, .inl ⟨rfl, atStart_of_directiveAt? hd⟩, rfl⟩
      · obtain ⟨front, back, rfl, hrow, hstart, hjoined⟩ := ih h
        obtain ⟨taken, htaken⟩ := directive?_suffix (directive?_of_directiveAt? hd)
        rw [← htaken]
        rw [← htaken, List.count_append, Nat.add_sub_cancel, Nat.add_assoc, ← List.count_append] at hrow
        refine ⟨taken ++ front, back, by simp, hrow, .inr ?_, hjoined⟩
        rcases hstart with ⟨-, hfalse⟩ | ⟨init, rfl⟩
        · cases hfalse
        · exact ⟨taken ++ init, by simp⟩
  | passed atStart c t hd ih =>
      rw [includesAt_of_none hd] at h
      obtain ⟨front, back, rfl, hrow, hstart, hjoined⟩ := ih h
      refine ⟨c :: front, back, rfl, ?_, .inr ?_, hjoined⟩
      · rw [hrow, List.count_cons, Nat.add_assoc, Nat.add_comm (List.count _ _)]
      · rcases hstart with ⟨rfl, hfeed⟩ | ⟨init, rfl⟩
        · exact ⟨[], by rw [beq_iff_eq.1 hfeed]; rfl⟩
        · exact ⟨c :: init, rfl⟩

/-- **No two directives begin on one line.** -/
theorem pairwise_includesAt (row : Nat) (atStart : Bool) (s : List Char) :
    (includesAt row atStart s).Pairwise (·.row < ·.row) := by
  induction atStart, s using scan_induction generalizing row with
  | done atStart => simp [includesAt]
  | found atStart c t name rest hd ih =>
      rw [includesAt_of_some hd]
      refine List.pairwise_cons.2 ⟨fun e he => ?_, ih _⟩
      obtain ⟨front, back, -, hrow, hstart, -⟩ := begins_of_mem he
      rcases hstart with ⟨-, hfalse⟩ | ⟨init, rfl⟩
      · cases hfalse
      · rw [hrow, List.count_append]
        simp
        omega
  | passed atStart c t hd ih =>
      rw [includesAt_of_none hd]
      exact ih _

theorem pairwise_includes (text : String) : (includes text).Pairwise (·.row < ·.row) :=
  pairwise_includesAt 0 true text.toList

/-- A text that begins with the two parts in one piece holds them on its first line. -/
theorem exists_line_of_isJoined (h : isJoined s = true) :
    ∃ line, (Text.lineChars s)[0]? = some line ∧ "#include".toList <:+: line := by
  rw [isJoined, List.isPrefixOf_iff_prefix] at h
  obtain ⟨rest, hrest⟩ := h
  have hs : s.takeWhile isPad ++ "#include".toList <+: s :=
    ⟨rest, by rw [List.append_assoc, hrest, List.takeWhile_append_dropWhile]⟩
  have hpads : ∀ c, isPad c = false → c ∉ s.takeWhile isPad :=
    fun c => not_mem_of_isPad (List.all_eq_true.1 List.all_takeWhile)
  have hnot : ∀ c, isPad c = false → c ∉ "#include".toList → c ∉ s.takeWhile isPad ++ "#include".toList :=
    fun c hc hword hmem => (List.mem_append.1 hmem).elim (hpads c hc) hword
  obtain ⟨line, hline, hbegin⟩ := Text.exists_lineChars_of_prefix (by simp)
    (hnot '\n' (by decide) (by decide)) (hnot '\r' (by decide) (by decide)) hs
  exact ⟨line, hline, (List.suffix_append _ _).isInfix.trans hbegin.isInfix⟩

/-- **The line of a directive in one piece** holds its two parts. -/
theorem exists_line_of_joined {text : String} (he : e ∈ includes text) (hjoined : e.joined = true) :
    ∃ line, (Text.lines text)[e.row]? = some line ∧ Text.contains line "#include" = true := by
  obtain ⟨front, back, htext, hrow, hstart, hback⟩ := begins_of_mem he
  obtain ⟨line, hline, hin⟩ := exists_line_of_isJoined (hback ▸ hjoined)
  -- The lines from here on are those of the rest of the text.
  have hrest : (Text.lineChars text.toList)[e.row]? = (Text.lineChars back)[0]? := by
    rcases hstart with ⟨rfl, -⟩ | ⟨init, rfl⟩
    · rw [htext, hrow]
      rfl
    · have hlength : e.row = ((Text.segments (· == '\n') init).map Text.dropReturn).length := by
        rw [hrow, List.length_map, Text.length_segments, List.count_append]
        simp
      rw [htext, List.append_assoc, List.singleton_append, Text.lineChars_append_feed, hlength,
        List.getElem?_append_right (Nat.le_refl _), Nat.sub_self]
  refine ⟨String.ofList line, ?_, ?_⟩
  · rw [Text.lines, List.getElem?_map, hrest, hline]
    rfl
  · refine Text.occursIn_iff.2 ?_
    rwa [show (String.ofList line).toList = line from String.toList_ofList]

end Cpp

end Upkeep
