/-
**Lines as bytes and as text.**

The bytes of a file are cut behind every line feed, and what is read of each stretch is one line of the
text.  A line that is written again, with a line feed behind it, is the stretch that it was read from
only if the stretch ends with a line feed, has no carriage return in front of it, and is text; and so it
is for any number of lines in a row.

Main definitions:

* `Upkeep.Text.byteLines` — the lines of a file as bytes, with their endings;
* `Upkeep.Text.readLine` — what is read of such a line;
* `Upkeep.Text.written` — lines as they are written;
* `Upkeep.Text.Clean` — lines that are written as they were.

Main results:

* `Upkeep.Text.cuts_induction` — induction from one separator to the next;
* `Upkeep.Text.intercalate_prefix_iff` — what stretches with a separator between them begin with;
* `Upkeep.Text.lines_decode` — **the lines of the text are read line by line**;
* `Upkeep.Text.written_readLine_iff` — **lines are written as they were if and only if all of them are
  clean**.
-/

import Upkeep.Proofs.Text.Utf8
import Upkeep.Text.Lines

set_option relaxedAutoImplicit false
set_option autoImplicit false

namespace Upkeep

namespace Text

/-! ### Lists cut at a member -/

/-- Induction from one separator to the next: a list has none, or one that is the first, with more
behind it. -/
theorem cuts_induction {α : Type} (isSep : α → Bool) {P : List α → Prop}
    (last : ∀ s, (∀ x ∈ s, isSep x = false) → P s)
    (cut : ∀ a c t, (∀ x ∈ a, isSep x = false) → isSep c = true → P t → P (a ++ c :: t))
    (s : List α) : P s := by
  induction hn : s.length using Nat.strongRecOn generalizing s with
  | ind n ih =>
      cases hfind : s.find? isSep with
      | none => exact last s fun x hx => by simpa using List.find?_eq_none.1 hfind x hx
      | some c =>
          obtain ⟨hc, a, t, rfl, ha⟩ := List.find?_eq_some_iff_append.1 hfind
          refine cut a c t (fun x hx => by simpa using ha x hx) hc (ih t.length ?_ t rfl)
          rw [← hn, List.length_append, List.length_cons]
          omega

theorem segments_of_not_mem {α : Type} {isSep : α → Bool} {s : List α}
    (h : ∀ x ∈ s, isSep x = false) : segments isSep s = [s] := by
  induction s with
  | nil => rfl
  | cons x s ih =>
      obtain ⟨hx, hs⟩ := List.forall_mem_cons.1 h
      have hrest := ih hs
      simp only [segments] at hrest
      simp [segments, hx, hrest]

theorem forall_beq_eq_false_iff {α : Type} [BEq α] [LawfulBEq α] {a : α} {s : List α} :
    (∀ x ∈ s, (x == a) = false) ↔ a ∉ s := by
  simp only [beq_eq_false_iff_ne]
  exact ⟨fun h ha => h a ha rfl, fun h x hx he => h (he ▸ hx)⟩

theorem forall_bne_of_not_mem {α : Type} [BEq α] [LawfulBEq α] {a : α} {s : List α} (h : a ∉ s) :
    ∀ x ∈ s, (x != a) = true := by
  intro x hx
  rw [bne_iff_ne]
  rintro rfl
  exact h hx

theorem segments_of_ne {α : Type} [BEq α] [LawfulBEq α] {a : α} {s : List α} (h : a ∉ s) :
    segments (· == a) s = [s] :=
  segments_of_not_mem (forall_beq_eq_false_iff.2 h)

/-- A member that is no separator goes into the first stretch. -/
theorem segments_cons {α : Type} {isSep : α → Bool} {c : α} (h : isSep c = false) (s : List α) :
    ∃ first rest, segments isSep s = first :: rest ∧
      segments isSep (c :: s) = (c :: first) :: rest := by
  obtain ⟨first, rest, hsegs⟩ := List.exists_cons_of_ne_nil (segments_ne_nil isSep s)
  refine ⟨first, rest, hsegs, ?_⟩
  simp only [segments] at hsegs
  simp [segments, h, hsegs]

/-- What stands in a segment is a member of the list and no separator. -/
theorem mem_of_mem_segments {α : Type} {isSep : α → Bool} {s seg : List α} {c : α}
    (h : seg ∈ segments isSep s) (hc : c ∈ seg) : c ∈ s ∧ isSep c = false := by
  induction s generalizing seg with
  | nil =>
      obtain rfl : seg = [] := by simpa using h
      cases hc
  | cons d s ih =>
      have hrest : ∀ {seg}, seg ∈ segments isSep s → c ∈ seg → c ∈ d :: s ∧ isSep c = false :=
        fun hseg hc => ⟨List.mem_cons_of_mem _ (ih hseg hc).1, (ih hseg hc).2⟩
      cases hd : isSep d with
      | true =>
          rw [segments_cons_sep hd] at h
          rcases List.mem_cons.1 h with rfl | h
          · cases hc
          · exact hrest h hc
      | false =>
          obtain ⟨first, rest, hsegs, hcons⟩ := segments_cons hd s
          rw [hsegs] at hrest
          rw [hcons] at h
          rcases List.mem_cons.1 h with rfl | h
          · rcases List.mem_cons.1 hc with rfl | hc
            · exact ⟨List.mem_cons_self, hd⟩
            · exact hrest List.mem_cons_self hc
          · exact hrest (List.mem_cons_of_mem _ h) hc

/-- No separator stands in a segment. -/
theorem isSep_of_mem_segments {α : Type} {isSep : α → Bool} {s seg : List α} {c : α}
    (h : seg ∈ segments isSep s) (hc : c ∈ seg) : isSep c = false := (mem_of_mem_segments h hc).2

/-- The first place of a member is where the first stretch ends. -/
theorem segments_append_cons {α : Type} [BEq α] [LawfulBEq α] {a : α} {front : List α}
    (h : a ∉ front) (back : List α) :
    segments (· == a) (front ++ a :: back) = front :: segments (· == a) back :=
  @segments_append_sep α (· == a) front a (forall_beq_eq_false_iff.2 h) (beq_self_eq_true a) back

/-- A separator parts the stretches in front of it from those behind it. -/
theorem segments_append {α : Type} {isSep : α → Bool} {c : α} (hc : isSep c = true) (a s : List α) :
    segments isSep (a ++ c :: s) = segments isSep a ++ segments isSep s := by
  induction a with
  | nil => exact segments_cons_sep hc s
  | cons x a ih =>
      cases hx : isSep x with
      | true => rw [List.cons_append, segments_cons_sep hx, segments_cons_sep hx, ih, List.cons_append]
      | false =>
          obtain ⟨first, rest, hsegs, hcons⟩ := segments_cons hx (a ++ c :: s)
          obtain ⟨first', rest', hsegs', hcons'⟩ := segments_cons hx a
          rw [ih, hsegs', List.cons_append, List.cons.injEq] at hsegs
          rw [List.cons_append, hcons, hcons', ← hsegs.1, ← hsegs.2, List.cons_append]

/-- What is missing between stretches is in what they are joined to only if one of them has it. -/
theorem not_mem_intercalate_iff {α : Type} {x : α} {sep : List α} (hsep : x ∉ sep)
    {parts : List (List α)} : x ∉ sep.intercalate parts ↔ ∀ s ∈ parts, x ∉ s := by
  induction parts with
  | nil => simp
  | cons s parts ih =>
      cases parts with
      | nil => simp
      | cons s' parts =>
          rw [List.intercalate_cons_cons, List.mem_append, List.mem_append, not_or, not_or, ih,
            List.forall_mem_cons (l := s' :: parts)]
          exact and_congr_left fun _ => and_iff_left hsep

/-- Stretches without the separator are those of what they are joined to. -/
theorem segments_intercalate {α : Type} [BEq α] [LawfulBEq α] {a : α} {parts : List (List α)}
    (hne : parts ≠ []) (h : ∀ s ∈ parts, a ∉ s) :
    segments (· == a) ([a].intercalate parts) = parts := by
  induction parts with
  | nil => exact absurd rfl hne
  | cons s parts ih =>
      obtain ⟨hs, hparts⟩ := List.forall_mem_cons.1 h
      cases parts with
      | nil => rw [List.intercalate_singleton, segments_of_ne hs]
      | cons s' parts =>
          rw [List.intercalate_cons_cons, List.append_assoc, List.singleton_append,
            segments_append_cons hs, ih (List.cons_ne_nil _ _) hparts]

/-- The first place of a member cuts a list in one way. -/
theorem append_cons_inj {α : Type} [BEq α] [LawfulBEq α] {a : α} {x x' y y' : List α} (hx : a ∉ x)
    (hy : a ∉ y) (h : x ++ a :: x' = y ++ a :: y') : x = y ∧ x' = y' := by
  have hsegs := congrArg (segments (· == a)) h
  rw [segments_append_cons hx, segments_append_cons hy, List.cons.injEq] at hsegs
  obtain ⟨rfl, -⟩ := hsegs
  exact ⟨rfl, (List.cons.inj (List.append_cancel_left h)).2⟩

section Beginnings

variable {α : Type} {a : α} {x y x' y' : List α} {ps hs : List (List α)}

/-- What has no separator is a beginning of the first stretch. -/
theorem prefix_append_cons_iff (hx : a ∉ x) : x <+: y ++ a :: y' ↔ x <+: y := by
  constructor
  · intro h
    rcases List.prefix_or_prefix_of_prefix h (List.prefix_append y (a :: y')) with hxy | ⟨t, rfl⟩
    · exact hxy
    · -- Otherwise the separator stands in `x`.
      cases t with
      | nil => simp
      | cons b t =>
          obtain ⟨r, hr⟩ := h
          rw [List.append_assoc, List.append_cancel_left_eq, List.cons_append, List.cons.injEq] at hr
          exact absurd (by simp [hr.1]) hx
  · exact fun h => h.trans (List.prefix_append _ _)

variable [BEq α] [LawfulBEq α]

theorem append_cons_prefix_iff (hx : a ∉ x) (hy : a ∉ y) :
    x ++ a :: x' <+: y ++ a :: y' ↔ x = y ∧ x' <+: y' := by
  constructor
  · rintro ⟨r, hr⟩
    rw [List.append_assoc, List.cons_append] at hr
    obtain ⟨rfl, rfl⟩ := append_cons_inj hx hy hr
    exact ⟨rfl, r, rfl⟩
  · rintro ⟨rfl, r, rfl⟩
    exact ⟨r, by rw [List.append_assoc, List.cons_append]⟩

/-- **What stretches with a separator between them begin with**: the same stretches, up to a beginning of
the last one. -/
theorem intercalate_prefix_iff (hps : ∀ s ∈ ps, a ∉ s) (hhs : ∀ s ∈ hs, a ∉ s) (hne : ps ≠ [])
    (hne' : hs ≠ []) : [a].intercalate ps <+: [a].intercalate hs ↔
      ∃ front p h rest, ps = front ++ [p] ∧ hs = front ++ h :: rest ∧ p <+: h := by
  induction ps generalizing hs with
  | nil => exact absurd rfl hne
  | cons p ps ih =>
      obtain ⟨h, hs, rfl⟩ := List.exists_cons_of_ne_nil hne'
      obtain ⟨hp, hps⟩ := List.forall_mem_cons.1 hps
      obtain ⟨hh, hhs⟩ := List.forall_mem_cons.1 hhs
      by_cases hlast : ps = []
      · subst hlast
        have hfirst : (∃ front p' h' rest, [p] = front ++ [p'] ∧ h :: hs = front ++ h' :: rest ∧ p' <+: h') ↔
            p <+: h := by
          constructor
          · rintro ⟨front, p', h', rest, hp', hh', hbegin⟩
            obtain ⟨rfl, rfl⟩ : front = [] ∧ p' = p := by
              cases front <;> simp_all
            obtain ⟨rfl, rfl⟩ := List.cons.inj hh'
            exact hbegin
          · exact fun hbegin => ⟨[], p, h, hs, rfl, rfl, hbegin⟩
        rw [hfirst, List.intercalate_singleton]
        by_cases hrest : hs = []
        · rw [hrest, List.intercalate_singleton]
        · rw [List.intercalate_cons_of_ne_nil hrest, List.append_assoc, List.singleton_append,
            prefix_append_cons_iff hp]
      · rw [List.intercalate_cons_of_ne_nil hlast, List.append_assoc, List.singleton_append]
        by_cases hrest : hs = []
        · -- A single stretch has no separator.
          subst hrest
          rw [List.intercalate_singleton]
          refine iff_of_false (fun hbegin => hh (hbegin.subset (by simp))) ?_
          rintro ⟨front, p', h', rest, hp', hh', -⟩
          cases front with
          | nil => exact hlast (List.cons.inj hp').2
          | cons s front => simp at hh'
        · rw [List.intercalate_cons_of_ne_nil hrest, List.append_assoc, List.singleton_append,
            append_cons_prefix_iff hp hh, ih hps hhs hlast hrest]
          constructor
          · rintro ⟨rfl, front, p', h', rest, rfl, rfl, hbegin⟩
            exact ⟨p :: front, p', h', rest, rfl, rfl, hbegin⟩
          · rintro ⟨front, p', h', rest, hp', hh', hbegin⟩
            cases front with
            | nil => exact absurd (List.cons.inj hp').2 hlast
            | cons s front =>
                obtain ⟨rfl, rfl⟩ := List.cons.inj hp'
                obtain ⟨rfl, rfl⟩ := List.cons.inj hh'
                exact ⟨rfl, front, p', h', rest, rfl, rfl, hbegin⟩

end Beginnings

theorem lineChars_append_cons {front : List Char} (h : '\n' ∉ front) (back : List Char) :
    lineChars (front ++ '\n' :: back) = dropReturn front :: lineChars back := by
  have hne := segments_ne_nil (· == '\n') back
  rw [lineChars, segments_append_cons h, List.dropLast_cons_of_ne_nil hne,
    List.getLast?_cons_of_ne_nil hne]
  rfl

theorem lineChars_of_not_mem {s : List Char} (h : '\n' ∉ s) :
    lineChars s = if s = [] then [] else [s] := by
  rw [lineChars, segments_of_ne h]
  cases s <;> simp

theorem length_segments {α : Type} [BEq α] [LawfulBEq α] (a : α) (s : List α) :
    (segments (· == a) s).length = s.count a + 1 := by
  induction s with
  | nil => rfl
  | cons c s ih =>
      cases hc : c == a with
      | true =>
          have hcons := @segments_cons_sep α (· == a) c hc s
          rw [hcons, List.length_cons, ih, List.count_cons, hc, if_pos rfl]
      | false =>
          obtain ⟨first, rest, hsegs, hcons⟩ := @segments_cons α (· == a) c hc s
          rw [hcons, List.count_cons, hc, if_neg Bool.false_ne_true, Nat.add_zero, ← ih, hsegs,
            List.length_cons, List.length_cons]

/-- The lines in front of a line feed, and those behind it. -/
theorem lineChars_append_feed (front back : List Char) : lineChars (front ++ '\n' :: back) =
    (segments (· == '\n') front).map dropReturn ++ lineChars back := by
  have hne := segments_ne_nil (· == '\n') back
  rw [lineChars, lineChars, segments_append (by rfl), List.dropLast_append_of_ne_nil hne, List.map_append,
    List.append_assoc, List.getLast?_append, List.getLast?_eq_some_getLast hne, Option.some_or]

/-- The first line begins as the text does, up to the end of the line. -/
theorem exists_lineChars_of_prefix {x s : List Char} (hne : x ≠ []) (hfeed : '\n' ∉ x) (hreturn : '\r' ∉ x)
    (h : x <+: s) : ∃ line, (lineChars s)[0]? = some line ∧ x <+: line := by
  by_cases hmem : '\n' ∈ s
  · obtain ⟨front, back, rfl, hfront⟩ := List.eq_append_cons_of_mem hmem
    refine ⟨dropReturn front, by rw [lineChars_append_cons hfront]; rfl, ?_⟩
    rw [prefix_append_cons_iff hfeed] at h
    rw [dropReturn]
    split
    · rename_i hlast
      obtain ⟨init, rfl⟩ := List.getLast?_eq_some_iff.1 hlast
      rwa [prefix_append_cons_iff hreturn, ← @List.dropLast_concat _ init] at h
    · exact h
  · have hs : s ≠ [] := by
      rintro rfl
      exact hne (List.prefix_nil.1 h)
    rw [lineChars_of_not_mem hmem, if_neg hs]
    exact ⟨s, rfl, h⟩

/-! ### Lines of bytes -/

variable {bytes front back raw : List UInt8} {rows : List (List UInt8)}

/-- The lines of a list of bytes, each with the line feed that ends it. -/
def byteLines (bytes : List UInt8) : List (List UInt8) :=
  let segs := segments (· == 10) bytes
  segs.dropLast.map (· ++ [10]) ++ (segs.getLast?.filter (fun l => !l.isEmpty)).toList

theorem byteLines_append_cons (hfront : 10 ∉ front) (back : List UInt8) :
    byteLines (front ++ 10 :: back) = (front ++ [10]) :: byteLines back := by
  have hne := segments_ne_nil (· == 10) back
  rw [byteLines, segments_append_cons hfront, List.dropLast_cons_of_ne_nil hne,
    List.getLast?_cons_of_ne_nil hne]
  rfl

theorem byteLines_of_not_mem (h : 10 ∉ bytes) :
    byteLines bytes = if bytes = [] then [] else [bytes] := by
  rw [byteLines, segments_of_ne h]
  cases bytes <;> simp

/-- Bytes are a stretch without line feed, or one that a line feed ends with more bytes behind it. -/
theorem lines_induction {P : List UInt8 → Prop} (last : ∀ bytes, 10 ∉ bytes → P bytes)
    (cut : ∀ front back, 10 ∉ front → P back → P (front ++ 10 :: back)) (bytes : List UInt8) :
    P bytes := by
  induction bytes using cuts_induction (· == (10 : UInt8)) with
  | last bytes h => exact last bytes (forall_beq_eq_false_iff.1 h)
  | cut front c back h hc ih =>
      obtain rfl := eq_of_beq hc
      exact cut front back (forall_beq_eq_false_iff.1 h) ih

/-- A line with a line feed ends with it. -/
theorem exists_eq_concat_of_mem (h : 10 ∉ raw.dropLast) (hmem : 10 ∈ raw) :
    ∃ body, raw = body ++ [10] := by
  have hne : raw ≠ [] := List.ne_nil_of_mem hmem
  rw [← List.dropLast_concat_getLast hne] at hmem ⊢
  rcases List.mem_append.1 hmem with hmem | hmem
  · exact absurd hmem h
  · exact ⟨raw.dropLast, by rw [← List.mem_singleton.1 hmem]⟩

/-- A line feed only ends a line. -/
theorem lineFeed_not_mem_dropLast (h : raw ∈ byteLines bytes) : 10 ∉ raw.dropLast := by
  induction bytes using lines_induction with
  | last bytes hbytes =>
      rw [byteLines_of_not_mem hbytes] at h
      split at h
      · cases h
      · obtain rfl := List.mem_singleton.1 h
        exact fun hmem => hbytes (List.dropLast_subset _ hmem)
  | cut front back hfront ih =>
      rw [byteLines_append_cons hfront] at h
      rcases List.mem_cons.1 h with rfl | h
      · rwa [List.dropLast_concat]
      · exact ih h

/-! ### What is read of a line -/

/-- What is read of a line of bytes: its ending is left out. -/
def readLine (raw : List UInt8) : String :=
  String.ofList
    (if raw.getLast? = some 10 then dropReturn (Utf8.decodeChars raw.dropLast)
      else Utf8.decodeChars raw)

theorem readLine_concat (body : List UInt8) :
    readLine (body ++ [10]) = String.ofList (dropReturn (Utf8.decodeChars body)) := by
  rw [readLine, List.getLast?_concat, if_pos rfl, List.dropLast_concat]

theorem readLine_of_not_mem (h : 10 ∉ raw) : readLine raw = Utf8.decode raw := by
  rw [readLine, if_neg fun hlast => h (List.mem_of_getLast? hlast)]
  rfl

/-- **The lines of the text are read line by line.** -/
theorem lines_decode (bytes : List UInt8) :
    lines (Utf8.decode bytes) = (byteLines bytes).map readLine := by
  have htoList : (Utf8.decode bytes).toList = Utf8.decodeChars bytes := String.toList_ofList
  rw [lines, htoList]
  induction bytes using lines_induction with
  | last bytes h =>
      have hchars : '\n' ∉ Utf8.decodeChars bytes := fun hmem => h (Utf8.lineFeed_mem_decodeChars hmem)
      rw [lineChars_of_not_mem hchars, byteLines_of_not_mem h]
      simp only [Utf8.decodeChars_eq_nil_iff]
      split
      · rfl
      · rw [List.map_singleton, List.map_singleton, readLine_of_not_mem h]
        rfl
  | cut front back h ih =>
      have hchars : '\n' ∉ Utf8.decodeChars front := fun hmem => h (Utf8.lineFeed_mem_decodeChars hmem)
      have hsplit : Utf8.decodeChars (front ++ 10 :: back) =
          Utf8.decodeChars front ++ '\n' :: Utf8.decodeChars back :=
        Utf8.decodeChars_append_cons front (by decide) back
      rw [hsplit, lineChars_append_cons hchars, byteLines_append_cons h, List.map_cons, List.map_cons,
        readLine_concat, ih String.toList_ofList]

/-- What is read of a line has no line feed. -/
theorem lineFeed_not_mem_readLine (h : 10 ∉ raw.dropLast) : '\n' ∉ (readLine raw).toList := by
  intro hmem
  rw [readLine, String.toList_ofList] at hmem
  split at hmem
  · refine h (Utf8.lineFeed_mem_decodeChars ?_)
    rw [dropReturn] at hmem
    split at hmem
    · exact List.dropLast_subset _ hmem
    · exact hmem
  · rename_i hlast
    obtain ⟨body, rfl⟩ := exists_eq_concat_of_mem h (Utf8.lineFeed_mem_decodeChars hmem)
    exact hlast List.getLast?_concat

/-! ### Written lines -/

/-- Lines as they are written, each with a line feed behind it. -/
def written (ls : List String) : List UInt8 := ls.flatMap fun l => Utf8.encode l ++ [10]

theorem written_cons (line : String) (ls : List String) :
    written (line :: ls) = Utf8.encode line ++ 10 :: written ls := by
  rw [written, List.flatMap_cons, List.append_assoc, List.singleton_append, written]

/-- A line of bytes is text with a line feed behind it, and the text has no carriage return at its
end. -/
def Clean (raw : List UInt8) : Prop :=
  ∃ line : String, raw = Utf8.encode line ++ [10] ∧ line.toList.getLast? ≠ some '\r'

theorem dropReturn_eq_self_iff {l : List Char} : dropReturn l = l ↔ l.getLast? ≠ some '\r' := by
  rw [dropReturn]
  split
  · rename_i h
    refine iff_of_false ?_ (not_not_intro h)
    intro hsame
    have hlen := congrArg List.length hsame
    rw [List.length_dropLast] at hlen
    have hpos : 0 < l.length := List.length_pos_of_mem (List.mem_of_getLast? h)
    omega
  · rename_i h
    exact iff_of_true rfl h

/-- A line is written as it was if and only if it is clean. -/
theorem encode_readLine_iff : Utf8.encode (readLine raw) ++ [10] = raw ↔ Clean raw := by
  constructor
  · intro h
    refine ⟨readLine raw, h.symm, ?_⟩
    have hline := congrArg String.toList (readLine_concat (Utf8.encode (readLine raw)))
    rw [h, String.toList_ofList, Utf8.decodeChars_encode] at hline
    exact dropReturn_eq_self_iff.1 hline.symm
  · rintro ⟨line, rfl, hline⟩
    rw [readLine_concat, Utf8.decodeChars_encode, dropReturn_eq_self_iff.2 hline, String.ofList_toList]

/-- A text without line feed is written without one. -/
theorem lineFeed_not_mem_encode {line : String} (h : '\n' ∉ line.toList) : 10 ∉ Utf8.encode line := by
  intro hmem
  obtain ⟨front, back, hsplit⟩ := List.append_of_mem hmem
  have hchars := Utf8.decodeChars_append_cons (b := 10) front (by decide) back
  rw [← hsplit, Utf8.decodeChars_encode] at hchars
  refine h ?_
  rw [hchars]
  exact List.mem_append_right _ List.mem_cons_self

/-- A line feed stands behind every line that is written. -/
theorem count_written (h : ∀ raw ∈ rows, 10 ∉ raw.dropLast) :
    (written (rows.map readLine)).count 10 = rows.length := by
  induction rows with
  | nil => rfl
  | cons raw rows ih =>
      obtain ⟨hraw, hrows⟩ := List.forall_mem_cons.1 h
      have hline := lineFeed_not_mem_encode (lineFeed_not_mem_readLine hraw)
      have hrest := ih hrows
      rw [List.map_cons, written_cons, List.count_append, List.count_cons_self, hrest,
        List.count_eq_zero.2 hline, List.length_cons, Nat.zero_add]

/-- No line has more than one line feed. -/
theorem count_flatten_le (h : ∀ raw ∈ rows, 10 ∉ raw.dropLast) :
    rows.flatten.count 10 ≤ rows.length := by
  induction rows with
  | nil => exact Nat.le_refl _
  | cons raw rows ih =>
      obtain ⟨hraw, hrows⟩ := List.forall_mem_cons.1 h
      have hrest := ih hrows
      have hone : raw.count 10 ≤ 1 := by
        by_cases hmem : 10 ∈ raw
        · obtain ⟨body, rfl⟩ := exists_eq_concat_of_mem hraw hmem
          rw [List.dropLast_concat] at hraw
          refine Nat.le_of_eq ?_
          rw [List.count_append, List.count_eq_zero.2 hraw, List.count_singleton_self]
        · rw [List.count_eq_zero.2 hmem]
          exact Nat.zero_le 1
      rw [List.flatten_cons, List.count_append, List.length_cons]
      omega

/-- **Lines are written as they were if and only if all of them are clean.** -/
theorem written_readLine_iff (h : ∀ raw ∈ rows, 10 ∉ raw.dropLast) :
    written (rows.map readLine) = rows.flatten ↔ ∀ raw ∈ rows, Clean raw := by
  induction rows with
  | nil => simp [written]
  | cons raw rows ih =>
      obtain ⟨hraw, hrows⟩ := List.forall_mem_cons.1 h
      rw [List.forall_mem_cons, List.map_cons, written_cons, List.flatten_cons]
      constructor
      · intro heq
        have hline := lineFeed_not_mem_encode (lineFeed_not_mem_readLine hraw)
        -- There are as many line feeds as lines, so this line has one.
        have hmem : 10 ∈ raw := by
          have hcount := congrArg (List.count 10) heq
          have hall := count_written h
          have hrest := count_flatten_le hrows
          rw [List.map_cons, written_cons, List.length_cons] at hall
          rw [hall, List.count_append] at hcount
          exact List.count_pos_iff.1 (by omega)
        obtain ⟨body, rfl⟩ := exists_eq_concat_of_mem hraw hmem
        rw [List.append_assoc, List.singleton_append] at heq
        rw [List.dropLast_concat] at hraw
        obtain ⟨hsame, hrest⟩ := append_cons_inj hline hraw heq
        exact ⟨encode_readLine_iff.1 (by rw [hsame]), (ih hrows).1 hrest⟩
      · rintro ⟨hclean, hrest⟩
        rw [(ih hrows).2 hrest, ← List.singleton_append, ← List.append_assoc,
          encode_readLine_iff.2 hclean]

end Text

end Upkeep
