/-
**Words that occur once are found, whatever the order of the texts.**

An index knows a word as unseen, located or repeated, and every occurrence takes it one step further: from
the first one on it is located, from the second one on it is repeated and stays so.  In the occurrences
sorted by word those that stand alone are the located ones.  So an index is determined by how often each
word occurs in the texts, and where, and not by the order in which they were added; and the exclusions come
after the counting.

Main definitions:

* `Upkeep.Audit.Identifier`, `Upkeep.Audit.Place`, `Upkeep.Audit.Occurs` — words, and where they stand in
  some texts;
* `Upkeep.Audit.OccursOnce` — words with one place in all texts;
* `Upkeep.Audit.Sighting.Before` — the order by path, line and word;
* `Upkeep.Audit.WordIndex.ofTexts` — the index of some texts;
* `Upkeep.Audit.Standing`, `Upkeep.Audit.WordIndex.standing` — what an index knows of a word.

Main results:

* `Upkeep.Audit.mem_sighted_iff` — the words of the texts are found, each at its place;
* `Upkeep.Audit.WordIndex.standing_addText`, `Upkeep.Audit.WordIndex.standing_ofTexts` — what one more text
  does to a word, and what all of them do;
* `Upkeep.Audit.WordIndex.mem_unique_iff` — the located words are told, unless they are excluded;
* `Upkeep.Audit.unique_words_of_texts` — **the words that occur once are told, in order, whatever the order
  of the texts**.
-/

import Mathlib.Data.List.Nodup
import Mathlib.Data.List.Perm.Basic
import Mathlib.Data.String.Basic
import Upkeep.Audit.UniqueWords
import Upkeep.Proofs.Data.Ordered
import Upkeep.Proofs.Text.Stretches

set_option relaxedAutoImplicit false
set_option autoImplicit false

namespace Upkeep

namespace Audit

open Text

/-- A text with the path that it is known by. -/
abbrev NamedText : Type := String × List UInt8

/-! ### Words and their places -/

/-- A letter or the underscore, and at least one more letter, digit or underscore behind it, all of
ASCII. -/
def Identifier (w : List UInt8) : Prop :=
  2 ≤ w.length ∧ (∀ b ∈ w, isWordByte b = true) ∧ ∀ b ∈ w.head?, ¬(0x30 ≤ b ∧ b ≤ 0x39)

/-- A place in some texts: the text, the line, and the bytes in front on the line, all from zero. -/
structure Place where
  text : Nat
  line : Nat
  offset : Nat
deriving DecidableEq, Repr

/-- A word stands in a line behind some bytes, and nothing next to it belongs to a word. -/
def StandsAt (line : List UInt8) (offset : Nat) (word : String) : Prop :=
  Identifier (Utf8.encode word) ∧ StretchAt (!isWordByte ·) line offset (Utf8.encode word)

/-- A word stands at a place of some texts, in the text that is known by `path`. -/
def Occurs (texts : List NamedText) (path word : String) (p : Place) : Prop :=
  ∃ content line, texts[p.text]? = some (path, content) ∧
    (segments (· == 0x0a) content)[p.line]? = some line ∧ StandsAt line p.offset word

/-- A word has one place in all the texts together, and the sighting tells it. -/
def OccursOnce (texts : List NamedText) (s : Sighting) : Prop :=
  ∃ p, Occurs texts s.path s.word p ∧ s.line = p.line + 1 ∧
    ∀ path q, Occurs texts path s.word q → q = p

variable {texts texts' : List NamedText} {path word : String} {content line w : List UInt8} {p : Place}
  {s : Sighting} {i offset : Nat}

/-! ### The bytes of words -/

theorem toNat_lt_of_isWordByte {b : UInt8} (h : isWordByte b = true) : b.toNat < 0x80 := by
  simp only [isWordByte, Bool.or_eq_true, Bool.and_eq_true, decide_eq_true_eq, beq_iff_eq,
    UInt8.le_iff_toNat_le, UInt8.reduceToNat] at h
  rcases h with ((h | h) | h) | rfl
  · omega
  · omega
  · omega
  · decide

theorem utf8EncodeChar_of_ascii {b : UInt8} (h : b.toNat < 0x80) :
    String.utf8EncodeChar (Char.ofNat b.toNat) = [b] := by
  have hval : (Char.ofNat b.toNat).val.toNat = b.toNat := Utf8.toNat_ofNat (.inl (by omega))
  rw [String.utf8EncodeChar]
  simp only [hval]
  rw [if_pos (by omega), UInt8.ofNat_toNat]

theorem decodeChars_of_ascii (h : ∀ b ∈ w, b.toNat < 0x80) :
    Utf8.decodeChars w = w.map fun b => Char.ofNat b.toNat := by
  induction w with
  | nil => rfl
  | cons b w ih =>
      obtain ⟨hb, hw⟩ := List.forall_mem_cons.1 h
      have hcut := Utf8.decodeChars_append_cons [] hb w
      rwa [List.nil_append, ih hw] at hcut

/-- Words are written as the bytes that they were read from. -/
theorem encode_decode (h : ∀ b ∈ w, isWordByte b = true) : Utf8.encode (Utf8.decode w) = w := by
  have hascii : ∀ b ∈ w, b.toNat < 0x80 := fun b hb => toNat_lt_of_isWordByte (h b hb)
  rw [Utf8.encode_eq, Utf8.decode, String.toList_ofList, decodeChars_of_ascii hascii,
    List.flatMap_map, List.flatMap_congr fun b hb => utf8EncodeChar_of_ascii (hascii b hb),
    List.flatMap_singleton']

theorem decode_encode (word : String) : Utf8.decode (Utf8.encode word) = word := by
  rw [Utf8.decode, Utf8.decodeChars_encode, String.ofList_toList]

theorem isIdentifier_iff :
    isIdentifier w = true ↔ 2 ≤ w.length ∧ ∀ b ∈ w.head?, ¬(0x30 ≤ b ∧ b ≤ 0x39) := by
  match w with
  | [] => simp [isIdentifier]
  | [b] => simp [isIdentifier]
  | b :: b' :: w =>
      rw [isIdentifier, Bool.not_eq_true', ← Bool.not_eq_true, Bool.and_eq_true, decide_eq_true_eq,
        decide_eq_true_eq]
      simp

/-! ### Sightings with their places -/

/-- The words of a line with their places. -/
def placedWords (line : List UInt8) : List (Nat × List UInt8) :=
  (placed 0 (segments (!isWordByte ·) line)).filter fun e => isIdentifier e.2

theorem map_placedWords (line : List UInt8) :
    (placedWords line).map (fun e => Utf8.decode e.2) = wordsOfLine line := by
  rw [wordsOfLine, ← map_snd_placed 0 (segments (!isWordByte ·) line), List.filter_map, List.map_map]
  rfl

/-- The words of a line are found, each at its place. -/
theorem mem_placedWords_iff :
    (offset, w) ∈ placedWords line ↔ Identifier w ∧ StretchAt (!isWordByte ·) line offset w := by
  rw [placedWords, List.mem_filter, mem_placed_segments, isIdentifier_iff, Identifier]
  constructor
  · rintro ⟨hstretch, hlength, hfirst⟩
    refine ⟨⟨hlength, fun b hb => ?_, hfirst⟩, hstretch⟩
    simpa using hstretch.not_isSep b hb
  · rintro ⟨⟨hlength, -, hfirst⟩, hstretch⟩
    exact ⟨hstretch, hlength, hfirst⟩

/-- The words of one text with their places. -/
def sightedIn (t : NamedText) (i : Nat) : List (Place × Sighting) :=
  (segments (· == 0x0a) t.2).zipIdx.flatMap fun e =>
    (placedWords e.1).map fun w => (⟨i, e.2, w.1⟩, ⟨t.1, e.2 + 1, Utf8.decode w.2⟩)

/-- The words of some texts with their places. -/
def sighted (texts : List NamedText) : List (Place × Sighting) :=
  texts.zipIdx.flatMap fun e => sightedIn e.1 e.2

theorem map_snd_sightedIn (t : NamedText) (i : Nat) :
    (sightedIn t i).map Prod.snd = Sighting.ofText t.1 t.2 := by
  rw [sightedIn, Sighting.ofText, List.zipIdx_succ, List.map_flatMap, List.flatMap_map]
  refine List.flatMap_congr ?_
  rintro ⟨line, n⟩ -
  dsimp only
  rw [← map_placedWords, List.map_map, List.map_map]
  rfl

/-- Without the places they are the sightings of the texts. -/
theorem map_snd_sighted (texts : List NamedText) :
    (sighted texts).map Prod.snd = texts.flatMap fun t => Sighting.ofText t.1 t.2 := by
  have hfst := List.zipIdx_map_fst 0 texts
  rw [sighted, List.map_flatMap, ← List.flatMap_congr fun e _ => (map_snd_sightedIn e.1 e.2).symm]
  conv_rhs => rw [← hfst, List.flatMap_map]

/-- **The words of the texts are found, each at its place.** -/
theorem mem_sighted_iff : (p, s) ∈ sighted texts ↔ Occurs texts s.path s.word p ∧ s.line = p.line + 1 := by
  simp only [sighted, sightedIn, List.mem_flatMap, List.mem_map, Prod.exists, List.mem_zipIdx_iff_getElem?,
    mem_placedWords_iff, Occurs, StandsAt]
  constructor
  · rintro ⟨path, content, i, htext, line, n, hline, offset, w, hw, he⟩
    obtain ⟨rfl, rfl⟩ := Prod.mk.inj he
    have hback := encode_decode hw.1.2.1
    exact ⟨⟨content, line, htext, hline, by rwa [hback]⟩, rfl⟩
  · rintro ⟨⟨content, line, htext, hline, hw⟩, hn⟩
    refine ⟨s.path, content, p.text, htext, line, p.line, hline, p.offset, _, hw, ?_⟩
    rw [decode_encode, ← hn]

/-- What members of a list are made into has no repetition if each of them has none, and the place of the
member can be told. -/
theorem nodup_flatMap_zipIdx {α β γ : Type} {l : List α} {f : α × Nat → List β} {g : β → γ}
    (place : γ → Nat) (hplace : ∀ e, ∀ b ∈ f e, place (g b) = e.2) (hf : ∀ e, ((f e).map g).Nodup) :
    ((l.zipIdx.flatMap f).map g).Nodup := by
  rw [List.map_flatMap, List.nodup_flatMap]
  refine ⟨fun e _ => hf e, ?_⟩
  have hindices : l.zipIdx.Pairwise fun e e' => e.2 ≠ e'.2 := by
    rw [← List.pairwise_map (f := Prod.snd) (R := fun i j => i ≠ j), List.zipIdx_map_snd]
    exact List.nodup_range'
  refine hindices.imp fun {e e'} hne => List.disjoint_left.2 ?_
  intro c hc hc'
  obtain ⟨b, hb, rfl⟩ := List.mem_map.1 hc
  obtain ⟨b', hb', heq⟩ := List.mem_map.1 hc'
  exact hne (by rw [← hplace e b hb, ← hplace e' b' hb', heq])

/-- No two words stand at one place. -/
theorem nodup_sighted (texts : List NamedText) : ((sighted texts).map Prod.fst).Nodup := by
  refine nodup_flatMap_zipIdx Place.text ?_ ?_
  · intro e b hb
    obtain ⟨e', -, hb⟩ := List.mem_flatMap.1 hb
    obtain ⟨w, -, rfl⟩ := List.mem_map.1 hb
    rfl
  · intro e
    refine nodup_flatMap_zipIdx Place.line ?_ ?_
    · intro e' b hb
      obtain ⟨w, -, rfl⟩ := List.mem_map.1 hb
      rfl
    · intro e'
      rw [List.map_map, List.Nodup, List.pairwise_map]
      refine ((pairwise_placed 0 _).filter _).imp ?_
      intro a b hlt heq
      have hoffset := congrArg Place.offset heq
      exact absurd hoffset (Nat.ne_of_lt hlt)

/-! ### What an index knows of a word -/

/-- What an index knows of a word: nothing, the only place that was met, or that there were more. -/
inductive Standing where
  | unseen
  | located (s : Sighting)
  | repeated
deriving DecidableEq, Repr

namespace Standing

/-- One more occurrence is met. -/
def meet : Standing → Sighting → Standing
  | unseen, s => located s
  | _, _ => repeated

/-- What the occurrences of a word come to. -/
def ofSightings : List Sighting → Standing
  | [] => unseen
  | [s] => located s
  | _ :: _ :: _ => repeated

@[simp] theorem unseen_meet (s : Sighting) : unseen.meet s = located s := rfl

@[simp] theorem located_meet (s s' : Sighting) : (located s).meet s' = repeated := rfl

@[simp] theorem repeated_meet (s : Sighting) : repeated.meet s = repeated := rfl

/-- A repeated word stays repeated. -/
@[simp] theorem foldl_repeated (l : List Sighting) : l.foldl meet repeated = repeated := by
  induction l with
  | nil => rfl
  | cons s l ih => exact ih

theorem foldl_unseen (l : List Sighting) : l.foldl meet unseen = ofSightings l := by
  match l with
  | [] => rfl
  | [s] => rfl
  | s :: s' :: l => simp [ofSightings]

/-- New occurrences come on top of those before, wherever they are kept. -/
theorem ofSightings_append (l l' : List Sighting) :
    ofSightings (l ++ l') = l.foldl meet (ofSightings l') := by
  match l, l' with
  | [], l' => rfl
  | s :: l, [] => rw [List.append_nil, ← foldl_unseen]; rfl
  | s :: l, [s'] => cases l <;> simp [ofSightings]
  | s :: l, s' :: s'' :: l' => cases l <;> simp [ofSightings]

theorem ofSightings_of_perm {l l' : List Sighting} (h : l.Perm l') : ofSightings l = ofSightings l' := by
  match l with
  | [] => rw [h.nil_eq]
  | [s] => rw [List.singleton_perm.1 h]
  | s :: s' :: l =>
      match l', h.length_eq with
      | t :: t' :: l', _ => rfl

theorem ofSightings_eq_located_iff {l : List Sighting} : ofSightings l = located s ↔ l = [s] := by
  match l with
  | [] => simp [ofSightings]
  | [s'] => simp [ofSightings]
  | s' :: s'' :: l => simp [ofSightings]

end Standing

/-- The sightings of a word in some texts. -/
def seenIn (texts : List NamedText) (word : String) : List Sighting :=
  (texts.flatMap fun t => Sighting.ofText t.1 t.2).filter (·.word == word)

namespace WordIndex

variable {ix ix' : WordIndex}

/-- The index of some texts, added one after the other. -/
def ofTexts (texts : List NamedText) : WordIndex := texts.foldl (fun ix t => ix.addText t.1 t.2) empty

/-- What an index knows of a word. -/
def standing (ix : WordIndex) (word : String) : Standing :=
  Standing.ofSightings (ix.sightings.filter (·.word == word))

@[simp] theorem standing_empty (word : String) : empty.standing word = .unseen := rfl

/-- **What one more text does to a word**: every occurrence is met. -/
theorem standing_addText (ix : WordIndex) (path : String) (content : List UInt8) (word : String) :
    (ix.addText path content).standing word =
      ((Sighting.ofText path content).filter (·.word == word)).foldl Standing.meet (ix.standing word) := by
  rw [standing, sightings_addText, List.filter_append, Standing.ofSightings_append, standing]

theorem standing_foldl (texts : List NamedText) (ix : WordIndex) (word : String) :
    (texts.foldl (fun ix t => ix.addText t.1 t.2) ix).standing word =
      (seenIn texts word).foldl Standing.meet (ix.standing word) := by
  induction texts generalizing ix with
  | nil => rfl
  | cons t texts ih =>
      rw [List.foldl_cons, ih, standing_addText, seenIn, seenIn, List.flatMap_cons, List.filter_append,
        List.foldl_append]

/-- **What an index of texts knows of a word** is what its occurrences in all of them come to. -/
theorem standing_ofTexts (texts : List NamedText) (word : String) :
    (ofTexts texts).standing word = Standing.ofSightings (seenIn texts word) := by
  rw [ofTexts, standing_foldl, standing_empty, Standing.foldl_unseen]

end WordIndex

/-! ### Words that stand alone -/

/-- How often a word is seen. -/
def timesSeen (l : List Sighting) (word : String) : Nat := l.countP (·.word == word)

theorem timesSeen_cons_self (o : Sighting) (l : List Sighting) :
    timesSeen (o :: l) o.word = timesSeen l o.word + 1 := by simp [timesSeen]

theorem timesSeen_cons_of_ne {o : Sighting} (h : o.word ≠ word) (l : List Sighting) :
    timesSeen (o :: l) word = timesSeen l word := by simp [timesSeen, h]

theorem timesSeen_pos {l : List Sighting} (h : s ∈ l) : 0 < timesSeen l s.word :=
  List.countP_pos_iff.2 ⟨s, h, by simp⟩

theorem timesSeen_eq_one_iff {l : List Sighting} :
    s ∈ l ∧ timesSeen l s.word = 1 ↔ l.filter (·.word == s.word) = [s] := by
  rw [timesSeen, List.countP_eq_length_filter, List.length_eq_one_iff]
  constructor
  · rintro ⟨hs, t, ht⟩
    have hmem : s ∈ l.filter (·.word == s.word) := List.mem_filter.2 ⟨hs, by simp⟩
    rw [ht] at hmem ⊢
    rw [List.mem_singleton.1 hmem]
  · intro h
    have hmem : s ∈ l.filter (·.word == s.word) := h ▸ List.mem_singleton.2 rfl
    exact ⟨List.mem_of_mem_filter hmem, s, h⟩

/-- The list is sorted by word. -/
def ByWord (l : List Sighting) : Prop := l.Pairwise fun a b => (compare a.word b.word).isLE = true

/-- In a list sorted by word, a word that comes again comes next. -/
theorem timesSeen_eq_zero_iff {o : Sighting} {rest : List Sighting} (h : ByWord (o :: rest)) :
    timesSeen rest o.word = 0 ↔ rest.head?.map (·.word) ≠ some o.word := by
  obtain ⟨ho, hrest⟩ := List.pairwise_cons.1 h
  cases rest with
  | nil => simp [timesSeen]
  | cons next rest =>
      by_cases hword : next.word = o.word
      · simp [timesSeen, hword]
      · refine iff_of_true ?_ (by simpa using hword)
        rw [timesSeen, List.countP_eq_zero]
        intro s hs heq
        rw [beq_iff_eq] at heq
        rcases List.mem_cons.1 hs with rfl | hs
        · exact hword heq
        · have hle := (List.pairwise_cons.1 hrest).1 s hs
          rw [heq] at hle
          exact hword (Std.LawfulEqCmp.eq_of_compare
            (Std.OrientedCmp.isLE_antisymm hle (ho next List.mem_cons_self)))

/-- **In a list sorted by word those stand alone whose word is seen once**, and is not the one in front of
the list. -/
theorem alone_eq_filter {before : Option String} {l : List Sighting} (hl : ByWord l)
    (hbefore : ∀ w ∈ before, ∀ s ∈ l, (compare w s.word).isLE = true) :
    alone before l = l.filter fun s => before != some s.word && timesSeen l s.word == 1 := by
  induction l generalizing before with
  | nil => rfl
  | cons o rest ih =>
      obtain ⟨ho, hrest⟩ := List.pairwise_cons.1 hl
      have hnext : (rest.head?.map (·.word) != some o.word) = (timesSeen (o :: rest) o.word == 1) := by
        rw [Bool.eq_iff_iff, bne_iff_ne, beq_iff_eq, timesSeen_cons_self, ← timesSeen_eq_zero_iff hl]
        omega
      have hothers : rest.filter (fun s => some o.word != some s.word && timesSeen rest s.word == 1) =
          rest.filter fun s => before != some s.word && timesSeen (o :: rest) s.word == 1 := by
        refine List.filter_congr fun s hs => ?_
        rw [Bool.eq_iff_iff, Bool.and_eq_true, Bool.and_eq_true, bne_iff_ne, bne_iff_ne, beq_iff_eq,
          beq_iff_eq, ne_eq, Option.some.injEq]
        by_cases hword : o.word = s.word
        · have hpos := timesSeen_pos hs
          have htwice := timesSeen_cons_self o rest
          rw [hword] at htwice
          refine iff_of_false (fun h => h.1 hword) fun h => ?_
          omega
        · -- What is in front of the list is in front of the first member, so it is not the same word.
          have hfront : before ≠ some s.word := by
            intro hsame
            exact hword (Std.LawfulEqCmp.eq_of_compare
              (Std.OrientedCmp.isLE_antisymm (ho s hs) (hbefore s.word hsame o List.mem_cons_self)))
          rw [timesSeen_cons_of_ne hword]
          exact and_congr_left fun _ => iff_of_true hword hfront
      rw [alone, ih hrest (by simpa using ho), hothers, List.filter_cons, hnext]

/-! ### The order of the words that are told -/

namespace Sighting

/-- The order by path, line and word. -/
def Before (a b : Sighting) : Prop :=
  a.path < b.path ∨ a.path = b.path ∧ (a.line < b.line ∨ a.line = b.line ∧ a.word < b.word)

theorem order_eq_lt_iff {a b : Sighting} : a.order b = .lt ↔ a.Before b := by
  rw [order, Before, Ordering.then_eq_lt, Ordering.then_eq_lt, compare_lt_iff_lt, compare_lt_iff_lt,
    compare_lt_iff_lt, Std.LawfulEqCmp.compare_eq_iff_eq, Std.LawfulEqCmp.compare_eq_iff_eq]

instance transCmp_order : Std.TransCmp order := by
  have hpath : Std.TransCmp fun a b : Sighting => compare a.path b.path := Data.transCmp_on Sighting.path
  have hline : Std.TransCmp fun a b : Sighting => compare a.line b.line := Data.transCmp_on Sighting.line
  have hword : Std.TransCmp fun a b : Sighting => compare a.word b.word := Data.transCmp_on Sighting.word
  exact inferInstanceAs
    (Std.TransCmp (compareLex (fun a b : Sighting => compare a.path b.path)
      (compareLex (fun a b => compare a.line b.line) fun a b => compare a.word b.word)))

instance lawfulEqCmp_order : Std.LawfulEqCmp order where
  eq_of_compare {a b} h := by
    rw [order, Ordering.then_eq_eq, Ordering.then_eq_eq] at h
    obtain ⟨hpath, hline, hword⟩ := h
    obtain ⟨path, line, word⟩ := a
    obtain rfl := Std.LawfulEqCmp.eq_of_compare hpath
    obtain rfl := Std.LawfulEqCmp.eq_of_compare hline
    obtain rfl := Std.LawfulEqCmp.eq_of_compare hword
    rfl

end Sighting

namespace WordIndex

variable {ix ix' : WordIndex} {excluded : List String}

/-- Whether a sighting is told: its path is not excluded, and its word is seen once. -/
def tells (ix : WordIndex) (excluded : List String) (s : Sighting) : Bool :=
  !excluded.any (startsWith s.path ·) && timesSeen ix.sightings s.word == 1

/-- **What is told are the words that are seen once**, without the excluded ones, in order. -/
theorem unique_eq (ix : WordIndex) (excluded : List String) :
    ix.unique excluded =
      (ix.sightings.filter (ix.tells excluded)).mergeSort fun a b => (a.order b).isLE := by
  have : Std.TransCmp fun a b : Sighting => compare a.word b.word := Data.transCmp_on Sighting.word
  have hperm := ix.sightings.mergeSort_perm fun a b => (compare a.word b.word).isLE
  have hsorted : ByWord (ix.sightings.mergeSort fun a b => (compare a.word b.word).isLE) :=
    Data.pairwise_mergeSort ix.sightings
  have hseen : ∀ word, timesSeen (ix.sightings.mergeSort fun a b => (compare a.word b.word).isLE) word =
      timesSeen ix.sightings word := fun word => hperm.countP_eq _
  rw [unique]
  refine Data.mergeSort_eq_of_perm ?_
  rw [alone_eq_filter hsorted (by simp), List.filter_filter]
  refine .trans (.of_eq (List.filter_congr fun s _ => ?_)) (hperm.filter _)
  rw [hseen, tells]
  rfl

/-- Only which sightings there are matters, not their order. -/
theorem unique_congr (h : ix.sightings.Perm ix'.sightings) (excluded : List String) :
    ix.unique excluded = ix'.unique excluded := by
  have htells : ix.tells excluded = ix'.tells excluded := by
    funext s
    have hseen : timesSeen ix.sightings s.word = timesSeen ix'.sightings s.word := h.countP_eq _
    rw [tells, tells, hseen]
  rw [unique_eq, unique_eq, htells]
  exact Data.mergeSort_eq_of_perm (h.filter _)

theorem mem_unique_iff_tells : s ∈ ix.unique excluded ↔ s ∈ ix.sightings ∧ ix.tells excluded s = true := by
  rw [unique_eq, (List.mergeSort_perm _ _).mem_iff, List.mem_filter]

/-- **The located words are told**, unless they are excluded. -/
theorem mem_unique_iff : s ∈ ix.unique excluded ↔
    ix.standing s.word = .located s ∧ ∀ e ∈ excluded, ¬e.toList <+: s.path.toList := by
  rw [mem_unique_iff_tells, tells, standing, Standing.ofSightings_eq_located_iff, ← timesSeen_eq_one_iff,
    and_assoc]
  refine and_congr_right fun _ => ?_
  rw [Bool.and_eq_true, beq_iff_eq, and_comm]
  refine and_congr_right fun _ => ?_
  simp [startsWith]

/-- The words that are told are told in order, and each of them once. -/
theorem pairwise_unique (ix : WordIndex) (excluded : List String) :
    (ix.unique excluded).Pairwise Sighting.Before := by
  have hle : (ix.unique excluded).Pairwise fun a b => (a.order b).isLE = true := by
    rw [unique_eq]
    exact Data.pairwise_mergeSort _
  have hne : (ix.unique excluded).Nodup := by
    rw [unique_eq, (List.mergeSort_perm _ _).nodup_iff, List.nodup_iff_count_le_one]
    intro s
    by_cases hs : s ∈ ix.sightings.filter (ix.tells excluded)
    · -- A sighting counts among those of its word, and there is only one of them.
      obtain ⟨-, htells⟩ := List.mem_filter.1 hs
      rw [tells, Bool.and_eq_true, beq_iff_eq] at htells
      calc (ix.sightings.filter (ix.tells excluded)).count s
        _ ≤ ix.sightings.count s := List.filter_sublist.count_le s
        _ ≤ timesSeen ix.sightings s.word := List.countP_mono_left fun o _ ho => by
            rw [beq_iff_eq] at ho ⊢
            rw [ho]
        _ = 1 := htells.2
    · rw [List.count_eq_zero.2 hs]
      exact Nat.zero_le 1
  refine (hle.and hne).imp ?_
  intro a b hab
  rw [← Sighting.order_eq_lt_iff]
  cases horder : a.order b with
  | lt => rfl
  | eq => exact absurd (Std.LawfulEqCmp.eq_of_compare horder) hab.2
  | gt => simp [horder] at hab

end WordIndex

/-! ### The index of some texts -/

theorem eq_singleton_iff_of_nodup {α : Type} {l : List α} {a : α} (h : l.Nodup) :
    l = [a] ↔ a ∈ l ∧ ∀ b ∈ l, b = a := by
  rw [← List.perm_singleton, List.perm_ext_iff_of_nodup h (List.nodup_singleton a)]
  simp only [List.mem_singleton]
  exact ⟨fun hl => ⟨(hl a).2 rfl, fun b => (hl b).1⟩, fun hl b => ⟨hl.2 b, fun hb => hb ▸ hl.1⟩⟩

/-- **The words with one place are located**, and no others. -/
theorem standing_eq_located_iff :
    (WordIndex.ofTexts texts).standing s.word = .located s ↔ OccursOnce texts s := by
  have hnodup : ((sighted texts).filter (·.2.word == s.word)).Nodup :=
    (nodup_sighted texts).of_map.filter _
  have hmem : ∀ q t, (q, t) ∈ (sighted texts).filter (·.2.word == s.word) ↔
      (Occurs texts t.path s.word q ∧ t.line = q.line + 1) ∧ t.word = s.word := by
    intro q t
    rw [List.mem_filter, mem_sighted_iff, beq_iff_eq]
    refine and_congr_left fun (hword : t.word = s.word) => ?_
    rw [hword]
  rw [WordIndex.standing_ofTexts, Standing.ofSightings_eq_located_iff, seenIn, ← map_snd_sighted,
    List.filter_map, List.map_eq_singleton_iff]
  constructor
  · rintro ⟨⟨p, t⟩, hp, rfl⟩
    obtain ⟨hin, honly⟩ := (eq_singleton_iff_of_nodup hnodup).1 hp
    obtain ⟨⟨hoccurs, hline⟩, -⟩ := (hmem p t).1 hin
    refine ⟨p, hoccurs, hline, fun path q hq => ?_⟩
    have hother := honly (q, ⟨path, q.line + 1, t.word⟩) ((hmem _ _).2 ⟨⟨hq, rfl⟩, rfl⟩)
    exact congrArg Prod.fst hother
  · rintro ⟨p, hoccurs, hline, honly⟩
    have hin := (hmem p s).2 ⟨⟨hoccurs, hline⟩, rfl⟩
    refine ⟨(p, s), (eq_singleton_iff_of_nodup hnodup).2 ⟨hin, ?_⟩, rfl⟩
    rintro ⟨q, t⟩ ht
    -- The place is the same, and no two words stand at one place.
    exact List.inj_on_of_nodup_map (nodup_sighted texts) (List.mem_of_mem_filter ht)
      (List.mem_of_mem_filter hin) (honly t.path q ((hmem q t).1 ht).1.1)

theorem sightings_foldl (texts : List NamedText) (ix : WordIndex) :
    (texts.foldl (fun ix t => ix.addText t.1 t.2) ix).sightings.Perm
      ((texts.flatMap fun t => Sighting.ofText t.1 t.2) ++ ix.sightings) := by
  induction texts generalizing ix with
  | nil => exact .refl _
  | cons t texts ih =>
      rw [List.foldl_cons, List.flatMap_cons, List.append_assoc]
      refine (ih _).trans ?_
      rw [WordIndex.sightings_addText]
      exact (List.perm_append_comm_assoc _ _ _)

/-- The texts may be added in any order. -/
theorem sightings_ofTexts_perm (h : texts.Perm texts') :
    (WordIndex.ofTexts texts).sightings.Perm (WordIndex.ofTexts texts').sightings :=
  (sightings_foldl texts .empty).trans
    (((h.flatMap_right _).append_right _).trans (sightings_foldl texts' .empty).symm)

/-- **The words that occur once are told, in order, whatever the order of the texts**: a word is told with
the path and the number of the line of its only occurrence, unless the path begins with an excluded text;
and nothing else is told. -/
theorem unique_words_of_texts (h : texts.Perm texts') (excluded : List String) :
    (∀ s, s ∈ (WordIndex.ofTexts texts).unique excluded ↔
      OccursOnce texts s ∧ ∀ e ∈ excluded, ¬e.toList <+: s.path.toList) ∧
    ((WordIndex.ofTexts texts).unique excluded).Pairwise Sighting.Before ∧
    (WordIndex.ofTexts texts').unique excluded = (WordIndex.ofTexts texts).unique excluded := by
  refine ⟨fun s => ?_, WordIndex.pairwise_unique _ excluded, ?_⟩
  · rw [WordIndex.mem_unique_iff, standing_eq_located_iff]
  · exact (WordIndex.unique_congr (sightings_ofTexts_perm h) excluded).symm

/-- A word is told that stands alone in the second of two texts, and the first is excluded. -/
theorem unique_words_of_two_texts :
    [("src/a.cpp", Utf8.encode "int fooBar = 1;\nint x;\n"), ("libs/b.h", Utf8.encode "// lonely_word\n")].Perm
      [("libs/b.h", Utf8.encode "// lonely_word\n"), ("src/a.cpp", Utf8.encode "int fooBar = 1;\nint x;\n")] ∧
    ⟨"src/a.cpp", 1, "fooBar"⟩ ∈
      (WordIndex.ofTexts [("libs/b.h", Utf8.encode "// lonely_word\n"),
        ("src/a.cpp", Utf8.encode "int fooBar = 1;\nint x;\n")]).unique ["libs"] := by
  obtain ⟨hmem, -, heq⟩ := unique_words_of_texts (.swap ("libs/b.h", Utf8.encode "// lonely_word\n")
    ("src/a.cpp", Utf8.encode "int fooBar = 1;\nint x;\n") []) ["libs"]
  refine ⟨.swap _ _ [], ?_⟩
  rw [heq, hmem, ← standing_eq_located_iff]
  decide +kernel

end Audit

end Upkeep
