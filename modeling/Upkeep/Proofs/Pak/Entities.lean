/-
**The entities of a map are counted by their classes.**

A block is read exactly where one is written, and its bytes are those that were written: a key and a
value go up to the next quote, so nothing in them, not even a line feed or a brace, can end a line or
the block.  The second reading of a block is not bound to its lines, but it takes a quote for the start
of a key only where one starts: in front of the first quote, and behind each value, up to the next
quote, there is nothing else.

Main definitions:

* `Upkeep.Pak.PairLine`, `Upkeep.Pak.Entity` — keys and values as they are written, and entities;
* `Upkeep.Pak.entitiesText` — entities one behind the other;
* `Upkeep.Pak.Ends` — where counting stops.

Main results:

* `Upkeep.Pak.block?_eq_some_iff` — a block is read exactly where an entity is written;
* `Upkeep.Pak.pairsIn_text` — **the second reading finds the keys and values that were written**;
* `Upkeep.Pak.exists_entities` — every text is entities, and then something where counting stops;
* `Upkeep.Pak.classNames_written` — **every class is counted as often as an entity has it**.
-/

import Mathlib.Data.List.TakeWhile
import Upkeep.Pak.Entities
import Upkeep.Proofs.Pak.Counts

set_option relaxedAutoImplicit false
set_option autoImplicit false

namespace Upkeep

namespace Pak

variable {s r : List UInt8}

/-! ### Entities as they are written -/

/-- A key and a value, without quotes in them, and the number of spaces behind them. -/
structure PairLine where
  key : List UInt8
  value : List UInt8
  spaces : Nat
  key_plain : quote ∉ key
  value_plain : quote ∉ value

namespace PairLine

/-- The key with its value. -/
def pair (l : PairLine) : Pair := (l.key, l.value)

/-- The spaces and the line feed at the end of the line. -/
def ending (l : PairLine) : List UInt8 := List.replicate l.spaces space ++ [newline]

/-- The line behind its first quote. -/
def body (l : PairLine) : List UInt8 :=
  l.key ++ quote :: space :: quote :: (l.value ++ quote :: l.ending)

/-- The line as it is written. -/
def text (l : PairLine) : List UInt8 := quote :: l.body

end PairLine

/-- Keys and values in order. -/
abbrev Entity := List PairLine

namespace Entity

/-- The lines of an entity and the one that closes it. -/
def lines (e : Entity) : List UInt8 := e.flatMap PairLine.text ++ [closeBrace, newline]

/-- An entity as it is written. -/
def text (e : Entity) : List UInt8 := openBrace :: newline :: e.lines

/-- The class of an entity: the value of its last key of that name. -/
def class? (e : Entity) : Option String :=
  ((e.filter (·.key == classKey)).getLast?).map fun l => Text.Utf8.decode l.value

end Entity

/-- Entities one behind the other. -/
def entitiesText (es : List Entity) : List UInt8 := es.flatMap Entity.text

/-- Where counting stops: at most one byte is left, or no entity is written there. -/
def Ends (s : List UInt8) : Prop := s.length ≤ 1 ∨ ∀ e : Entity, ¬ e.text <+: s

/-! ### The parts of a line -/

theorem expect?_eq_some_iff {b : UInt8} : expect? b s = some r ↔ s = b :: r := by
  cases s with
  | nil => simp [expect?]
  | cons c s =>
      rw [expect?, List.cons.injEq]
      split
      · simp_all
      · simp_all

/-- What stands in front of the next quote is read up to it. -/
theorem upToQuote?_eq_some_iff {k : List UInt8} :
    upToQuote? s = some (k, r) ↔ quote ∉ k ∧ s = k ++ quote :: r := by
  induction s generalizing k with
  | nil => simp [upToQuote?]
  | cons b s ih =>
      rw [upToQuote?]
      split
      · rename_i hb
        rw [beq_iff_eq] at hb
        cases k with
        | nil => simp [hb]
        | cons c k =>
            simp only [hb, Option.some.injEq, Prod.mk.injEq, List.cons_append, List.cons.injEq,
              List.mem_cons, not_or]
            constructor
            · rintro ⟨⟨⟩, -⟩
            · rintro ⟨⟨hne, -⟩, heq, -⟩
              exact absurd heq hne
      · rename_i hb
        rw [beq_iff_eq] at hb
        rw [Option.map_eq_some_iff]
        constructor
        · rintro ⟨⟨k', r'⟩, hfound, heq⟩
          rw [Prod.mk.injEq] at heq
          obtain ⟨rfl, rfl⟩ := heq
          obtain ⟨hk, rfl⟩ := ih.1 hfound
          exact ⟨by simp [hk, Ne.symm hb], rfl⟩
        · rintro ⟨hk, heq⟩
          cases k with
          | nil => exact absurd (List.cons.inj heq).1 hb
          | cons c k =>
              obtain ⟨rfl, rfl⟩ := List.cons.inj heq
              exact ⟨(k, r), ih.2 ⟨fun h => hk (List.mem_cons_of_mem _ h), rfl⟩, rfl⟩

/-- A key and a value are read where they are written. -/
theorem pair?_eq_some_iff {k v : List UInt8} : pair? s = some ((k, v), r) ↔
    quote ∉ k ∧ quote ∉ v ∧ s = k ++ quote :: space :: quote :: (v ++ quote :: r) := by
  rw [pair?]
  simp only [Option.bind_eq_bind, Option.bind_eq_some_iff, Prod.exists, Option.some.injEq,
    Prod.mk.injEq, upToQuote?_eq_some_iff, expect?_eq_some_iff]
  constructor
  · rintro ⟨k', s₁, ⟨hk, rfl⟩, s₂, rfl, s₃, rfl, v', s₄, ⟨hv, rfl⟩, ⟨rfl, rfl⟩, rfl⟩
    exact ⟨hk, hv, rfl⟩
  · rintro ⟨hk, hv, rfl⟩
    exact ⟨k, _, ⟨hk, rfl⟩, _, rfl, _, rfl, v, r, ⟨hv, rfl⟩, ⟨rfl, rfl⟩, rfl⟩

/-! ### Blocks -/

/-- A line is read where one is written. -/
theorem pairLine?_eq_some_iff {b : List UInt8} :
    pairLine? s = some (b, r) ↔ ∃ l : PairLine, b = l.body ∧ s = b ++ r := by
  rw [pairLine?]
  simp only [Option.bind_eq_bind, Option.bind_eq_some_iff, Prod.exists, Option.some.injEq,
    Prod.mk.injEq, pair?_eq_some_iff, expect?_eq_some_iff]
  constructor
  · rintro ⟨k, v, t, ⟨hk, hv, rfl⟩, r', hr, rfl, rfl⟩
    have hspaces : t.takeWhile (· == space) =
        List.replicate (t.takeWhile (· == space)).length space :=
      List.eq_replicate_iff.2 ⟨rfl, fun b hb => by simpa using List.mem_takeWhile_imp hb⟩
    refine ⟨⟨k, v, (t.takeWhile (· == space)).length, hk, hv⟩, ?_, ?_⟩
    · rw [PairLine.body, PairLine.ending, ← hspaces]
    · have ht := List.takeWhile_append_dropWhile (p := (· == space)) (l := t)
      rw [hr] at ht
      simp [ht]
  · rintro ⟨⟨k, v, n, hk, hv⟩, rfl, rfl⟩
    have hspace : ∀ b ∈ List.replicate n space, (b == space) = true := by
      intro b hb
      rw [List.eq_of_mem_replicate hb, beq_self_eq_true]
    refine ⟨k, v, List.replicate n space ++ newline :: r, ⟨hk, hv, ?_⟩, r, ?_, ?_, rfl⟩
    · simp [PairLine.body, PairLine.ending]
    · rw [List.dropWhile_append_of_pos hspace, List.dropWhile_cons_of_neg (by decide)]
    · rw [List.takeWhile_append_of_pos hspace, List.takeWhile_cons_of_neg (by decide),
        List.append_nil, PairLine.body, PairLine.ending]

theorem linesFrom?_quote {l : List UInt8} (h : pairLine? s = some (l, r)) :
    linesFrom? (quote :: s) = (linesFrom? r).map fun (ls, r) => (quote :: (l ++ ls), r) := by
  rw [linesFrom?, if_pos (beq_self_eq_true _)]
  split
  · rename_i hfound
    rw [h, Option.some.injEq, Prod.mk.injEq] at hfound
    rw [hfound.1, hfound.2]
  · rename_i hnone
    rw [h] at hnone
    cases hnone

/-- Lines are read up to the one that closes the block, where they are written. -/
theorem linesFrom?_eq_some_iff {b : List UInt8} :
    linesFrom? s = some (b, r) ↔ ∃ e : Entity, b = e.lines ∧ s = b ++ r := by
  constructor
  · intro h
    fun_induction linesFrom? s generalizing b r with
    | case1 => cases h
    | case2 c s hc l r' hl _ ih =>
        rw [beq_iff_eq] at hc
        obtain ⟨⟨ls, r''⟩, hls, heq⟩ := Option.map_eq_some_iff.1 h
        rw [Prod.mk.injEq] at heq
        obtain ⟨rfl, rfl⟩ := heq
        obtain ⟨e, rfl, rfl⟩ := ih hls
        obtain ⟨l, rfl, rfl⟩ := pairLine?_eq_some_iff.1 hl
        exact ⟨l :: e, by simp [Entity.lines, PairLine.text], by simp [hc]⟩
    | case3 => cases h
    | case4 c s _ hc =>
        rw [beq_iff_eq] at hc
        obtain ⟨r', hr, heq⟩ := Option.map_eq_some_iff.1 h
        rw [Prod.mk.injEq] at heq
        obtain ⟨rfl, rfl⟩ := heq
        exact ⟨[], by simp [Entity.lines], by simp [hc, expect?_eq_some_iff.1 hr]⟩
    | case5 => cases h
  · rintro ⟨e, rfl, rfl⟩
    induction e with
    | nil =>
        have hclosing : expect? newline (newline :: r) = some r := expect?_eq_some_iff.2 rfl
        simp only [Entity.lines, List.flatMap_nil, List.nil_append, List.cons_append]
        rw [linesFrom?, if_neg (by decide), if_pos (by decide), hclosing]
        rfl
    | cons l e ih =>
        have hl : pairLine? (l.body ++ (Entity.lines e ++ r)) = some (l.body, Entity.lines e ++ r) :=
          pairLine?_eq_some_iff.2 ⟨l, rfl, rfl⟩
        have htext : Entity.lines (l :: e) = quote :: (l.body ++ Entity.lines e) := by
          simp [Entity.lines, PairLine.text]
        rw [htext, List.cons_append, List.append_assoc, linesFrom?_quote hl, ih]
        rfl

/-- **A block is read exactly where an entity is written**, and its bytes are those that were
written. -/
theorem block?_eq_some_iff {b : List UInt8} :
    block? s = some (b, r) ↔ ∃ e : Entity, b = e.text ∧ s = b ++ r := by
  rw [block?]
  simp only [Option.bind_eq_bind, Option.bind_eq_some_iff, Prod.exists, Option.some.injEq,
    Prod.mk.injEq, linesFrom?_eq_some_iff, expect?_eq_some_iff]
  constructor
  · rintro ⟨_, rfl, _, rfl, _, r', ⟨e, rfl, rfl⟩, rfl, rfl⟩
    exact ⟨e, rfl, rfl⟩
  · rintro ⟨e, rfl, rfl⟩
    exact ⟨_, rfl, _, rfl, e.lines, r, ⟨e, rfl, rfl⟩, rfl, rfl⟩

/-- Where no entity is written no block is read. -/
theorem block?_eq_none (h : ∀ e : Entity, ¬ e.text <+: s) : block? s = none := by
  rw [Option.eq_none_iff_forall_ne_some]
  rintro ⟨b, r⟩ hblock
  obtain ⟨e, rfl, rfl⟩ := block?_eq_some_iff.1 hblock
  exact h e (List.prefix_append _ _)

/-! ### The second reading of a block -/

theorem pairsIn_quote {p : Pair} (h : pair? s = some (p, r)) :
    pairsIn (quote :: s) = p :: pairsIn r := by
  rw [pairsIn, if_pos (beq_self_eq_true _)]
  split
  · rename_i hfound
    rw [h, Option.some.injEq, Prod.mk.injEq] at hfound
    rw [hfound.1, hfound.2]
  · rename_i hnone
    rw [h] at hnone
    cases hnone

/-- What is in front of a quote is passed over. -/
theorem pairsIn_append {t : List UInt8} (ht : quote ∉ t) : pairsIn (t ++ s) = pairsIn s := by
  induction t with
  | nil => rfl
  | cons b t ih =>
      rw [List.mem_cons, not_or] at ht
      rw [List.cons_append, pairsIn, if_neg (by simpa using Ne.symm ht.1), ih ht.2]

/-- Where a line begins its key and its value are found, and the search goes on behind it. -/
theorem pairsIn_line (l : PairLine) (s : List UInt8) :
    pairsIn (l.text ++ s) = l.pair :: pairsIn s := by
  have hpair : pair? (l.body ++ s) = some (l.pair, l.ending ++ s) :=
    pair?_eq_some_iff.2 ⟨l.key_plain, l.value_plain, by simp [PairLine.body]⟩
  have hending : quote ∉ l.ending := by
    rw [PairLine.ending, List.mem_append, List.mem_replicate]
    rintro (⟨-, h⟩ | h)
    · cases h
    · cases List.mem_singleton.1 h
  rw [PairLine.text, List.cons_append, pairsIn_quote hpair, pairsIn_append hending]

theorem pairsIn_lines (e : Entity) : pairsIn e.lines = e.map PairLine.pair := by
  induction e with
  | nil =>
      have hclosing : quote ∉ [closeBrace, newline] := by decide
      exact (pairsIn_append hclosing).trans (by rw [pairsIn]; rfl)
  | cons l e ih =>
      rw [Entity.lines, List.flatMap_cons, List.append_assoc, pairsIn_line]
      exact congrArg (l.pair :: ·) ih

/-- **The second reading of a block finds the keys and values that were written**, whatever they are. -/
theorem pairsIn_text (e : Entity) : pairsIn e.text = e.map PairLine.pair := by
  have hopening : quote ∉ [openBrace, newline] := by decide
  exact (pairsIn_append hopening).trans (pairsIn_lines e)

theorem className?_text (e : Entity) : className? e.text = e.class? := by
  rw [className?, pairsIn_text, Entity.class?, List.filter_map, List.getLast?_map, Option.map_map]
  rfl

/-! ### Texts of entities -/

theorem blocks_text (e : Entity) (s : List UInt8) : blocks (e.text ++ s) = e.text :: blocks s := by
  have hblock : block? (e.text ++ s) = some (e.text, s) := block?_eq_some_iff.2 ⟨e, rfl, rfl⟩
  rw [Entity.text, List.cons_append, List.cons_append] at hblock ⊢
  rw [blocks]
  split
  · rename_i b r hfound
    rw [hblock, Option.some.injEq, Prod.mk.injEq] at hfound
    obtain ⟨rfl, rfl⟩ := hfound
    rfl
  · rename_i hnone
    rw [hblock] at hnone
    cases hnone

/-- Where counting stops there is no block. -/
theorem blocks_of_ends (h : Ends s) : blocks s = [] := by
  match s, h with
  | [], _ => rw [blocks]
  | [_], _ => rw [blocks]
  | a :: b :: t, .inl h => simp at h
  | a :: b :: t, .inr h =>
      rw [blocks]
      split
      · rename_i b r hfound
        rw [block?_eq_none h] at hfound
        cases hfound
      · rfl

/-- The blocks are the entities, up to where counting stops. -/
theorem blocks_entities (es : List Entity) (h : Ends s) :
    blocks (entitiesText es ++ s) = es.map Entity.text := by
  induction es with
  | nil => exact blocks_of_ends h
  | cons e es ih =>
      rw [entitiesText, List.flatMap_cons, List.append_assoc, blocks_text, List.map_cons]
      exact congrArg (e.text :: ·) ih

/-- **Every text is entities one behind the other, and then something where counting stops.** -/
theorem exists_entities (s : List UInt8) : ∃ es tail, Ends tail ∧ s = entitiesText es ++ tail := by
  fun_induction blocks s with
  | case1 => exact ⟨[], [], .inl (by decide), rfl⟩
  | case2 b => exact ⟨[], [b], .inl (le_refl 1), rfl⟩
  | case3 a b t block r hblock _ ih =>
      obtain ⟨e, rfl, hs⟩ := block?_eq_some_iff.1 hblock
      obtain ⟨es, tail, htail, rfl⟩ := ih
      refine ⟨e :: es, tail, htail, ?_⟩
      rw [hs, entitiesText, entitiesText, List.flatMap_cons, List.append_assoc]
  | case4 a b t hblock =>
      refine ⟨[], a :: b :: t, .inr fun e he => ?_, rfl⟩
      obtain ⟨r, hr⟩ := he
      rw [block?_eq_some_iff.2 ⟨e, rfl, hr.symm⟩] at hblock
      cases hblock

/-! ### Classes -/

/-- **Every class is counted as often as an entity has it, and nothing else is counted**: each class
once and in order, whatever keys and values stand in the entities, however many spaces follow them,
and whatever stands behind the entities, if counting stops there.  And it does come to a stop on every
text. -/
theorem classNames_written {es : List Entity} {tail : List UInt8} (h : Ends tail) :
    Data.Increasing compare (classNames (entitiesText es ++ tail)) ∧
      (∀ name n, (name, n) ∈ classNames (entitiesText es ++ tail) ↔
        0 < n ∧ n = es.countP fun e => e.class? == some name) ∧
      ∀ s, ∃ es' tail', Ends tail' ∧ s = entitiesText es' ++ tail' ∧
        blocks s = es'.map Entity.text := by
  have hclasses : (blocks (entitiesText es ++ tail)).filterMap className? =
      es.filterMap Entity.class? := by
    rw [blocks_entities es h, List.filterMap_map]
    exact congrArg (List.filterMap · es) (funext className?_text)
  refine ⟨(Counts.Proper.foldl_add .nil _).increasing, ?_, ?_⟩
  · intro name n
    rw [classNames, hclasses, Counts.mem_foldl_add, List.count_filterMap]
  · intro s
    obtain ⟨es', tail', htail', rfl⟩ := exists_entities s
    exact ⟨es', tail', htail', rfl, blocks_entities es' htail'⟩

/-- The last class of an entity counts, behind a key and a value that look like the end of a block. -/
theorem classNames_lastClass :
    let door : Entity :=
      [⟨classKey, [0x61], 0, by decide, by decide⟩,
        ⟨[closeBrace, newline, openBrace], [newline, closeBrace, newline], 1, by decide, by decide⟩,
        ⟨classKey, [0x62], 2, by decide, by decide⟩]
    let light : Entity := [⟨classKey, [0x62], 0, by decide, by decide⟩]
    let tail : List UInt8 := [closeBrace, newline]
    Ends tail ∧ ("b", 2) ∈ classNames (entitiesText [door, [], light] ++ tail) := by
  intro door light tail
  have htail : Ends tail := by
    refine .inr ?_
    rintro e ⟨r, hr⟩
    exact absurd (List.cons.inj hr).1 (by decide)
  exact ⟨htail, ((classNames_written htail).2.1 "b" 2).2 ⟨by decide, by decide +kernel⟩⟩

end Pak

end Upkeep
