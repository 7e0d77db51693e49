/-
**Headers and lumps of maps.**

A header is read exactly from the bytes that it is written as, whatever follows them, and no bytes make
the reader leave them.  A lump is cut out exactly if it ends within the file; the end is worked out as a
whole number, so no lump comes around to the front of the file.

Main results:

* `Upkeep.Bytes.word_eq_ok_iff`, `Upkeep.Pak.lumpAt_eq_ok_iff` — a word and a lump are read exactly from
  their bytes;
* `Upkeep.Pak.MapHeader.encode_prefix_iff` — where a header is written, place by place;
* `Upkeep.Pak.MapHeader.read_eq_ok_iff` — a header is read exactly where one is written;
* `Upkeep.Pak.MapHeader.slice_eq_ok_iff` — what is cut out as a lump;
* `Upkeep.Pak.MapHeader.read_and_slice` — **headers are read back, nothing is read out of range, and
  lumps lie within the file**.
-/

import Mathlib.Data.List.Infix
import Mathlib.Tactic.Tauto
import Upkeep.Pak.MapFile

set_option relaxedAutoImplicit false
set_option autoImplicit false

namespace Upkeep

/-! ### Words -/

namespace Bytes

/-- Bytes are those of the number that they stand for. -/
theorem ofNumber_littleEndian (bs : List UInt8) : ofNumber bs.length (littleEndian bs) = bs := by
  induction bs with
  | nil => rfl
  | cons b bs ih =>
      have hb := b.toNat_lt
      have hlow : UInt8.ofNat (b.toNat + 256 * littleEndian bs) = b := by
        rw [← UInt8.toNat_inj, UInt8.toNat_ofNat']
        omega
      have hrest : (b.toNat + 256 * littleEndian bs) / 256 = littleEndian bs := by omega
      rw [littleEndian_cons, List.length_cons, ofNumber, hlow, hrest, ih]

theorem length_ofNumber (width n : Nat) : (ofNumber width n).length = width := by
  induction width generalizing n with
  | zero => rfl
  | succ width ih => rw [ofNumber, List.length_cons, ih]

/-- **A word is read exactly from its bytes.** -/
theorem word_eq_ok_iff {bs : List UInt8} (h : bs.length = 4) {w : Word} :
    word bs = .ok w ↔ bs = ofNumber 4 w := by
  match bs, h with
  | [a, b, c, d], _ =>
    have hword : word [a, b, c, d] = .ok (.ofBytes a b c d) := rfl
    have hbytes : ofNumber 4 (Word.ofBytes a b c d) = [a, b, c, d] :=
      ofNumber_littleEndian [a, b, c, d]
    rw [hword, Except.ok.injEq]
    constructor
    · rintro rfl
      exact hbytes.symm
    · intro heq
      have hvalue := congrArg littleEndian heq
      rw [littleEndian_ofNumber, Nat.mod_eq_of_lt w.isLt] at hvalue
      exact Fin.ext hvalue

/-- **A word is read at a place exactly if its bytes stand there.** -/
theorem wordAt_eq_ok_iff {data : List UInt8} {place : Nat} (h : place + 4 ≤ data.length) {w : Word} :
    wordAt data place = .ok w ↔ (data.drop place).take 4 = ofNumber 4 w := by
  have hfour : ((data.drop place).take 4).length = 4 := by
    rw [List.length_take, List.length_drop]
    omega
  rw [wordAt, span_eq (Nat.le_add_right _ _) h, Nat.add_sub_cancel_left]
  exact word_eq_ok_iff hfour

/-- A run over places comes to a table exactly if each of them comes to its entry. -/
theorem Access.ofFnM_eq_ok_iff {α : Type} {n : Nat} {f : Fin n → Access α} {v : Vector α n} :
    Vector.ofFnM f = .ok v ↔ ∀ i : Fin n, f i = .ok v[i] := by
  constructor
  · intro h
    induction n with
    | zero => exact fun i => i.elim0
    | succ n ih =>
        rw [Vector.ofFnM_succ, bind_eq_ok_iff] at h
        obtain ⟨as, has, h⟩ := h
        obtain ⟨a, ha, ⟨⟩⟩ := bind_eq_ok_iff.1 h
        refine Fin.lastCases ?_ fun i => ?_
        · simpa using ha
        · simpa [Vector.getElem_push] using ih has i
  · intro h
    rw [ofFnM_eq_ok h]
    exact congrArg Except.ok (Vector.ext fun i hi => by simp)

end Bytes

namespace Pak

open Bytes

variable {data : List UInt8}

/-! ### Tables -/

theorem Lump.length_encode (l : Lump) : l.encode.length = 8 := by
  rw [Lump.encode, List.length_append, length_ofNumber, length_ofNumber]

/-- **A lump is read at a place exactly if its bytes stand there.** -/
theorem lumpAt_eq_ok_iff {place : Nat} (h : place + 8 ≤ data.length) {l : Lump} :
    lumpAt data place = .ok l ↔ (data.drop place).take 8 = l.encode := by
  have hsplit : (data.drop place).take (4 + 4) =
      (data.drop place).take 4 ++ (data.drop (place + 4)).take 4 := by
    rw [List.take_add, List.drop_drop]
  have hfour : ((data.drop place).take 4).length = (ofNumber 4 l.offset).length := by
    rw [List.length_take, List.length_drop, length_ofNumber]
    omega
  rw [hsplit, Lump.encode, List.append_eq_append_iff_of_size_eq_left hfour,
    ← wordAt_eq_ok_iff (by omega), ← wordAt_eq_ok_iff (by omega), lumpAt, Access.bind_eq_ok_iff]
  constructor
  · rintro ⟨offset, hoffset, hl⟩
    obtain ⟨length, hlength, ⟨⟩⟩ := Access.bind_eq_ok_iff.1 hl
    exact ⟨hoffset, hlength⟩
  · rintro ⟨hoffset, hlength⟩
    exact ⟨l.offset, hoffset, Access.bind_eq_ok_iff.2 ⟨l.length, hlength, rfl⟩⟩

theorem length_flatMap_encode (ls : List Lump) : (ls.flatMap Lump.encode).length = 8 * ls.length := by
  induction ls with
  | nil => rfl
  | cons l ls ih =>
      rw [List.flatMap_cons, List.length_append, ih, l.length_encode, List.length_cons]
      omega

/-- Lumps stand one behind the other exactly if each of them stands at its place. -/
theorem take_eq_flatMap_encode_iff {ls : List Lump} (h : 8 * ls.length ≤ data.length) :
    data.take (8 * ls.length) = ls.flatMap Lump.encode ↔
      ∀ i l, ls[i]? = some l → (data.drop (8 * i)).take 8 = l.encode := by
  induction ls generalizing data with
  | nil => simp
  | cons l ls ih =>
      rw [List.length_cons] at h ⊢
      have hsplit : data.take (8 * (ls.length + 1)) =
          data.take 8 ++ (data.drop 8).take (8 * ls.length) := by
        rw [Nat.mul_succ, Nat.add_comm, List.take_add]
      have hfirst : (data.take 8).length = l.encode.length := by
        rw [List.length_take, l.length_encode]
        omega
      have hrest : 8 * ls.length ≤ (data.drop 8).length := by
        rw [List.length_drop]
        omega
      have hplace : ∀ i, (data.drop 8).drop (8 * i) = data.drop (8 * (i + 1)) := by
        intro i
        rw [List.drop_drop, Nat.mul_succ, Nat.add_comm]
      rw [hsplit, List.flatMap_cons, List.append_eq_append_iff_of_size_eq_left hfirst, ih hrest]
      constructor
      · rintro ⟨hl, hls⟩ i l' hi
        cases i with
        | zero =>
            obtain rfl := Option.some.inj hi
            exact hl
        | succ i =>
            rw [← hplace]
            exact hls i l' hi
      · intro hall
        refine ⟨hall 0 l rfl, fun i l' hi => ?_⟩
        rw [hplace]
        exact hall (i + 1) l' hi

namespace MapHeader

variable {h : MapHeader}

/-! ### Headers -/

theorem length_lumps (h : MapHeader) : h.lumps.length = lumpCount := Vector.length_toList

theorem length_encode (h : MapHeader) : h.encode.length = headerSize := by
  rw [encode, List.length_append, List.length_append, length_ofNumber, length_flatMap_encode,
    length_lumps]
  rfl

/-- **A header is written where its letters, its version and each of its lumps stand at their
places.** -/
theorem encode_prefix_iff : h.encode <+: data ↔
    headerSize ≤ data.length ∧ data.take 4 = mapLetters ∧ (data.drop 4).take 4 = ofNumber 4 h.version ∧
      ∀ i : Fin lumpCount, (data.drop (prologueSize + 8 * i)).take 8 = h.table[i].encode := by
  by_cases hlong : headerSize ≤ data.length
  · have hsize : headerSize = 4 + (4 + 8 * h.lumps.length) := by rw [length_lumps]; rfl
    have hlumps : 8 * h.lumps.length ≤ ((data.drop 4).drop 4).length := by
      rw [List.length_drop, List.length_drop]
      omega
    have hletters : (data.take 4).length = mapLetters.length := by
      rw [List.length_take, Nat.min_eq_left (by omega)]
      rfl
    have hversion : ((data.drop 4).take 4).length = (ofNumber 4 h.version).length := by
      rw [List.length_take, List.length_drop, length_ofNumber]
      omega
    rw [List.prefix_iff_eq_take, length_encode, hsize, List.take_add, List.take_add, encode, eq_comm,
      List.append_eq_append_iff_of_size_eq_left hletters,
      List.append_eq_append_iff_of_size_eq_left hversion, take_eq_flatMap_encode_iff hlumps,
      ← hsize, List.drop_drop]
    simp only [hlong, true_and, List.drop_drop]
    refine and_congr_right fun _ => and_congr_right fun _ => ?_
    constructor
    · intro hall i
      exact hall i _ (List.getElem?_eq_getElem (by rw [length_lumps]; exact i.isLt))
    · intro hall i l hi
      obtain ⟨hlt, rfl⟩ := List.getElem?_eq_some_iff.1 hi
      exact hall ⟨i, length_lumps h ▸ hlt⟩
  · refine iff_of_false (fun hprefix => hlong ?_) fun hall => hlong hall.1
    rw [← length_encode h]
    exact hprefix.length_le

/-- **A header is read exactly where one is written, if its version is known.** -/
theorem read_eq_ok_iff : read data = .ok (.ok h) ↔ h.version.val ∈ mapVersions ∧ h.encode <+: data := by
  have hheader : headerSize = 144 := rfl
  have hprologue : prologueSize = 8 := rfl
  rw [encode_prefix_iff, read]
  split
  · refine iff_of_false (by rintro ⟨⟩) ?_
    rintro ⟨-, hlong, -⟩
    omega
  · rw [span_eq (by omega) (by omega), Access.ok_bind]
    split
    · rename_i hletters
      refine iff_of_false (by rintro ⟨⟩) ?_
      rintro ⟨-, -, htake, -⟩
      rw [List.drop_zero, Nat.sub_zero, htake, bne_self_eq_false] at hletters
      cases hletters
    · rename_i hletters
      rw [List.drop_zero, Nat.sub_zero, Bool.not_eq_true, bne_eq_false_iff_eq] at hletters
      obtain ⟨version, hversion⟩ := exists_wordAt (show 4 + 4 ≤ data.length by omega)
      rw [← wordAt_eq_ok_iff (by omega), hversion, Access.ok_bind, Except.ok.injEq]
      split
      · rename_i hunknown
        refine iff_of_false (by rintro ⟨⟩) ?_
        rintro ⟨hknown, -, -, rfl, -⟩
        rw [List.contains_eq_mem, decide_eq_true hknown] at hunknown
        cases hunknown
      · rename_i hknown
        rw [List.contains_eq_mem, Bool.not_eq_true, Bool.not_eq_false', decide_eq_true_iff] at hknown
        split
        · refine iff_of_false (by rintro ⟨⟩) ?_
          rintro ⟨-, hlong, -⟩
          omega
        · rename_i hlong
          have hlump : ∀ i : Fin lumpCount, lumpAt data (prologueSize + 8 * i) = .ok h.table[i] ↔
              (data.drop (prologueSize + 8 * i)).take 8 = h.table[i].encode := by
            intro i
            have hi : i.val < 17 := i.isLt
            exact lumpAt_eq_ok_iff (by omega)
          simp only [← hlump, ← Access.ofFnM_eq_ok_iff, Access.bind_eq_ok_iff]
          constructor
          · rintro ⟨table, htable, ⟨⟩⟩
            exact ⟨hknown, by omega, hletters, rfl, htable⟩
          · rintro ⟨-, -, -, rfl, htable⟩
            exact ⟨h.table, htable, rfl⟩

/-! ### Slices -/

/-- **A lump is cut out exactly if it ends within the file**, and then it is what stands there. -/
theorem slice_eq_ok_iff {i : Nat} {bytes : List UInt8} : h.slice data i = .ok bytes ↔
    ∃ hi : i < lumpCount, (h.table[i].offset : Nat) + h.table[i].length ≤ data.length ∧
      bytes = (data.drop h.table[i].offset).take h.table[i].length := by
  rw [slice]
  by_cases hi : i < lumpCount
  · have hoffset := h.table[i].offset.isLt
    have hlength := h.table[i].length.isLt
    have hsum : checkedSum? h.table[i].offset h.table[i].length =
        some ((h.table[i].offset : Nat) + h.table[i].length) := by
      have hword : UInt32.size + UInt32.size < UInt64.size := by decide
      rw [checkedSum?, if_pos (by omega)]
    simp only [Vector.getElem?_eq_getElem hi, hsum]
    by_cases hend : (h.table[i].offset : Nat) + h.table[i].length ≤ data.length
    · rw [within?, span_eq (Nat.le_add_right _ _) hend, Nat.add_sub_cancel_left]
      simp [hi, hend, Except.toOption, eq_comm]
    · rw [within?, span, if_neg fun h => hend h.2]
      simp [hend, Except.toOption]
  · rw [Vector.getElem?_eq_none (Nat.le_of_not_lt hi)]
    simp [hi]

/-- What is not cut out is reported as the lump that was asked for. -/
theorem slice_ok_or_error (h : MapHeader) (data : List UInt8) (i : Nat) :
    (∃ bytes, h.slice data i = .ok bytes) ∨ h.slice data i = .error (.mapLump i) := by
  rw [slice]
  split
  · exact .inr rfl
  · split
    · exact .inr rfl
    · split
      · exact .inr rfl
      · exact .inl ⟨_, rfl⟩

/-- **Headers are read back, nothing is read out of range, and lumps lie within the file.**  A header is
read from some bytes exactly if its version is known and they begin with the header as it is written, in
all `144` bytes; whatever the bytes are, reading comes to a header or a failure; and a lump is cut out
exactly if there is one of that index and it ends within the file, in whole numbers. -/
theorem read_and_slice :
    (∀ (h : MapHeader) (data : List UInt8), h.encode.length = 144 ∧
      (read data = .ok (.ok h) ↔
        (h.version.val = 46 ∨ h.version.val = 47) ∧ ∃ rest, data = h.encode ++ rest)) ∧
    (∀ data, ∃ r, read data = .ok r ∧ ofBytes data = r) ∧
    ∀ (h : MapHeader) (data : List UInt8) (i : Nat),
      (∀ bytes, h.slice data i = .ok bytes ↔
        ∃ hi : i < 17, (h.table[i].offset : Nat) + h.table[i].length ≤ data.length ∧
          bytes = (data.drop h.table[i].offset).take h.table[i].length) ∧
      ((∃ bytes, h.slice data i = .ok bytes) ∨ h.slice data i = .error (.mapLump i)) := by
  refine ⟨fun h data => ⟨length_encode h, ?_⟩, fun data => ⟨_, read_eq data, rfl⟩, fun h data i => ?_⟩
  · rw [read_eq_ok_iff, mapVersions, List.mem_cons, List.mem_singleton]
    exact and_congr_right fun _ => exists_congr fun rest => eq_comm
  · exact ⟨fun _ => slice_eq_ok_iff, slice_ok_or_error h data i⟩

end MapHeader

end Pak

end Upkeep
