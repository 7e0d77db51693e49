/-
**Reading bytes as text.**

What was read stays as it is, so a text can be read in parts wherever a character begins.  A byte below
128 is a character of its own wherever it stands, as no other character has such a byte in it.  What a
text is written as is read back as the text.

Main definitions:

* `Upkeep.Text.Utf8.State.behind` — a state with more read before;
* `Upkeep.Text.Utf8.Mode.Proper` — the modes that occur.

Main results:

* `Upkeep.Text.Utf8.decodeChars_append_cons` — **a byte below 128 cuts the bytes in two parts that are
  read on their own**;
* `Upkeep.Text.Utf8.lineFeed_mem_decodeChars` — only a line feed is read as one;
* `Upkeep.Text.Utf8.decodeChars_encode` — **what is written is read back**.
-/

import Upkeep.Text.Utf8

set_option relaxedAutoImplicit false
set_option autoImplicit false

namespace Upkeep

namespace Text

namespace Utf8

variable {s : State} {b : UInt8} {read : List Char} {bytes : List UInt8}

/-! ### What was read before -/

/-- A state with more read before. -/
def State.behind (s : State) (before : List Char) : State := ⟨s.mode, s.read ++ before⟩

theorem first_append (b : UInt8) (read before : List Char) :
    first b (read ++ before) = (first b read).behind before := by
  unfold first
  dsimp only
  repeat' split
  all_goals rfl

theorem step_behind (s : State) (before : List Char) (b : UInt8) :
    step (s.behind before) b = (step s b).behind before := by
  obtain ⟨mode, read⟩ := s
  cases mode with
  | ready => exact first_append b read before
  | inside more low high code =>
      simp only [step, State.behind]
      split
      · cases more <;> rfl
      · exact first_append b (replacement :: read) before

theorem foldl_step_behind (bytes : List UInt8) (s : State) (before : List Char) :
    bytes.foldl step (s.behind before) = (bytes.foldl step s).behind before := by
  induction bytes generalizing s with
  | nil => rfl
  | cons b bytes ih => rw [List.foldl_cons, List.foldl_cons, step_behind, ih]

theorem finish_behind (s : State) (before : List Char) :
    (s.behind before).finish = before.reverse ++ s.finish := by
  obtain ⟨mode, read⟩ := s
  cases mode <;> simp [State.finish, State.behind]

/-- Where a character begins, what was read before does not matter. -/
theorem finish_foldl_ready (bytes : List UInt8) (read : List Char) :
    (bytes.foldl step ⟨.ready, read⟩).finish = read.reverse ++ decodeChars bytes := by
  have hbehind : (⟨.ready, read⟩ : State) = State.behind ⟨.ready, []⟩ read := rfl
  rw [hbehind, foldl_step_behind, finish_behind, decodeChars]

/-! ### Bytes below 128 -/

/-- The modes that occur: the next byte and the character under way are at least 128. -/
def Mode.Proper : Mode → Prop
  | .ready => True
  | .inside more low _ code =>
    0x80 ≤ low.toNat ∧ (if more = 0 then 0x80 else 2) ≤ code * 64 + (low.toNat - 0x80)

theorem proper_first (b : UInt8) (read : List Char) : (first b read).mode.Proper := by
  unfold first
  dsimp only
  repeat' split
  all_goals simp [Mode.Proper]
  all_goals omega

/-- A byte that goes on with the character under way. -/
theorem step_inside {more code : Nat} {low high : UInt8} (hlow : low.toNat ≤ b.toNat)
    (hhigh : b.toNat ≤ high.toNat) :
    step ⟨.inside more low high code, read⟩ b =
      match more with
      | 0 => ⟨.ready, Char.ofNat (code * 64 + (b.toNat - 0x80)) :: read⟩
      | k + 1 => ⟨.inside k 0x80 0xBF (code * 64 + (b.toNat - 0x80)), read⟩ := by
  rw [step]
  exact if_pos (by simp [UInt8.le_iff_toNat_le, hlow, hhigh])

/-- A byte that is too small or too large to go on with the character under way. -/
theorem step_outside {more code : Nat} {low high : UInt8}
    (h : ¬(low.toNat ≤ b.toNat ∧ b.toNat ≤ high.toNat)) :
    step ⟨.inside more low high code, read⟩ b = first b (replacement :: read) := by
  rw [step]
  exact if_neg (by simpa [UInt8.le_iff_toNat_le] using h)

theorem proper_step (hs : s.mode.Proper) (b : UInt8) : (step s b).mode.Proper := by
  obtain ⟨mode, read⟩ := s
  cases mode with
  | ready => exact proper_first b read
  | inside more low high code =>
      by_cases hb : low.toNat ≤ b.toNat ∧ b.toNat ≤ high.toNat
      · rw [step_inside hb.1 hb.2]
        cases more with
        | zero => trivial
        | succ k =>
            obtain ⟨-, hcode⟩ := hs
            rw [if_neg (Nat.succ_ne_zero k)] at hcode
            refine ⟨by simp, ?_⟩
            simp only [UInt8.reduceToNat]
            split <;> omega
      · rw [step_outside hb]
        exact proper_first b _

theorem proper_foldl (bytes : List UInt8) (hs : s.mode.Proper) :
    (bytes.foldl step s).mode.Proper := by
  induction bytes generalizing s with
  | nil => exact hs
  | cons b bytes ih => exact ih (proper_step hs b)

/-- A byte below 128 ends the character under way, and is read as itself. -/
theorem step_ascii (hs : s.mode.Proper) (hb : b.toNat < 0x80) :
    step s b = ⟨.ready, Char.ofNat b.toNat :: s.finish.reverse⟩ := by
  have hfirst : ∀ read, first b read = ⟨.ready, Char.ofNat b.toNat :: read⟩ :=
    fun read => if_pos hb
  obtain ⟨mode, read⟩ := s
  cases mode with
  | ready => simp [step, State.finish, hfirst]
  | inside more low high code =>
      have hlow := hs.1
      rw [step_outside (by omega), hfirst]
      simp [State.finish]

/-- **A byte below 128 cuts the bytes in two parts that are read on their own.** -/
theorem decodeChars_append_cons (front : List UInt8) (hb : b.toNat < 0x80) (back : List UInt8) :
    decodeChars (front ++ b :: back) =
      decodeChars front ++ Char.ofNat b.toNat :: decodeChars back := by
  have hproper : (front.foldl step ⟨.ready, []⟩).mode.Proper := proper_foldl front trivial
  rw [decodeChars, List.foldl_append, List.foldl_cons, step_ascii hproper hb, finish_foldl_ready,
    List.reverse_cons, List.reverse_reverse, List.append_assoc, List.singleton_append]
  rfl

/-! ### Empty texts -/

theorem finish_first_ne_nil (b : UInt8) (read : List Char) : (first b read).finish ≠ [] := by
  unfold first
  dsimp only
  repeat' split
  all_goals simp [State.finish]

/-- Every byte leaves something to be read. -/
theorem finish_step_ne_nil (s : State) (b : UInt8) : (step s b).finish ≠ [] := by
  obtain ⟨mode, read⟩ := s
  cases mode with
  | ready => exact finish_first_ne_nil b read
  | inside more low high code =>
      rw [step]
      dsimp only
      split
      · cases more <;> simp [State.finish]
      · exact finish_first_ne_nil b _

/-- Only no bytes at all are the empty text. -/
theorem decodeChars_eq_nil_iff : decodeChars bytes = [] ↔ bytes = [] := by
  constructor
  · intro h
    rcases List.eq_nil_or_concat bytes with hnil | ⟨front, b, rfl⟩
    · exact hnil
    · rw [decodeChars, List.concat_eq_append, List.foldl_append] at h
      exact absurd h (finish_step_ne_nil _ b)
  · rintro rfl
    rfl

/-! ### Line feeds -/

theorem toNat_ofNat {n : Nat} (h : n.isValidChar) : (Char.ofNat n).toNat = n := by
  rw [Char.ofNat, dif_pos h]
  rfl

theorem ofNat_eq_lineFeed {n : Nat} (h : '\n' = Char.ofNat n) : n = 10 := by
  have hcode : (Char.ofNat n).toNat = 10 := congrArg Char.toNat h.symm
  by_cases hvalid : n.isValidChar
  · rwa [toNat_ofNat hvalid] at hcode
  · rw [Char.ofNat, dif_neg hvalid] at hcode
    cases hcode

/-- Only a line feed is read as one. -/
theorem lineFeed_mem_first (h : '\n' ∈ (first b read).read) : b = 10 ∨ '\n' ∈ read := by
  have hreplaced : '\n' ∈ replacement :: read → '\n' ∈ read :=
    fun hmem => (List.mem_cons.1 hmem).resolve_left (by decide)
  unfold first at h
  dsimp only at h
  repeat' split at h
  · rcases List.mem_cons.1 h with h | h
    · exact .inl (UInt8.toNat_inj.1 (ofNat_eq_lineFeed h))
    · exact .inr h
  all_goals first
    | exact .inr h
    | exact .inr (hreplaced h)

theorem lineFeed_mem_step (hs : s.mode.Proper) (h : '\n' ∈ (step s b).read) :
    b = 10 ∨ '\n' ∈ s.read := by
  obtain ⟨mode, read⟩ := s
  cases mode with
  | ready => exact lineFeed_mem_first h
  | inside more low high code =>
      by_cases hb : low.toNat ≤ b.toNat ∧ b.toNat ≤ high.toNat
      · rw [step_inside hb.1 hb.2] at h
        cases more with
        | zero =>
            -- The character is at least 128.
            obtain ⟨-, hcode⟩ := hs
            rw [if_pos rfl] at hcode
            rcases List.mem_cons.1 h with h | h
            · have := ofNat_eq_lineFeed h
              omega
            · exact .inr h
        | succ k => exact .inr h
      · rw [step_outside hb] at h
        rcases lineFeed_mem_first h with h | h
        · exact .inl h
        · exact .inr ((List.mem_cons.1 h).resolve_left (by decide))

theorem lineFeed_mem_foldl (hs : s.mode.Proper) (h : '\n' ∈ (bytes.foldl step s).read) :
    10 ∈ bytes ∨ '\n' ∈ s.read := by
  induction bytes generalizing s with
  | nil => exact .inr h
  | cons b bytes ih =>
      rcases ih (proper_step hs b) h with h | h
      · exact .inl (List.mem_cons_of_mem _ h)
      · rcases lineFeed_mem_step hs h with rfl | h
        · exact .inl List.mem_cons_self
        · exact .inr h

/-- Only a line feed is read as one. -/
theorem lineFeed_mem_decodeChars (h : '\n' ∈ decodeChars bytes) : 10 ∈ bytes := by
  have hread : '\n' ∈ (bytes.foldl step ⟨.ready, []⟩).read := by
    rw [decodeChars, State.finish] at h
    split at h
    · exact List.mem_reverse.1 h
    · exact (List.mem_cons.1 (List.mem_reverse.1 h)).resolve_left (by decide)
  exact (lineFeed_mem_foldl (s := ⟨.ready, []⟩) trivial hread).resolve_right (by simp)

/-! ### Written texts -/

theorem toNat_ofNat_byte {n : Nat} (h : n < 256) : (UInt8.ofNat n).toNat = n := by
  rw [UInt8.toNat_ofNat']
  omega

/-- The first of two bytes. -/
theorem first_of_two (h : 0xC2 ≤ b.toNat) (h' : b.toNat < 0xE0) :
    first b read = ⟨.inside 0 0x80 0xBF (b.toNat - 0xC0), read⟩ := by
  simp only [first]
  rw [if_neg (by omega), if_neg (by omega), if_pos h']

/-- The first of three bytes. -/
theorem first_of_three (read : List Char) (h : 0xE0 ≤ b.toNat) (h' : b.toNat < 0xF0) :
    ∃ low high, first b read = ⟨.inside 1 low high (b.toNat - 0xE0), read⟩ ∧
      low.toNat = (if b.toNat = 0xE0 then 0xA0 else 0x80) ∧
      high.toNat = (if b.toNat = 0xED then 0x9F else 0xBF) := by
  simp only [first]
  rw [if_neg (by omega), if_neg (by omega), if_neg (by omega)]
  by_cases hlow : b.toNat = 0xE0
  · exact ⟨0xA0, 0xBF, by simp [hlow], by simp [hlow], by simp [hlow]⟩
  · by_cases hhigh : b.toNat = 0xED
    · exact ⟨0x80, 0x9F, by simp [hhigh], by simp [hhigh], by simp [hhigh]⟩
    · exact ⟨0x80, 0xBF, by simp [hlow, hhigh, h'], by simp [hlow], by simp [hhigh]⟩

/-- The first of four bytes. -/
theorem first_of_four (read : List Char) (h : 0xF0 ≤ b.toNat) (h' : b.toNat < 0xF5) :
    ∃ low high, first b read = ⟨.inside 2 low high (b.toNat - 0xF0), read⟩ ∧
      low.toNat = (if b.toNat = 0xF0 then 0x90 else 0x80) ∧
      high.toNat = (if b.toNat = 0xF4 then 0x8F else 0xBF) := by
  simp only [first]
  rw [if_neg (by omega), if_neg (by omega), if_neg (by omega), if_neg (by omega),
    if_neg (by omega), if_neg (by omega)]
  by_cases hlow : b.toNat = 0xF0
  · exact ⟨0x90, 0xBF, by simp [hlow], by simp [hlow], by simp [hlow]⟩
  · by_cases hhigh : b.toNat = 0xF4
    · exact ⟨0x80, 0x8F, by simp [hhigh], by simp [hhigh], by simp [hhigh]⟩
    · have hlt : b.toNat < 0xF4 := by omega
      exact ⟨0x80, 0xBF, by simp [hlow, hlt], by simp [hlow], by simp [hhigh]⟩

theorem step_ready (b : UInt8) (read : List Char) : step ⟨.ready, read⟩ b = first b read := rfl

/-- Any other of the bytes of a character brings six bits. -/
theorem step_further {more code m : Nat} {low high : UInt8} (hm : m < 64)
    (hlow : low.toNat ≤ m + 128) (hhigh : m + 128 ≤ high.toNat) :
    step ⟨.inside more low high code, read⟩ (.ofNat (m + 128)) =
      match more with
      | 0 => ⟨.ready, Char.ofNat (code * 64 + m) :: read⟩
      | k + 1 => ⟨.inside k 0x80 0xBF (code * 64 + m), read⟩ := by
  have hb := toNat_ofNat_byte (show m + 128 < 256 by omega)
  rw [step_inside (by rwa [hb]) (by rwa [hb]), hb, Nat.add_sub_cancel]

/-- Where any six bits may come. -/
theorem step_inside_full {more code m : Nat} (hm : m < 64) :
    step ⟨.inside more 0x80 0xBF code, read⟩ (.ofNat (m + 128)) =
      match more with
      | 0 => ⟨.ready, Char.ofNat (code * 64 + m) :: read⟩
      | k + 1 => ⟨.inside k 0x80 0xBF (code * 64 + m), read⟩ :=
  step_further hm (Nat.le_add_left 128 m) (show m + 128 ≤ 191 by omega)

variable {i j k l : Nat}

/-- A character of one byte. -/
theorem foldl_step_one (hi : i < 0x80) (read : List Char) :
    [UInt8.ofNat i].foldl step ⟨.ready, read⟩ = ⟨.ready, Char.ofNat i :: read⟩ := by
  have hbyte := toNat_ofNat_byte (show i < 256 by omega)
  rw [List.foldl_cons, List.foldl_nil, step, first, hbyte]
  exact if_pos hi

/-- A character of two bytes. -/
theorem foldl_step_two (hi : i < 32) (hj : j < 64) (hleast : 0x80 ≤ i * 64 + j)
    (read : List Char) :
    [UInt8.ofNat (i + 192), .ofNat (j + 128)].foldl step ⟨.ready, read⟩ =
      ⟨.ready, Char.ofNat (i * 64 + j) :: read⟩ := by
  have hbyte := toNat_ofNat_byte (show i + 192 < 256 by omega)
  simp only [List.foldl_cons, List.foldl_nil]
  rw [step_ready, first_of_two (by omega) (by omega), hbyte, Nat.add_sub_cancel]
  exact step_inside_full hj

/-- A character of three bytes. -/
theorem foldl_step_three (hi : i < 16) (hj : j < 64) (hk : k < 64)
    (hleast : 0x800 ≤ (i * 64 + j) * 64 + k)
    (hgap : (i * 64 + j) * 64 + k < 0xD800 ∨ 0xDFFF < (i * 64 + j) * 64 + k) (read : List Char) :
    [UInt8.ofNat (i + 224), .ofNat (j + 128), .ofNat (k + 128)].foldl step ⟨.ready, read⟩ =
      ⟨.ready, Char.ofNat ((i * 64 + j) * 64 + k) :: read⟩ := by
  have hbyte := toNat_ofNat_byte (show i + 224 < 256 by omega)
  obtain ⟨low, high, hfirst, hlow, hhigh⟩ :=
    first_of_three (b := .ofNat (i + 224)) read (by omega) (by omega)
  rw [hbyte, Nat.add_sub_cancel] at hfirst
  rw [hbyte] at hlow hhigh
  simp only [List.foldl_cons, List.foldl_nil]
  rw [step_ready, hfirst,
    step_further hj (by rw [hlow]; split <;> omega) (by rw [hhigh]; split <;> omega)]
  exact step_inside_full hk

/-- A character of four bytes. -/
theorem foldl_step_four (hi : i < 5) (hj : j < 64) (hk : k < 64) (hl : l < 64)
    (hleast : 0x10000 ≤ ((i * 64 + j) * 64 + k) * 64 + l)
    (hmost : ((i * 64 + j) * 64 + k) * 64 + l < 0x110000) (read : List Char) :
    [UInt8.ofNat (i + 240), .ofNat (j + 128), .ofNat (k + 128), .ofNat (l + 128)].foldl step
        ⟨.ready, read⟩ =
      ⟨.ready, Char.ofNat (((i * 64 + j) * 64 + k) * 64 + l) :: read⟩ := by
  have hbyte := toNat_ofNat_byte (show i + 240 < 256 by omega)
  obtain ⟨low, high, hfirst, hlow, hhigh⟩ :=
    first_of_four (b := .ofNat (i + 240)) read (by omega) (by omega)
  rw [hbyte, Nat.add_sub_cancel] at hfirst
  rw [hbyte] at hlow hhigh
  simp only [List.foldl_cons, List.foldl_nil]
  rw [step_ready, hfirst,
    step_further hj (by rw [hlow]; split <;> omega) (by rw [hhigh]; split <;> omega)]
  dsimp only
  rw [step_inside_full hk]
  exact step_inside_full hl

/-- The bytes that a character is written as are read as the character. -/
theorem foldl_step_utf8EncodeChar (c : Char) (read : List Char) :
    (String.utf8EncodeChar c).foldl step ⟨.ready, read⟩ = ⟨.ready, c :: read⟩ := by
  have hvalid : c.toNat < 0xD800 ∨ 0xDFFF < c.toNat ∧ c.toNat < 0x110000 := c.valid
  have hc : Char.ofNat c.toNat = c := Char.ofNat_toNat c
  have hval : c.val.toNat = c.toNat := rfl
  rw [String.utf8EncodeChar]
  simp only [hval]
  generalize c.toNat = v at hvalid hc
  have h₁ : v / 4096 % 64 < 64 := Nat.mod_lt _ (by decide)
  have h₂ : v / 64 % 64 < 64 := Nat.mod_lt _ (by decide)
  have h₃ : v % 64 < 64 := Nat.mod_lt _ (by decide)
  split
  · rw [foldl_step_one (by omega), hc]
  · split
    · have hcode : v / 64 % 32 * 64 + v % 64 = v := by omega
      rw [foldl_step_two (by omega) h₃ (by omega), hcode, hc]
    · split
      · have hcode : (v / 4096 % 16 * 64 + v / 64 % 64) * 64 + v % 64 = v := by omega
        rw [foldl_step_three (by omega) h₂ h₃ (by omega) (by omega), hcode, hc]
      · have hcode : ((v / 262144 % 8 * 64 + v / 4096 % 64) * 64 + v / 64 % 64) * 64 + v % 64 = v := by
          omega
        rw [foldl_step_four (by omega) h₁ h₂ h₃ (by omega) (by omega), hcode, hc]

theorem foldl_step_flatMap (cs read : List Char) :
    (cs.flatMap String.utf8EncodeChar).foldl step ⟨.ready, read⟩ =
      ⟨.ready, cs.reverse ++ read⟩ := by
  induction cs generalizing read with
  | nil => rfl
  | cons c cs ih =>
      rw [List.flatMap_cons, List.foldl_append, foldl_step_utf8EncodeChar, ih, List.reverse_cons,
        List.append_assoc, List.singleton_append]

theorem encode_eq (s : String) : encode s = s.toList.flatMap String.utf8EncodeChar := by
  have htoList : s.toByteArray = (s.toList.flatMap String.utf8EncodeChar).toByteArray :=
    String.utf8Encode_toList.symm
  rw [encode, String.toUTF8, htoList, List.toList_data_toByteArray]

/-- **What is written is read back.** -/
theorem decodeChars_encode (s : String) : decodeChars (encode s) = s.toList := by
  rw [decodeChars, encode_eq, foldl_step_flatMap]
  simp [State.finish]

end Utf8

end Text

end Upkeep
