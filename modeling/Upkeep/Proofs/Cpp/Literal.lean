/-
**What string literals denote.**

The characters of an ordinary string literal stand for themselves, as bytes of UTF-8, and a backslash
begins an escape sequence: one character that is named, the number of a byte in octal or hexadecimal
digits, or the number of a character.  A literal is one line here.

An escape sequence denotes fewer bytes than it is written with.  So a literal denotes the characters that
it is written with if and only if no backslash is among them, and to put a backslash in front of every
backslash and every quote is right for characters, but not for the spelling of a literal.

Main definitions:

* `Upkeep.Cpp.escape?` — escape sequences;
* `Upkeep.Cpp.unitsFrom`, `Upkeep.Cpp.literalUnits?` — the bytes that a literal denotes;
* `Upkeep.Cpp.escaped` — characters with a backslash in front of every backslash and every quote.

Main results:

* `Upkeep.Cpp.unitsFrom_escaped` — what is escaped denotes its characters;
* `Upkeep.Cpp.length_of_unitsFrom` — a backslash costs at least one byte;
* `Upkeep.Cpp.unitsFrom_escaped_iff` — **which spellings denote the same once they are escaped**.
-/

import Upkeep.Data.Json
import Upkeep.Proofs.Text.Utf8

set_option relaxedAutoImplicit false
set_option autoImplicit false

namespace Upkeep

namespace Cpp

/-! ### Escape sequences -/

/-- The byte that a backslash and one character denote. -/
def shortEscape? (c : Char) : Option UInt8 :=
  if c == '\'' || c == '"' || c == '?' || c == '\\' then some c.toNat.toUInt8
  else if c == 'a' then some 7
  else if c == 'b' then some 8
  else if c == 't' then some 9
  else if c == 'n' then some 10
  else if c == 'v' then some 11
  else if c == 'f' then some 12
  else if c == 'r' then some 13
  else none

/-- The value of a digit. -/
def digit? (base : Nat) (c : Char) : Option Nat := (Data.Json.hexDigit? c).filter (· < base)

/-- The values of the digits that a text begins with, of at most so many. -/
def digits (base : Nat) : (most : Nat) → List Char → List Nat
  | most + 1, c :: cs =>
    match digit? base c with
    | some d => d :: digits base most cs
    | none => []
  | _, _ => []

/-- The bytes that the number of a byte denotes. -/
def byteOf? (n : Nat) : Option (List UInt8) := if n < 256 then some [n.toUInt8] else none

/-- The bytes that the number of a character denotes. -/
def characterOf? (n : Nat) : Option (List UInt8) :=
  if n.isValidChar then some (String.utf8EncodeChar (Char.ofNat n)) else none

/-- The bytes that a number denotes, and how many digits it has: at least `least`, at most `most`. -/
def byNumber (bytes? : Nat → Option (List UInt8)) (base least most : Nat) (cs : List Char) :
    Option (List UInt8 × Nat) :=
  let ds := digits base most cs
  if ds.length < least then none
  else (bytes? (ds.foldl (fun n d => n * base + d) 0)).map (·, ds.length)

/-- The bytes that an escape sequence denotes, and the number of its characters, both without the
backslash. -/
def escape? : List Char → Option (List UInt8 × Nat)
  | [] => none
  | c :: cs =>
    match shortEscape? c with
    | some u => some ([u], 1)
    | none =>
      if c == 'x' then (byNumber byteOf? 16 1 cs.length cs).map fun e => (e.1, e.2 + 1)
      else if c == 'u' then (byNumber characterOf? 16 4 4 cs).map fun e => (e.1, e.2 + 1)
      else if c == 'U' then (byNumber characterOf? 16 8 8 cs).map fun e => (e.1, e.2 + 1)
      else byNumber byteOf? 8 1 3 (c :: cs)

/-! ### Literals -/

/-- The bytes that the content of a literal denotes behind the characters to be passed over; `none` when
it is no content. -/
def unitsFrom : (skip : Nat) → List Char → Option (List UInt8)
  | _, [] => some []
  | skip + 1, _ :: cs => unitsFrom skip cs
  | 0, c :: cs =>
    if c == '\\' then (escape? cs).bind fun e => (unitsFrom e.2 cs).map (e.1 ++ ·)
    else if c == '"' || c == '\n' then none
    else (unitsFrom 0 cs).map (String.utf8EncodeChar c ++ ·)

/-- The bytes that a literal denotes, given with its quotes. -/
def literalUnits? (text : String) : Option (List UInt8) :=
  match text.toList with
  | '"' :: cs => if cs.getLast? = some '"' then unitsFrom 0 cs.dropLast else none
  | _ => none

theorem literalUnits?_of_quotes {text : String} {cs : List Char} (h : text.toList = '"' :: cs ++ ['"']) :
    literalUnits? text = unitsFrom 0 cs := by
  rw [literalUnits?, h]
  simp

/-- A text that denotes something stands between quotes. -/
theorem exists_content {text : String} {us : List UInt8} (h : literalUnits? text = some us) :
    ∃ cs, text.toList = '"' :: cs ++ ['"'] ∧ unitsFrom 0 cs = some us := by
  rw [literalUnits?] at h
  split at h
  · rename_i cs htext
    split at h
    · rename_i hlast
      obtain ⟨content, rfl⟩ := List.getLast?_eq_some_iff.1 hlast
      rw [List.dropLast_concat] at h
      exact ⟨content, htext, h⟩
    · cases h
  · cases h

/-! ### Characters that stand for themselves -/

/-- The bytes of characters. -/
def plainUnits (cs : List Char) : List UInt8 := cs.flatMap String.utf8EncodeChar

@[simp] theorem plainUnits_nil : plainUnits [] = [] := rfl

@[simp] theorem plainUnits_cons (c : Char) (cs : List Char) :
    plainUnits (c :: cs) = String.utf8EncodeChar c ++ plainUnits cs := rfl

theorem plainUnits_append (cs cs' : List Char) :
    plainUnits (cs ++ cs') = plainUnits cs ++ plainUnits cs' := List.flatMap_append

theorem plainUnits_toList (s : String) : plainUnits s.toList = Text.Utf8.encode s :=
  (Text.Utf8.encode_eq s).symm

theorem length_le_plainUnits (cs : List Char) : cs.length ≤ (plainUnits cs).length := by
  induction cs with
  | nil => exact Nat.le_refl _
  | cons c cs ih =>
      have hc := c.utf8Size_pos
      rw [plainUnits_cons, List.length_append, String.length_utf8EncodeChar, List.length_cons]
      omega

/-- A character other than a backslash stands for itself, or it ends the content. -/
theorem unitsFrom_plain {c : Char} (hc : c ≠ '\\') (cs : List Char) :
    unitsFrom 0 (c :: cs) =
      if c == '"' || c == '\n' then none else (unitsFrom 0 cs).map (String.utf8EncodeChar c ++ ·) := by
  rw [unitsFrom, if_neg (by simpa using hc)]

/-- A content without backslashes denotes its characters, and is one line. -/
theorem plain_of_unitsFrom {cs : List Char} {us : List UInt8} (h : unitsFrom 0 cs = some us)
    (hcs : '\\' ∉ cs) : us = plainUnits cs ∧ '\n' ∉ cs := by
  induction cs generalizing us with
  | nil =>
      cases h
      exact ⟨rfl, List.not_mem_nil⟩
  | cons c cs ih =>
      obtain ⟨hc, hcs⟩ := not_or.1 (mt List.mem_cons.2 hcs)
      rw [unitsFrom_plain (Ne.symm hc)] at h
      split at h
      · cases h
      · rename_i hmark
        obtain ⟨us', hus', rfl⟩ := Option.map_eq_some_iff.1 h
        obtain ⟨rfl, hline⟩ := ih hus' hcs
        simp only [Bool.or_eq_true, beq_iff_eq, not_or] at hmark
        exact ⟨rfl, by simp [hline, Ne.symm hmark.2]⟩

/-! ### Escaped characters -/

/-- Characters with a backslash in front of every backslash and every quote. -/
def escaped (cs : List Char) : List Char :=
  cs.flatMap fun c => if c == '\\' || c == '"' then ['\\', c] else [c]

/-- What is escaped denotes its characters, if these are one line. -/
theorem unitsFrom_escaped (cs : List Char) :
    unitsFrom 0 (escaped cs) = if '\n' ∈ cs then none else some (plainUnits cs) := by
  induction cs with
  | nil => rfl
  | cons c cs ih =>
      rw [escaped, List.flatMap_cons, ← escaped, plainUnits_cons]
      by_cases hbackslash : c = '\\'
      · subst hbackslash
        have hstep : unitsFrom 0 ('\\' :: '\\' :: escaped cs) =
            (unitsFrom 0 (escaped cs)).map (String.utf8EncodeChar '\\' ++ ·) := rfl
        simp [hstep, ih, apply_ite]
      · by_cases hquote : c = '"'
        · subst hquote
          have hstep : unitsFrom 0 ('\\' :: '"' :: escaped cs) =
              (unitsFrom 0 (escaped cs)).map (String.utf8EncodeChar '"' ++ ·) := rfl
          simp [hstep, ih, apply_ite]
        · have hplain := unitsFrom_plain hbackslash (escaped cs)
          by_cases hfeed : c = '\n'
          · subst hfeed
            simp [hplain]
          · simp [hplain, hbackslash, hquote, hfeed, Ne.symm hfeed, ih, apply_ite]

/-! ### What escape sequences cost -/

theorem length_digits_le (base most : Nat) (cs : List Char) : (digits base most cs).length ≤ cs.length := by
  induction cs generalizing most with
  | nil => cases most <;> exact Nat.le_refl _
  | cons c cs ih =>
      cases most with
      | zero => exact Nat.zero_le _
      | succ most =>
          rw [digits]
          split
          · exact Nat.succ_le_succ (ih most)
          · exact Nat.zero_le _

/-- A number denotes at most as many bytes as it has digits, if it has enough of them. -/
theorem length_of_byNumber {bytes? : Nat → Option (List UInt8)} {base least most k : Nat} {cs : List Char}
    {us : List UInt8} (hbytes : ∀ n us, bytes? n = some us → us.length ≤ least)
    (h : byNumber bytes? base least most cs = some (us, k)) : us.length ≤ k ∧ k ≤ cs.length := by
  rw [byNumber] at h
  split at h
  · cases h
  · rename_i hleast
    obtain ⟨us', hus', heq⟩ := Option.map_eq_some_iff.1 h
    obtain ⟨rfl, rfl⟩ := Prod.mk.inj heq
    exact ⟨Nat.le_trans (hbytes _ _ hus') (Nat.le_of_not_lt hleast), length_digits_le base most cs⟩

theorem length_of_byteOf? {n : Nat} {us : List UInt8} (h : byteOf? n = some us) : us.length ≤ 1 := by
  rw [byteOf?] at h
  split at h
  · cases h
    exact Nat.le_refl _
  · cases h

theorem length_of_characterOf? {n : Nat} {us : List UInt8} (h : characterOf? n = some us) :
    us.length ≤ 4 := by
  rw [characterOf?] at h
  split at h
  · cases h
    rw [String.length_utf8EncodeChar]
    exact Char.utf8Size_le_four _
  · cases h

/-- An escape sequence denotes at most as many bytes as it has characters behind the backslash. -/
theorem length_of_escape? {cs : List Char} {us : List UInt8} {k : Nat} (h : escape? cs = some (us, k)) :
    us.length ≤ k ∧ k ≤ cs.length := by
  cases cs with
  | nil => cases h
  | cons c cs =>
      -- The letter in front of a number is one more character.
      have hletter : ∀ {bytes? : Nat → Option (List UInt8)} {base least most : Nat},
          (∀ n us, bytes? n = some us → us.length ≤ least) →
          (byNumber bytes? base least most cs).map (fun e => (e.1, e.2 + 1)) = some (us, k) →
          us.length ≤ k ∧ k ≤ (c :: cs).length := by
        intro bytes? base least most hbytes h
        obtain ⟨⟨us', k'⟩, hnumber, heq⟩ := Option.map_eq_some_iff.1 h
        obtain ⟨rfl, rfl⟩ := Prod.mk.inj heq
        obtain ⟨hus, hk⟩ := length_of_byNumber hbytes hnumber
        exact ⟨Nat.le_succ_of_le hus, Nat.succ_le_succ hk⟩
      rw [escape?] at h
      split at h
      · cases h
        exact ⟨Nat.le_refl _, Nat.succ_le_succ (Nat.zero_le _)⟩
      · split at h
        · exact hletter (fun _ _ => length_of_byteOf?) h
        · split at h
          · exact hletter (fun _ _ => length_of_characterOf?) h
          · split at h
            · exact hletter (fun _ _ hus => Nat.le_trans (length_of_characterOf? hus) (by decide)) h
            · exact length_of_byNumber (fun _ _ => length_of_byteOf?) h

/-- A content denotes at most the bytes of its characters, and fewer of them if it has a backslash. -/
theorem length_of_unitsFrom {cs : List Char} {k : Nat} {us : List UInt8} (h : unitsFrom k cs = some us) :
    us.length ≤ (plainUnits (cs.drop k)).length ∧
      ('\\' ∈ cs.drop k → us.length < (plainUnits (cs.drop k)).length) := by
  induction cs generalizing k us with
  | nil =>
      cases h
      simp
  | cons c cs ih =>
      cases k with
      | succ k => exact ih h
      | zero =>
          rw [List.drop_zero, plainUnits_cons, List.length_append, String.length_utf8EncodeChar]
          by_cases hc : c = '\\'
          · subst hc
            obtain ⟨⟨vs, k⟩, hescape, hrest⟩ := Option.bind_eq_some_iff.1 h
            obtain ⟨ws, hws, heq⟩ := Option.map_eq_some_iff.1 hrest
            obtain rfl : vs ++ ws = us := heq
            obtain ⟨hvs, hk⟩ := length_of_escape? hescape
            have htaken := length_le_plainUnits (cs.take k)
            have hparts := congrArg List.length (plainUnits_append (cs.take k) (cs.drop k))
            have hsize : Char.utf8Size '\\' = 1 := rfl
            have hbehind : ws.length ≤ (plainUnits (cs.drop k)).length := (ih hws).1
            rw [List.take_append_drop, List.length_append] at hparts
            rw [List.length_take_of_le hk] at htaken
            rw [List.length_append, hsize]
            constructor
            · omega
            · intro _
              omega
          · rw [unitsFrom_plain hc] at h
            split at h
            · cases h
            · obtain ⟨ws, hws, rfl⟩ := Option.map_eq_some_iff.1 h
              obtain ⟨hle, hlt⟩ := ih hws
              rw [List.drop_zero] at hle hlt
              rw [List.length_append, String.length_utf8EncodeChar]
              refine ⟨Nat.add_le_add_left hle _, ?_⟩
              intro hmem
              exact Nat.add_lt_add_left (hlt ((List.mem_cons.1 hmem).resolve_left (Ne.symm hc))) _

/-- **Which spellings denote the same once they are escaped**: those without a backslash. -/
theorem unitsFrom_escaped_iff {cs : List Char} {us : List UInt8} (h : unitsFrom 0 cs = some us) :
    unitsFrom 0 (escaped cs) = some us ↔ '\\' ∉ cs := by
  rw [unitsFrom_escaped]
  constructor
  · intro hescaped hmem
    split at hescaped
    · cases hescaped
    · cases hescaped
      exact Nat.lt_irrefl _ ((length_of_unitsFrom h).2 hmem)
  · intro hcs
    obtain ⟨rfl, hline⟩ := plain_of_unitsFrom h hcs
    rw [if_neg hline]

example : unitsFrom 0 "\\x41\\102\\u00e9\\t".toList = some [0x41, 0x42, 0xC3, 0xA9, 9] ∧
    unitsFrom 0 (escaped "\\t\\\"".toList) = some [0x5C, 0x74, 0x5C, 0x22] := by decide +kernel

end Cpp

end Upkeep
