/-
**Fields of binary records.**

Numbers are stored with their lowest byte first.  A field that reaches beyond the end of the bytes
cannot be read.

Main definitions:

* `Upkeep.Bytes.littleEndian` — the number that some bytes stand for;
* `Upkeep.Bytes.slice?` — a stretch of bytes;
* `Upkeep.Bytes.number?` — a number at a place;
* `Upkeep.Bytes.hexText` — bytes as hexadecimal digits.
-/

set_option relaxedAutoImplicit false
set_option autoImplicit false

namespace Upkeep

namespace Bytes

/-- The number that some bytes stand for, the lowest byte first. -/
def littleEndian (bytes : List UInt8) : Nat := bytes.foldr (fun b n => b.toNat + 256 * n) 0

/-- The bytes of a number, the lowest first. -/
def ofNumber : (width : Nat) → Nat → List UInt8
  | 0, _ => []
  | width + 1, n => UInt8.ofNat n :: ofNumber width (n / 256)

/-- The `n` bytes at a place, if there are as many. -/
def slice? (b : ByteArray) (place n : Nat) : Option ByteArray :=
  if place + n ≤ b.size then some (b.extract place (place + n)) else none

/-- The number of a given width at a place. -/
def number? (b : ByteArray) (place width : Nat) : Option Nat :=
  (slice? b place width).map fun s => littleEndian s.data.toList

/-- Whether some bytes stand at a place. -/
def standsAt : (mark : List UInt8) → (b : ByteArray) → (place : Nat) → Bool
  | [], _, _ => true
  | m :: mark, b, place => b[place]? == some m && standsAt mark b (place + 1)

/-- The first place from `place` on, among the next `count` ones, where some bytes stand. -/
def firstPlace? (mark : List UInt8) (b : ByteArray) : (count place : Nat) → Option Nat
  | 0, _ => none
  | count + 1, place =>
    if standsAt mark b place then some place else firstPlace? mark b count (place + 1)

/-- A byte as two hexadecimal digits. -/
def hexByte (b : UInt8) : List Char :=
  [Nat.digitChar (b.toNat / 16), Nat.digitChar (b.toNat % 16)]

/-- Bytes as hexadecimal digits. -/
def hexText (bytes : List UInt8) : String := String.ofList (bytes.flatMap hexByte)

@[simp] theorem littleEndian_nil : littleEndian [] = 0 := rfl

@[simp] theorem littleEndian_cons (b : UInt8) (bs : List UInt8) :
    littleEndian (b :: bs) = b.toNat + 256 * littleEndian bs := rfl

/-- A number is read back from its bytes as far as they reach. -/
theorem littleEndian_ofNumber (width n : Nat) :
    littleEndian (ofNumber width n) = n % Nat.pow 256 width := by
  induction width generalizing n with
  | zero => simp [ofNumber, Nat.mod_one]
  | succ width ih =>
      have : (UInt8.ofNat n).toNat = n % 256 := by simp
      rw [ofNumber, littleEndian_cons, ih, this]
      change _ = n % (Nat.pow 256 width * 256)
      rw [Nat.mul_comm (Nat.pow 256 width), Nat.mod_mul]

end Bytes

end Upkeep
