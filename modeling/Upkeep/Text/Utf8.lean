/-
**Text from bytes.**

Bytes are read as UTF-8, and nothing is refused: every longest stretch of bytes that begins a
character but does not complete it stands for one replacement character.  The reader is a machine
that is either ready for a first byte or in the middle of a character; the bounds on the next byte
exclude overlong forms, surrogates and codes beyond the last plane.

Main definitions:

* `Upkeep.Text.Utf8.Mode` — where the machine stands;
* `Upkeep.Text.Utf8.step` — one byte;
* `Upkeep.Text.Utf8.decodeChars`, `Upkeep.Text.Utf8.decode` — the text of a list of bytes;
* `Upkeep.Text.Utf8.decode?` — the text of bytes that need no replacement;
* `Upkeep.Text.Utf8.encode` — the bytes of a text;
* `Upkeep.Text.Utf8.width` — the number of bytes of a list of characters.
-/

set_option relaxedAutoImplicit false
set_option autoImplicit false

namespace Upkeep

namespace Text

namespace Utf8

/-- The character that stands for bytes that are no text. -/
def replacement : Char := Char.ofNat 0xFFFD

/-! ### The machine -/

/-- Where the machine stands: ready for a first byte, or waiting for `more + 1` further bytes, of
which the next lies between `low` and `high`, with the bits of `code` read so far. -/
inductive Mode where
  | ready
  | inside (more : Nat) (low high : UInt8) (code : Nat)
deriving DecidableEq, Repr

/-- A state of the machine: its mode and the characters read so far, latest first. -/
structure State where
  mode : Mode
  read : List Char
deriving Repr

/-- A byte where a character may begin. -/
def first (b : UInt8) (read : List Char) : State :=
  let n := b.toNat
  if n < 0x80 then ⟨.ready, Char.ofNat n :: read⟩
  else if n < 0xC2 then ⟨.ready, replacement :: read⟩
  else if n < 0xE0 then ⟨.inside 0 0x80 0xBF (n - 0xC0), read⟩
  else if n = 0xE0 then ⟨.inside 1 0xA0 0xBF 0, read⟩
  else if n = 0xED then ⟨.inside 1 0x80 0x9F 0xD, read⟩
  else if n < 0xF0 then ⟨.inside 1 0x80 0xBF (n - 0xE0), read⟩
  else if n = 0xF0 then ⟨.inside 2 0x90 0xBF 0, read⟩
  else if n < 0xF4 then ⟨.inside 2 0x80 0xBF (n - 0xF0), read⟩
  else if n = 0xF4 then ⟨.inside 2 0x80 0x8F 4, read⟩
  else ⟨.ready, replacement :: read⟩

/-- One byte.  A byte that does not continue the character under way closes it with a replacement
character and is then taken as a first byte. -/
def step (s : State) (b : UInt8) : State :=
  match s.mode with
  | .ready => first b s.read
  | .inside more low high code =>
    if low ≤ b && b ≤ high then
      let code' := code * 64 + (b.toNat - 0x80)
      match more with
      | 0 => ⟨.ready, Char.ofNat code' :: s.read⟩
      | k + 1 => ⟨.inside k 0x80 0xBF code', s.read⟩
    else first b (replacement :: s.read)

/-- The characters read once the bytes are used up. -/
def State.finish (s : State) : List Char :=
  match s.mode with
  | .ready => s.read.reverse
  | .inside .. => (replacement :: s.read).reverse

/-! ### Texts -/

/-- The characters of a list of bytes. -/
def decodeChars (bytes : List UInt8) : List Char := (bytes.foldl step ⟨.ready, []⟩).finish

/-- The text of a list of bytes. -/
def decode (bytes : List UInt8) : String := String.ofList (decodeChars bytes)

/-- The bytes of a text. -/
def encode (s : String) : List UInt8 := s.toUTF8.data.toList

/-- The text of a list of bytes that is one, without any replacement. -/
def decode? (bytes : List UInt8) : Option String :=
  let s := decode bytes
  if encode s == bytes then some s else none

/-- The number of bytes of a list of characters. -/
def width (s : List Char) : Nat := s.foldl (fun n c => n + c.utf8Size) 0

@[simp] theorem decode_nil : decode [] = "" := rfl

@[simp] theorem width_nil : width [] = 0 := rfl

end Utf8

end Text

end Upkeep
