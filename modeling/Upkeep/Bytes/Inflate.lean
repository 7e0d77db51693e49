/-
**Unpacking deflated bytes.**

A deflated stream is a row of blocks, the last of them marked.  A block is stored, or coded with the
fixed codes, or coded with codes of its own, which it begins with.  Coded blocks consist of literal
bytes and of copies of what was unpacked before.

Codes are canonical: they follow from the numbers of bits of their words.  A code has to be complete;
only a code of a single word of one bit may be incomplete.

Main definitions:

* `Upkeep.Bytes.Stream` — bytes with a place among their bits, and what was unpacked of them;
* `Upkeep.Bytes.Code`, `Upkeep.Bytes.Code.ofLengths?` — canonical codes;
* `Upkeep.Bytes.Unpacked` — the result: all bytes, or those up to where the stream broke off;
* `Upkeep.Bytes.inflate` — the unpacked bytes of a stream.
-/

set_option relaxedAutoImplicit false
set_option autoImplicit false

namespace Upkeep

namespace Bytes

/-! ### Streams -/

/-- A stream that is being unpacked: its bytes, a place among their bits, of which the lowest of a byte
comes first, and the bytes unpacked so far. -/
structure Stream where
  bytes : ByteArray
  place : Nat
  out : ByteArray

/-- Why a stream cannot be unpacked. -/
inductive Broken where
  /-- The stream ends too early. -/
  | early
  /-- The stream is not well formed. -/
  | corrupt
deriving DecidableEq, Repr

/-- An operation on a stream.  What was unpacked before it failed stays. -/
abbrev Unpack := ExceptT Broken (StateM Stream)

/-- Unpack one byte. -/
def emit (b : UInt8) : Unpack PUnit := modify fun s => { s with out := s.out.push b }

/-- The next bit. -/
def bit : Unpack Nat := do
  let s ← get
  match s.bytes[s.place / 8]? with
  | none => throw .early
  | some b =>
    modify fun s => { s with place := s.place + 1 }
    return (b.toNat >>> (s.place % 8)) % 2

/-- The number of the next `n` bits, the lowest first. -/
def bits : (n : Nat) → Unpack Nat
  | 0 => return 0
  | n + 1 => do
    let low ← bit
    return low + 2 * (← bits n)

/-- Go to the next whole byte. -/
def alignByte : Unpack PUnit := modify fun s => { s with place := (s.place + 7) / 8 * 8 }

/-! ### Codes -/

/-- The greatest number of bits of a word. -/
def maxBits : Nat := 15

/-- A canonical code: how many words there are of every number of bits, from one bit on, and the
symbols in the order of their words. -/
structure Code where
  counts : List Nat
  symbols : Array Nat
deriving Repr

namespace Code

/-- How many words are left over by words of the given numbers, or none if these are too many. -/
def unused? (counts : List Nat) : Option Nat :=
  counts.foldlM (fun left n => if n ≤ 2 * left then some (2 * left - n) else none) 1

/-- The numbers of words with one bit, two bits, and so on. -/
def countsOf (lengths : List Nat) : List Nat :=
  (List.range maxBits).map fun i => lengths.count (i + 1)

/-- The symbols in the order of their words. -/
def symbolsOf (lengths : List Nat) : List Nat :=
  (List.range maxBits).flatMap fun i =>
    lengths.zipIdx.filterMap fun (n, symbol) => if n == i + 1 then some symbol else none

/-- The code whose words have the given numbers of bits; none stands for a symbol without a word. -/
def ofLengths? (lengths : List Nat) : Option Code :=
  let counts := countsOf lengths
  match unused? counts with
  | some 0 => some ⟨counts, (symbolsOf lengths).toArray⟩
  | some _ =>
    if counts.tail.all (· == 0) then some ⟨counts, (symbolsOf lengths).toArray⟩ else none
  | none => none

/-- The next symbol of a stream.  `value` is the word read so far, `first` the first word of as many
bits, and `index` the number of symbols with shorter words. -/
def nextFrom (c : Code) (value first index : Nat) : List Nat → Unpack Nat
  | [] => throw .corrupt
  | count :: counts => do
    let value := 2 * value + (← bit)
    if value < first + count then
      match c.symbols[index + (value - first)]? with
      | some symbol => return symbol
      | none => throw .corrupt
    else nextFrom c value (2 * (first + count)) (index + count) counts

/-- The next symbol of a stream. -/
def next (c : Code) : Unpack Nat := c.nextFrom 0 0 0 c.counts

end Code

/-! ### Copies -/

/-- The shortest copy and the number of further bits, for the symbols of lengths. -/
def lengthTable : List (Nat × Nat) :=
  [(3, 0), (4, 0), (5, 0), (6, 0), (7, 0), (8, 0), (9, 0), (10, 0), (11, 1), (13, 1), (15, 1),
    (17, 1), (19, 2), (23, 2), (27, 2), (31, 2), (35, 3), (43, 3), (51, 3), (59, 3), (67, 4),
    (83, 4), (99, 4), (115, 4), (131, 5), (163, 5), (195, 5), (227, 5), (258, 0)]

/-- The shortest distance and the number of further bits, for the symbols of distances. -/
def distanceTable : List (Nat × Nat) :=
  [(1, 0), (2, 0), (3, 0), (4, 0), (5, 1), (7, 1), (9, 2), (13, 2), (17, 3), (25, 3), (33, 4),
    (49, 4), (65, 5), (97, 5), (129, 6), (193, 6), (257, 7), (385, 7), (513, 8), (769, 8),
    (1025, 9), (1537, 9), (2049, 10), (3073, 10), (4097, 11), (6145, 11), (8193, 12), (12289, 12),
    (16385, 13), (24577, 13)]

/-- The number that a symbol of a table stands for together with its further bits. -/
def extended (table : List (Nat × Nat)) (symbol : Nat) : Unpack Nat :=
  match table[symbol]? with
  | some (base, extra) => return base + (← bits extra)
  | none => throw .corrupt

/-- The bytes with a copy of those at a distance from the end, byte by byte, so that a copy may
reach into itself. -/
def copyBack (distance : Nat) : (n : Nat) → ByteArray → ByteArray
  | 0, out => out
  | n + 1, out => copyBack distance n (out.push (out[out.size - distance]?.getD 0))

/-! ### Blocks -/

/-- The codes of a block: for literals and lengths, and for distances. -/
structure Codes where
  literal : Code
  distance : Code

/-- The symbol that ends a block. -/
def endOfBlock : Nat := 256

/-- The symbols of a block.  Every symbol takes at least one bit, so the number of bits is budget
enough. -/
def symbols (codes : Codes) : (budget : Nat) → Unpack PUnit
  | 0 => throw .early
  | budget + 1 => do
    let symbol ← codes.literal.next
    if symbol < endOfBlock then
      emit (UInt8.ofNat symbol)
      symbols codes budget
    else if symbol == endOfBlock then return ()
    else
      let length ← extended lengthTable (symbol - endOfBlock - 1)
      let distance ← extended distanceTable (← codes.distance.next)
      if (← get).out.size < distance then throw .corrupt
      modify fun s => { s with out := copyBack distance length s.out }
      symbols codes budget

/-- The numbers of bits of the fixed codes. -/
def fixedLengths : List Nat :=
  List.replicate 144 8 ++ List.replicate 112 9 ++ List.replicate 24 7 ++ List.replicate 8 8

/-- The fixed codes. -/
def fixedCodes? : Option Codes := do
  some ⟨← Code.ofLengths? fixedLengths, ← Code.ofLengths? (List.replicate 32 5)⟩

/-- The order in which the numbers of bits of the code for numbers of bits are given. -/
def lengthOrder : List Nat := [16, 17, 18, 0, 8, 7, 9, 6, 10, 5, 11, 4, 12, 3, 13, 2, 14, 1, 15]

/-- Numbers of bits, read with a code for them; `read` holds those read so far, latest first.  The
number of those still wanted is the budget. -/
def readLengths (c : Code) : (budget wanted : Nat) → (read : List Nat) → Unpack (List Nat)
  | 0, _, read => return read.reverse
  | budget + 1, wanted, read =>
    if wanted ≤ read.length then
      if read.length == wanted then return read.reverse else throw .corrupt
    else do
      let symbol ← c.next
      match symbol, read with
      | 16, [] => throw .corrupt
      | 16, n :: _ =>
        let times := 3 + (← bits 2)
        readLengths c budget wanted (List.replicate times n ++ read)
      | 17, _ =>
        let times := 3 + (← bits 3)
        readLengths c budget wanted (List.replicate times 0 ++ read)
      | 18, _ =>
        let times := 11 + (← bits 7)
        readLengths c budget wanted (List.replicate times 0 ++ read)
      | n, _ => readLengths c budget wanted (n :: read)

/-- The code of the given numbers of bits, which has to be one. -/
def codeOf (lengths : List Nat) : Unpack Code :=
  match Code.ofLengths? lengths with
  | some c => return c
  | none => throw .corrupt

/-- The codes that a block begins with. -/
def ownCodes : Unpack Codes := do
  let literals := 257 + (← bits 5)
  let distances := 1 + (← bits 5)
  let given := 4 + (← bits 4)
  if 286 < literals || 30 < distances then throw .corrupt
  let order := lengthOrder.take given
  let widths ← order.mapM fun symbol => do return (symbol, ← bits 3)
  let code ← codeOf ((List.range 19).map fun s => ((widths.find? (·.1 == s)).map Prod.snd).getD 0)
  let wanted := literals + distances
  let lengths ← readLengths code (wanted + 1) wanted []
  if lengths[endOfBlock]?.getD 0 == 0 then throw .corrupt
  return ⟨← codeOf (lengths.take literals), ← codeOf (lengths.drop literals)⟩

/-- A stored block. -/
def stored : Unpack PUnit := do
  alignByte
  let length ← bits 16
  let check ← bits 16
  if length + check != 0xFFFF then throw .corrupt
  modify fun s =>
    let start := s.place / 8
    { s with
      place := 8 * (start + length)
      out := s.out ++ s.bytes.extract start (start + length) }
  let s ← get
  if s.bytes.size < s.place / 8 then throw .early

/-- One block; whether it was the last one. -/
def block : Unpack Bool := do
  let last ← bit
  let kind ← bits 2
  let budget := 8 * (← get).bytes.size + 1
  match kind with
  | 0 => stored
  | 1 =>
    match fixedCodes? with
    | some codes => symbols codes budget
    | none => throw .corrupt
  | 2 => do symbols (← ownCodes) budget
  | _ => throw .corrupt
  return last == 1

/-- The blocks up to the last one.  Every block takes some bits, so their number is budget
enough. -/
def blocks : (budget : Nat) → Unpack PUnit
  | 0 => throw .early
  | budget + 1 => do if !(← block) then blocks budget

/-- The result of unpacking: the bytes, and why there are no more of them if the stream broke off. -/
structure Unpacked where
  bytes : ByteArray
  broken : Option Broken

/-- The unpacked bytes of a stream. -/
def inflate (b : ByteArray) : Unpacked :=
  match (blocks (8 * b.size + 1)).run ⟨b, 0, ByteArray.empty⟩ with
  | (.ok (), s) => ⟨s.out, none⟩
  | (.error e, s) => ⟨s.out, some e⟩

end Bytes

end Upkeep
