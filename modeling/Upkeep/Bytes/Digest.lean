/-
**The BLAKE3 digest.**

The bytes are cut into chunks of 1024 and these into blocks of 64; the blocks of a chunk are
compressed one after the other.  The values of the chunks are the leaves of a binary tree: neighbours
are joined level by level, and a node without a neighbour goes up as it is.  The last compression of
the whole tree is marked, and its first 32 bytes are the digest.

Main definitions:

* `Upkeep.Bytes.Digest.compress` — the compression of one block;
* `Upkeep.Bytes.Digest.Node` — a compression that may still be marked as the last one;
* `Upkeep.Bytes.Digest.chunkNode`, `Upkeep.Bytes.Digest.parentNode` — leaves and inner nodes;
* `Upkeep.Bytes.digest` — the digest as hexadecimal digits.
-/

import Upkeep.Bytes.Field

set_option relaxedAutoImplicit false
set_option autoImplicit false

namespace Upkeep

namespace Bytes

namespace Digest

/-- The words that a value passed from one compression to the next consists of. -/
abbrev Chain := Vector UInt32 8

/-- The words of a block. -/
abbrev Block := Vector UInt32 16

/-- The value that every chunk begins with. -/
def start : Chain :=
  #v[0x6A09E667, 0xBB67AE85, 0x3C6EF372, 0xA54FF53A, 0x510E527F, 0x9B05688C, 0x1F83D9AB, 0x5BE0CD19]

/-! ### Compression -/

/-- The word rotated to the right. -/
def rotate (x : UInt32) (n : UInt32) : UInt32 := (x >>> n) ||| (x <<< (32 - n))

/-- Mix two words of a block into four words of the state. -/
def mix (v : Block) (a b c d : Fin 16) (x y : UInt32) : Block :=
  let v := v.set a (v[a] + v[b] + x)
  let v := v.set d (rotate (v[d] ^^^ v[a]) 16)
  let v := v.set c (v[c] + v[d])
  let v := v.set b (rotate (v[b] ^^^ v[c]) 12)
  let v := v.set a (v[a] + v[b] + y)
  let v := v.set d (rotate (v[d] ^^^ v[a]) 8)
  let v := v.set c (v[c] + v[d])
  v.set b (rotate (v[b] ^^^ v[c]) 7)

/-- Mix a block into the state: first the columns, then the diagonals. -/
def round (v m : Block) : Block :=
  let v := mix v 0 4 8 12 m[0] m[1]
  let v := mix v 1 5 9 13 m[2] m[3]
  let v := mix v 2 6 10 14 m[4] m[5]
  let v := mix v 3 7 11 15 m[6] m[7]
  let v := mix v 0 5 10 15 m[8] m[9]
  let v := mix v 1 6 11 12 m[10] m[11]
  let v := mix v 2 7 8 13 m[12] m[13]
  mix v 3 4 9 14 m[14] m[15]

/-- The words of a block in the order of the next round. -/
def permute (m : Block) : Block :=
  #v[m[2], m[6], m[3], m[10], m[7], m[0], m[4], m[13],
    m[1], m[11], m[12], m[5], m[9], m[14], m[15], m[8]]

/-- Several rounds. -/
def rounds : (n : Nat) → (v m : Block) → Block
  | 0, v, _ => v
  | n + 1, v, m => rounds n (round v m) (permute m)

/-- The compression of one block: the value that was passed on, the block, a counter, the number of
bytes in the block, and marks. -/
def compress (h : Chain) (m : Block) (counter : Nat) (size marks : UInt32) : Chain :=
  let v : Block := #v[h[0], h[1], h[2], h[3], h[4], h[5], h[6], h[7],
    start[0], start[1], start[2], start[3],
    UInt32.ofNat counter, UInt32.ofNat (counter >>> 32), size, marks]
  let v := rounds 7 v m
  #v[v[0] ^^^ v[8], v[1] ^^^ v[9], v[2] ^^^ v[10], v[3] ^^^ v[11],
    v[4] ^^^ v[12], v[5] ^^^ v[13], v[6] ^^^ v[14], v[7] ^^^ v[15]]

/-! ### The tree -/

/-- The mark of the first block of a chunk. -/
def chunkStart : UInt32 := 1

/-- The mark of the last block of a chunk. -/
def chunkEnd : UInt32 := 2

/-- The mark of inner nodes. -/
def parent : UInt32 := 4

/-- The mark of the last compression. -/
def root : UInt32 := 8

/-- A compression that may still be marked as the last one. -/
structure Node where
  chain : Chain
  block : Block
  counter : Nat
  size : UInt32
  marks : UInt32

namespace Node

/-- The value of a node within the tree. -/
def value (n : Node) : Chain := compress n.chain n.block n.counter n.size n.marks

/-- The bytes of the digest, if the node is the root. -/
def bytes (n : Node) : List UInt8 :=
  (compress n.chain n.block n.counter n.size (n.marks ||| root)).toList.flatMap fun w =>
    ofNumber 4 w.toNat

end Node

/-- The number of bytes of a block. -/
def blockSize : Nat := 64

/-- The number of bytes of a chunk. -/
def chunkSize : Nat := 1024

/-- The word at a place; bytes beyond the end are zero. -/
def wordAt (b : ByteArray) (stop place : Nat) : UInt32 :=
  let byte (i : Nat) : UInt32 :=
    if place + i < stop then (b[place + i]?.getD 0).toUInt32 else 0
  byte 0 ||| (byte 1 <<< 8) ||| (byte 2 <<< 16) ||| (byte 3 <<< 24)

/-- The words of the block at a place. -/
def blockAt (b : ByteArray) (stop place : Nat) : Block :=
  Vector.ofFn fun i => wordAt b stop (place + 4 * i)

/-- The node of a chunk that goes on at `place` with `more` blocks after the next one. -/
def chunkFrom (b : ByteArray) (counter stop : Nat) : (more place : Nat) → (h : Chain) →
    (marks : UInt32) → Node
  | 0, place, h, marks =>
    ⟨h, blockAt b stop place, counter, UInt32.ofNat (stop - place), marks ||| chunkEnd⟩
  | more + 1, place, h, marks =>
    chunkFrom b counter stop more (place + blockSize)
      (compress h (blockAt b stop place) counter (UInt32.ofNat blockSize) marks) 0

/-- The node of a chunk, given its number. -/
def chunkNode (b : ByteArray) (counter : Nat) : Node :=
  let place := counter * chunkSize
  let stop := min b.size (place + chunkSize)
  chunkFrom b counter stop ((stop - place - 1) / blockSize) place start chunkStart

/-- The node above two others. -/
def parentNode (left right : Node) : Node :=
  ⟨start, (left.value ++ right.value).cast rfl, 0, UInt32.ofNat blockSize, parent⟩

/-- The nodes above a row of nodes. -/
def joinPairs : List Node → List Node
  | left :: right :: rest => parentNode left right :: joinPairs rest
  | row => row

/-- The node on top of a row of nodes.  Every level is shorter than the one below it, so the number of
nodes is budget enough. -/
def top : (budget : Nat) → Node → List Node → Node
  | 0, n, _ => n
  | _, n, [] => n
  | budget + 1, n, rest =>
    match joinPairs (n :: rest) with
    | [] => n
    | n :: rest => top budget n rest

/-- The node on top of the tree. -/
def tree (b : ByteArray) : Node :=
  let chunks := (b.size - 1) / chunkSize
  top (chunks + 1) (chunkNode b 0) ((List.range chunks).map fun i => chunkNode b (i + 1))

end Digest

/-- The digest as hexadecimal digits. -/
def digest (b : ByteArray) : String := hexText (Digest.tree b).bytes

end Bytes

end Upkeep
