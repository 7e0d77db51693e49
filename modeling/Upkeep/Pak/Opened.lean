/-
**Opened paks.**

A pak is opened as an archive: its entries have names, and each of them declares how many bytes it
unpacks to.  Whoever reads an entry asks for a buffer of the declared size before anything is unpacked.
The size is whatever the archive says; where no such buffer can be had, the program stops.

How bytes are opened as an archive is left open here, and so is how much memory there is.

Main definitions:

* `Upkeep.Pak.Packed`, `Upkeep.Pak.Opened`, `Upkeep.Pak.Opener` — entries, opened paks, and how bytes are
  opened;
* `Upkeep.Pak.Memory` — the buffers that can be had;
* `Upkeep.Pak.Opened.read` — the bytes of an entry.
-/

import Upkeep.Failure

set_option relaxedAutoImplicit false
set_option autoImplicit false

namespace Upkeep

namespace Pak

/-- What an archive has under a name: the size that is declared, and the unpacked bytes, unless the data
are damaged. -/
structure Packed where
  size : UInt64
  content? : Option (List UInt8)
deriving DecidableEq, Repr

/-- A pak that has been opened: the names of its entries in order, and what stands under a name. -/
structure Opened where
  names : List String
  lookup? : (name : String) → Option Packed

/-- How the bytes of a file are opened as an archive. -/
abbrev Opener := ByteArray → Option Opened

/-- The sizes of the buffers that can be had.  No buffer is larger than half of what words can address. -/
structure Memory where
  grants : (size : UInt64) → Bool
  lt_of_grants : ∀ size, grants size = true → size.toNat < UInt64.size / 2

namespace Memory

/-- Ask for a buffer. -/
def reserve (m : Memory) (size : UInt64) : Stoppable PUnit :=
  if m.grants size then .ok ⟨⟩ else .error .memory

/-- All buffers that fit between the addresses of a process. -/
def addressable : Memory where
  grants size := size.toNat < 0x800000000000
  lt_of_grants _ h := Nat.lt_trans (of_decide_eq_true h) (by decide)

end Memory

/-- The bytes of an entry. -/
def Opened.read (m : Memory) (a : Opened) (name : String) : Stoppable (Outcome (List UInt8)) :=
  match a.lookup? name with
  | none => .ok (.error (.badEntry name))
  | some e => do
    m.reserve e.size
    match e.content? with
    | some bytes => return .ok bytes
    | none => return .error (.readEntry name)

end Pak

end Upkeep
