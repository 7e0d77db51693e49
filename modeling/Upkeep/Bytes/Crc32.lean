/-
**The 32-bit checksum of archives.**

The cyclic checksum with the reflected polynomial `0xEDB88320`; the register starts with all bits set
and is complemented at the end.

Main definitions:

* `Upkeep.Bytes.crcStep` — the register after one more byte;
* `Upkeep.Bytes.crc32` — the checksum of some bytes.
-/

set_option relaxedAutoImplicit false
set_option autoImplicit false

namespace Upkeep

namespace Bytes

/-- The register after one more bit. -/
def crcBit (r : UInt32) : UInt32 := if r &&& 1 == 1 then (r >>> 1) ^^^ 0xEDB88320 else r >>> 1

/-- The register after the eight bits of its lowest byte. -/
def crcByte (r : UInt32) : UInt32 :=
  crcBit (crcBit (crcBit (crcBit (crcBit (crcBit (crcBit (crcBit r)))))))

/-- The register after one more byte. -/
def crcStep (r : UInt32) (b : UInt8) : UInt32 := crcByte (r ^^^ b.toUInt32)

/-- The checksum of some bytes. -/
def crc32 (b : ByteArray) : UInt32 := (b.foldl crcStep 0xFFFFFFFF) ^^^ 0xFFFFFFFF

end Bytes

end Upkeep
