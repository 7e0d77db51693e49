/-
**Compiled maps.**

A compiled map begins with four letters, a version, and a table of seventeen lumps; a lump is a
stretch of the file.  The first lump is the text of the entities.  All numbers have thirty-two bits.

Main definitions:

* `Upkeep.Pak.Lump`, `Upkeep.Pak.MapHeader` — headers;
* `Upkeep.Pak.MapHeader.read`, `Upkeep.Pak.MapHeader.ofBytes` — the header of a map;
* `Upkeep.Pak.MapHeader.encode` — the bytes of a header;
* `Upkeep.Pak.MapHeader.slice` — the bytes of a lump;
* `Upkeep.Pak.entityText` — the lump of the entities.
-/

import Upkeep.Bytes.Access
import Upkeep.Failure

set_option relaxedAutoImplicit false
set_option autoImplicit false

namespace Upkeep

namespace Pak

open Bytes

/-! ### Headers -/

/-- A stretch of a map file. -/
structure Lump where
  offset : Word
  length : Word
deriving DecidableEq, Repr, Inhabited

/-- The letters that a map begins with. -/
def mapLetters : List UInt8 := [0x49, 0x42, 0x53, 0x50]

/-- The number of lumps. -/
def lumpCount : Nat := 17

/-- The versions that are known. -/
def mapVersions : List Nat := [46, 47]

/-- What a map begins with, after its letters. -/
structure MapHeader where
  version : Word
  table : Vector Lump lumpCount
deriving DecidableEq, Repr

/-- The number of bytes of letters and version, and of the whole header. -/
def prologueSize : Nat := 8

def headerSize : Nat := prologueSize + 8 * lumpCount

/-- The bytes of a lump in the table. -/
def Lump.encode (l : Lump) : List UInt8 := ofNumber 4 l.offset ++ ofNumber 4 l.length

/-- The lump whose numbers stand at a place. -/
def lumpAt (data : List UInt8) (place : Nat) : Access Lump := do
  return ⟨← wordAt data place, ← wordAt data (place + 4)⟩

namespace MapHeader

/-- The lumps in order. -/
def lumps (h : MapHeader) : List Lump := h.table.toList

/-- The bytes of a header. -/
def encode (h : MapHeader) : List UInt8 :=
  mapLetters ++ (ofNumber 4 h.version ++ h.lumps.flatMap Lump.encode)

/-- The header of a map that is read at its places.  The length is looked at before the letters and the
version are, and once more before the table is. -/
def read (data : List UInt8) : Access (Outcome MapHeader) :=
  if data.length < prologueSize then return .error .mapTruncated
  else do
    if (← span data 0 4) != mapLetters then return .error .mapHeader
    else
      let version ← wordAt data 4
      if !mapVersions.contains version.val then return .error (.mapVersion version)
      else if data.length < headerSize then return .error .mapTruncated
      else
        let table ← Vector.ofFnM fun i : Fin lumpCount => lumpAt data (prologueSize + 8 * i)
        return .ok ⟨version, table⟩

end MapHeader

/-! ### Staying within the bytes -/

/-- A lump that lies within the bytes can be read. -/
theorem exists_lumpAt {data : List UInt8} {place : Nat} (h : place + 8 ≤ data.length) :
    ∃ l, lumpAt data place = .ok l := by
  obtain ⟨offset, hoffset⟩ := exists_wordAt (show place + 4 ≤ data.length by omega)
  obtain ⟨length, hlength⟩ := exists_wordAt (show place + 4 + 4 ≤ data.length by omega)
  exact ⟨⟨offset, length⟩, by rw [lumpAt, hoffset, hlength]; rfl⟩

namespace MapHeader

/-- **The header of a map is read without leaving the bytes**, whatever they are. -/
theorem exists_read (data : List UInt8) : ∃ r, read data = .ok r := by
  rw [read]
  split
  · exact ⟨_, rfl⟩
  · rename_i hshort
    rw [prologueSize] at hshort
    obtain ⟨version, hversion⟩ := exists_wordAt (show 4 + 4 ≤ data.length by omega)
    rw [span_eq (by omega) (by omega), Access.ok_bind]
    split
    · exact ⟨_, rfl⟩
    · rw [hversion, Access.ok_bind]
      split
      · exact ⟨_, rfl⟩
      · split
        · exact ⟨_, rfl⟩
        · rename_i hlong
          have hlumps : ∀ i : Fin lumpCount, ∃ l, lumpAt data (prologueSize + 8 * i) = .ok l := by
            intro i
            have := i.isLt
            apply exists_lumpAt
            rw [headerSize] at hlong
            omega
          obtain ⟨g, hg⟩ := Classical.axiomOfChoice hlumps
          rw [Access.ofFnM_eq_ok hg]
          exact ⟨_, rfl⟩

/-- The header of a map. -/
def ofBytes (data : List UInt8) : Outcome MapHeader := (read data).result (exists_read data)

theorem read_eq (data : List UInt8) : read data = .ok (ofBytes data) := Access.eq_ok_result _ _

/-- The bytes of a lump, if it lies within the file. -/
def slice (h : MapHeader) (data : List UInt8) (i : Nat) : Outcome (List UInt8) :=
  match h.table[i]? with
  | none => .error (.mapLump i)
  | some l =>
    match checkedSum? l.offset l.length with
    | none => .error (.mapLump i)
    | some last =>
      match within? data l.offset last with
      | none => .error (.mapLump i)
      | some bytes => .ok bytes

end MapHeader

/-- The index of the lump of the entities. -/
def entityLump : Nat := 0

/-- The text of the entities of a map. -/
def entityText (data : List UInt8) : Outcome (List UInt8) := do
  (← MapHeader.ofBytes data).slice data entityLump

end Pak

end Upkeep
