/-
**Archives.**

An archive is found from its end: the end record tells where the directory starts, which lists the
entries, and each entry has a header of its own in front of its data.  Bytes in front of the archive
shift everything; they are noticed because the directory does not start where the end record says.
An end record whose directory cannot be read is no end record, and the search goes on before it.

Numbers that do not fit into the end record stand in a large one, to which a locator in front of the end
record leads; and those that do not fit into the directory stand in an extra field of the entry.

Entries are stored as they are or deflated.  The checksum of the unpacked bytes decides whether an
entry can be read.

Main definitions:

* `Upkeep.Pak.Entry`, `Upkeep.Pak.Archive` — archives;
* `Upkeep.Pak.EndRecord.ofBytes?`, `Upkeep.Pak.Locator.before?`, `Upkeep.Pak.LargeRecord.ofBytes?`,
  `Upkeep.Pak.entry?` — the records they are read from;
* `Upkeep.Pak.Directory` — where the entries are listed;
* `Upkeep.Pak.Archive.ofBytes?` — the archive that some bytes hold;
* `Upkeep.Pak.Opener.zip` — archives as opened paks.
-/

import Upkeep.Bytes.Crc32
import Upkeep.Bytes.Field
import Upkeep.Bytes.Inflate
import Upkeep.Files.Workspace
import Upkeep.Pak.Opened
import Upkeep.Text.CodePage

set_option relaxedAutoImplicit false
set_option autoImplicit false

namespace Upkeep

namespace Pak

open Bytes

/-! ### Records -/

/-- What an end record begins with. -/
def endMark : List UInt8 := [0x50, 0x4b, 5, 6]

/-- What an entry of the directory begins with. -/
def directoryMark : List UInt8 := [0x50, 0x4b, 1, 2]

/-- What the header of an entry begins with. -/
def headerMark : List UInt8 := [0x50, 0x4b, 3, 4]

/-- The record at the end of an archive. -/
structure EndRecord where
  place : Nat
  /-- The part of a divided archive that ends here, and the one with the directory. -/
  part : Nat
  directoryPart : Nat
  /-- The number of entries in this part and in all. -/
  entriesHere : Nat
  entries : Nat
  /-- Where the directory starts, counted from the start of the archive. -/
  directory : Nat
deriving DecidableEq, Repr

/-- The end record at a place; its comment has to end within the bytes. -/
def EndRecord.ofBytes? (b : ByteArray) (place : Nat) : Option EndRecord := do
  if !standsAt endMark b place then none
  let comment ← number? b (place + 20) 2
  let _ ← slice? b (place + 22) comment
  some ⟨place, ← number? b (place + 4) 2, ← number? b (place + 6) 2, ← number? b (place + 8) 2,
    ← number? b (place + 10) 2, ← number? b (place + 16) 4⟩

/-- Where the directory of an archive is, behind how many bytes the archive begins, and how many entries
are listed. -/
structure Directory where
  start : Nat
  shift : Nat
  count : Nat
deriving DecidableEq, Repr

/-- The directory of an end record, if the archive begins behind some bytes. -/
def EndRecord.behind (r : EndRecord) (shift : Nat) : Directory :=
  ⟨r.directory + shift, shift, r.entriesHere⟩

/-- The directory that an end record tells of. -/
def EndRecord.directory? (b : ByteArray) (r : EndRecord) : Option Directory := do
  if r.entries = 0 then some (r.behind (r.place - r.directory))
  else if r.place ≤ r.directory then none
  else
    let start ← firstPlace? directoryMark b (r.place - r.directory) r.directory
    some (r.behind (start - r.directory))

/-! ### Large archives -/

/-- What the locator of a large end record begins with. -/
def locatorMark : List UInt8 := [0x50, 0x4b, 6, 7]

/-- What a large end record begins with. -/
def largeMark : List UInt8 := [0x50, 0x4b, 6, 6]

/-- The largest number of some bytes; it stands for one that does not fit into them. -/
def full (width : Nat) : Nat := littleEndian (List.replicate width 0xff)

/-- Whether an end record leaves its numbers to a large one. -/
def EndRecord.defers (r : EndRecord) : Bool := r.entries == full 2 || r.directory == full 4

/-- The record that tells where the large end record is. -/
structure Locator where
  place : Nat
  directoryPart : Nat
  /-- Where the large end record starts, counted from the start of the archive. -/
  record : Nat
  parts : Nat
deriving DecidableEq, Repr

/-- The locator in front of an end record. -/
def Locator.before? (b : ByteArray) (r : EndRecord) : Option Locator := do
  if r.place < 20 then none
  let place := r.place - 20
  if !standsAt locatorMark b place then none
  some ⟨place, ← number? b (place + 4) 4, ← number? b (place + 8) 8, ← number? b (place + 16) 4⟩

/-- A large end record. -/
structure LargeRecord where
  place : Nat
  madeBy : Nat
  needed : Nat
  part : Nat
  directoryPart : Nat
  entriesHere : Nat
  entries : Nat
  directory : Nat
deriving DecidableEq, Repr

/-- The large end record at a place.  It has to reach up to its locator and agree with it, and the
directory has to fit in front of it. -/
def LargeRecord.ofBytes? (b : ByteArray) (l : Locator) (place : Nat) : Option LargeRecord := do
  if !standsAt largeMark b place then none
  let size ← number? b (place + 4) 8
  let r : LargeRecord := ⟨place, ← number? b (place + 12) 2, ← number? b (place + 14) 2,
    ← number? b (place + 16) 4, ← number? b (place + 20) 4, ← number? b (place + 24) 8,
    ← number? b (place + 32) 8, ← number? b (place + 48) 8⟩
  if size < 44 || place + size + 12 != l.place then none
  if r.directoryPart != l.directoryPart then none
  if place < r.entries * 46 + r.directory then none
  some r

/-- The first large end record in front of a locator, among the next places. -/
def LargeRecord.first? (b : ByteArray) (l : Locator) : (count place : Nat) → Option LargeRecord
  | 0, _ => none
  | count + 1, place =>
    match ofBytes? b l place with
    | some r => some r
    | none => first? b l count (place + 1)

/-- The directory that a locator leads to. -/
def Locator.directory? (b : ByteArray) (l : Locator) : Option Directory := do
  if l.place ≤ l.record || 1 < l.parts then none
  let r ← LargeRecord.first? b l (l.place - l.record) l.record
  if r.entries < r.entriesHere || r.madeBy < r.needed || r.part != r.directoryPart then none
  let shift := r.place - l.record
  some ⟨r.directory + shift, shift, r.entries⟩

/-- The directory of the archive that ends with the record at a place. -/
def directoryAt? (b : ByteArray) (place : Nat) : Option Directory := do
  let r ← EndRecord.ofBytes? b place
  match if r.defers then Locator.before? b r else none with
  | some l => l.directory? b
  | none => if r.part != r.directoryPart then none else r.directory? b

/-! ### Entries -/

/-- The numbers of an entry that can be large: its sizes, and where its header starts, counted from the
start of the archive. -/
structure Extent where
  size : Nat
  packedSize : Nat
  header : Nat
deriving DecidableEq, Repr

/-- The large number at the beginning of some bytes in place of one that does not fit, and the bytes
behind it. -/
def enlarge? (always : Bool) (n : Nat) (bytes : List UInt8) : Option (Nat × List UInt8) :=
  if always || n == full 4 then
    if bytes.length < 8 then none else some (littleEndian (bytes.take 8), bytes.drop 8)
  else some (n, bytes)

/-- The large numbers of an entry from the extra field for them, and the bytes behind these, if there are
enough; a number for which there are none stays as it is. -/
def Extent.enlarge (x : Extent) (always : Bool) (bytes : List UInt8) : Extent × Option (List UInt8) :=
  match enlarge? always x.size bytes with
  | none => (x, none)
  | some (size, bytes) =>
    let x := { x with size := size }
    match enlarge? always x.packedSize bytes with
    | none => (x, none)
    | some (packedSize, bytes) =>
      let x := { x with packedSize := packedSize }
      match enlarge? always x.header bytes with
      | none => (x, none)
      | some (header, bytes) => ({ x with header := header }, some bytes)

/-- The numbers of an entry, with the large ones from its extra fields.  The field of the large numbers
must not be shorter than these. -/
def Extent.ofExtra? (x : Extent) : (extra : List UInt8) → Option Extent
  | k₀ :: k₁ :: n₀ :: n₁ :: rest =>
    let size := littleEndian [n₀, n₁]
    if littleEndian [k₀, k₁] = 1 then
      match x.enlarge (24 ≤ size) rest with
      | (x, none) => some x
      | (x, some behind) =>
        if size < rest.length - behind.length then none else ofExtra? x (rest.drop size)
    else ofExtra? x (rest.drop size)
  | _ => some x
termination_by extra => extra.length
decreasing_by all_goals simp only [List.length_drop, List.length_cons]; omega

/-- An entry of an archive. -/
structure Entry where
  name : String
  encrypted : Bool
  /-- How the data are packed: 0 for not at all, 8 for deflated. -/
  method : Nat
  checksum : Nat
  /-- The number of bytes that it is said to unpack to. -/
  size : Nat
  /-- The place and the number of the packed bytes. -/
  data : Nat
  packedSize : Nat
deriving DecidableEq, Repr

/-- The text of a name, which is in UTF-8 if that is marked. -/
def nameText (utf8 : Bool) (bytes : List UInt8) : String :=
  if utf8 then Text.Utf8.decode bytes else Text.CodePage.decode bytes

/-- The entry whose place in the directory is given, and the next place.  The entry has to lie in
front of the directory. -/
def entry? (b : ByteArray) (d : Directory) (place : Nat) : Option (Entry × Nat) := do
  if !standsAt directoryMark b place then none
  let flags ← number? b (place + 8) 2
  let method ← number? b (place + 10) 2
  let checksum ← number? b (place + 16) 4
  let nameSize ← number? b (place + 28) 2
  let extraSize ← number? b (place + 30) 2
  let commentSize ← number? b (place + 32) 2
  let short : Extent := ⟨← number? b (place + 24) 4, ← number? b (place + 20) 4, ← number? b (place + 42) 4⟩
  let name ← slice? b (place + 46) nameSize
  let extra ← slice? b (place + 46 + nameSize) extraSize
  let x ← short.ofExtra? (Files.bytesOf extra)
  let next := place + 46 + nameSize + extraSize + commentSize
  if b.size < next then none
  let header := d.shift + x.header
  if d.start ≤ header then none
  if !standsAt headerMark b header then none
  let data := header + 30 + (← number? b (header + 26) 2) + (← number? b (header + 28) 2)
  if d.start < data then none
  some (⟨nameText (flags / 2048 % 2 == 1) (Files.bytesOf name), flags % 2 == 1, method, checksum,
    x.size, data, x.packedSize⟩, next)

/-- The entries of a directory, in order. -/
def entries? (b : ByteArray) (d : Directory) : (count place : Nat) → Option (List Entry)
  | 0, _ => some []
  | count + 1, place => do
    let (e, next) ← entry? b d place
    return e :: (← entries? b d count next)

/-! ### Archives -/

/-- An archive: its bytes and its entries.  No two entries have one name. -/
structure Archive where
  bytes : ByteArray
  entries : List Entry

/-- The entries with one more; it takes the place of an earlier one with its name. -/
def addEntry (es : List Entry) (e : Entry) : List Entry :=
  if es.any (·.name == e.name) then es.map fun f => if f.name == e.name then e else f
  else es ++ [e]

/-- The entries of the archive that ends with the record at a place. -/
def entriesAt? (b : ByteArray) (place : Nat) : Option (List Entry) := do
  let d ← directoryAt? b place
  return (← entries? b d d.count d.start).foldl addEntry []

/-- The entries of the last archive that ends with a record below a place. -/
def entriesBelow? (b : ByteArray) : (place : Nat) → Option (List Entry)
  | 0 => none
  | place + 1 =>
    match entriesAt? b place with
    | some es => some es
    | none => entriesBelow? b place

namespace Archive

/-- The archive that some bytes hold. -/
def ofBytes? (b : ByteArray) : Option Archive := (entriesBelow? b b.size).map fun es => ⟨b, es⟩

/-- The names of the entries, in order. -/
def names (a : Archive) : List String := a.entries.map (·.name)

/-- The unpacked bytes of an entry, if its data are well formed. -/
def unpack? (a : Archive) (e : Entry) : Option ByteArray :=
  let packed := a.bytes.extract e.data (e.data + e.packedSize)
  if e.method = 0 then some packed
  else
    let u := inflate packed
    if u.broken == some .corrupt then none else some u.bytes

/-- The bytes of an entry, if their checksum is right. -/
def content? (a : Archive) (e : Entry) : Option (List UInt8) := do
  let bytes ← a.unpack? e
  if (crc32 bytes).toNat = e.checksum then some (Files.bytesOf bytes) else none

/-- What stands under a name, unless it is encrypted or packed in another way. -/
def packed? (a : Archive) (name : String) : Option Packed := do
  let e ← a.entries.find? (·.name == name)
  if e.encrypted || (e.method != 0 && e.method != 8) then none
  else some ⟨UInt64.ofNat e.size, a.content? e⟩

/-- An archive as an opened pak. -/
def opened (a : Archive) : Opened := ⟨a.names, a.packed?⟩

end Archive

/-- Bytes are opened as an archive of this form. -/
def Opener.zip : Opener := fun b => (Archive.ofBytes? b).map Archive.opened

end Pak

end Upkeep
