import Pmb887x.Eeprom.Decode
import Pmb887x.Library.FirstSeen
import Mathlib.Data.List.DropRight

set_option autoImplicit false

/-! # The host tool's EEPROM reader (`tools/fw/eeprom.pl`)

`getPartitions` lists the partitions of an image, `parseEeprom` the blocks in the partitions of one
type. Both read the file through a `Sie::BinaryReader`, which dies on a seek or a read that leaves
the file, and with it the whole run: `none`. Where the script seeks and then reads field after
field, the offsets are written out. Numbers are Perl integers, which do not wrap here, and may be
negative. -/

namespace Pmb887x.Eeprom.Tool

open Library

/-- `$BLOCK_SIZE` -/
def blockSize : Nat := 0x10000

/-! ## `Sie::BinaryReader` -/

/-- `seek` to `offset` and `readBytes(size)`. -/
def readAt (flash : FlashMap) (offset size : Int) : Option (List UInt8) :=
  if 0 ≤ offset ∧ 0 ≤ size ∧ offset + size ≤ flash.size then
    some ((List.range size.toNat).map fun i => flash.data (offset.toNat + i))
  else none

def readUInt8 (flash : FlashMap) (offset : Int) : Option Nat := (readAt flash offset 1).map ofLeBytes
def readUInt16 (flash : FlashMap) (offset : Int) : Option Nat := (readAt flash offset 2).map ofLeBytes
def readUInt32 (flash : FlashMap) (offset : Int) : Option Nat := (readAt flash offset 4).map ofLeBytes

/-! ## `getPartitions` -/

/-- An element of `$parts`. -/
structure Part where
  name : List UInt8
  start : Int
  size : Nat
  unk : Nat
  deriving DecidableEq

/-- `/^(.{8})(.{2})\x00\x00\xF0[\xFF]{n}$/` on a header of `13 + n` bytes: `.` matches every byte but
a newline. -/
def headerMatches (n : Nat) (header : List UInt8) : Bool :=
  (header.take 10).all (· ≠ 10) && header.drop 10 == [0, 0, 0xF0] ++ List.replicate n 0xFF

/-- `$1` without the zero bytes at its end. -/
def headerName (header : List UInt8) : List UInt8 := (header.take 8).rdropWhile (· = 0)

/-- A header read in one pass of the loop; `wanted` is the condition it is read under. -/
def readHeader (flash : FlashMap) (wanted : Bool) (offset size : Int) :
    Option (Option (List UInt8)) :=
  if wanted then (readAt flash offset size).map some else some none

/-- The partition that one pass finds, given the headers it has read at `$i`. -/
def foundPart (i : Nat) (up down : Option (List UInt8)) : Option (Layout × Part) :=
  match up.filter (headerMatches 3) with
  | some header => some (.sg, {
      name := headerName header, start := i, size := blockSize * 2,
      unk := ofLeBytes ((header.drop 8).take 2) })
  | none => (down.filter (headerMatches 19)).map fun header => (.nsg, {
      name := headerName header, start := (i : Int) - (blockSize * 3 : Nat), size := blockSize * 4,
      unk := ofLeBytes ((header.drop 8).take 2) })

/-- One pass of the loop, for `$i = blockSize * k`. `$is_nsg` is a layout, or `none` for `-1`. -/
def partitionsStep (flash : FlashMap) (st : Option Layout × List Part) (k : Nat) :
    Option (Option Layout × List Part) := do
  let i := blockSize * k
  let up ← readHeader flash (st.1 ≠ some .nsg) i 16
  let down ← readHeader flash (st.1 ≠ some .sg) (i + (blockSize - 32 : Nat)) 32
  match foundPart i up down with
  | some (layout, blk) => some (some layout, st.2 ++ [blk])
  | none => some st

/-- `getPartitions`: `$is_nsg` and the partitions of all names, in the order of the image. -/
def getPartitions (flash : FlashMap) : Option (Option Layout × List Part) :=
  (List.range ((flash.size + blockSize - 1) / blockSize)).foldlM (partitionsStep flash) (none, [])

/-! ## `parseEeprom` -/

/-- The name of a partition type in the script. -/
def typeName : PartitionType → List UInt8
  | .eelite => [0x45, 0x45, 0x4C, 0x49, 0x54, 0x45]
  | .eefull => [0x45, 0x45, 0x46, 0x55, 0x4C, 0x4C]

/-- `$parts->{$type}` -/
def partsOf (type : PartitionType) (parts : List Part) : List Part :=
  parts.filter (·.name = typeName type)

/-- `$is_nsg` as a condition: `-1` is true. -/
def isNsg (layout : Option Layout) : Bool := layout ≠ some .sg

/-- `$entry_size` -/
def entrySize (nsg : Bool) : Nat := if nsg then 32 else 16

/-- The fields of a table entry. -/
structure Entry where
  eit : Int
  flags : Nat
  blockId : Nat
  ver : Option Nat
  size : Int
  offset : Nat

/-- An element of `@items`. -/
structure Item where
  flags : Nat
  type : PartitionType
  id : Nat
  ver : Nat
  size : Int
  eit : Int
  offset : Int
  value : List UInt8

/-- `$eit` of entry `i`. -/
def eitOffset (nsg : Bool) (blk : Part) (i : Nat) : Int :=
  if nsg then blk.start + blk.size - entrySize nsg - (entrySize nsg * i : Nat)
  else blk.start + blk.size - (entrySize nsg * i : Nat)

/-- The table entry at `eit`, for the three forms an entry has. -/
def readEntry (flash : FlashMap) (type : PartitionType) (nsg : Bool) (eit : Int) : Option Entry :=
  if nsg = true ∧ type = .eelite then do
    let flags ← readUInt32 flash eit
    let blockId ← readUInt16 flash (eit + 4)
    let _ ← readUInt8 flash (eit + 6)
    let ver ← readUInt8 flash (eit + 7)
    let size ← readUInt16 flash (eit + 8)
    let _ ← readUInt16 flash (eit + 10)
    let offset ← readUInt32 flash (eit + 12)
    some { eit, flags, blockId, ver := some ver, size, offset }
  else do
    let flags ← readUInt32 flash eit
    let blockId ← readUInt32 flash (eit + 4)
    let size ← readUInt32 flash (eit + 8)
    let offset ← readUInt32 flash (eit + 12)
    some { eit, flags, blockId, ver := none, size := (size : Int) - 1, offset }

/-- The id an entry is listed under; `none` where the loop goes on to the next entry. -/
def entryId (type : PartitionType) (entry : Entry) : Option Nat :=
  if entry.flags = 0xFFFFFFFF then none
  else if entry.blockId = 0xFFFFFFFF then none
  else
    let blockId := if type = .eefull then entry.blockId + 5000 else entry.blockId
    if entry.flags ≠ 0xFFFFFFC0 then none else some blockId

/-- `$value_offset` and `$ver`. -/
def readVersion (flash : FlashMap) (type : PartitionType) (nsg : Bool) (blk : Part)
    (entry : Entry) : Option (Int × Nat) :=
  if type = .eefull then do
    let valueOffset := blk.start + entry.offset + 1
    let ver ← readUInt8 flash (valueOffset - 1)
    some (valueOffset, ver)
  else
    let valueOffset := blk.start + entry.offset
    let ver := if nsg then entry.ver else readUInt8 flash (valueOffset + entry.size)
    ver.map fun ver => (valueOffset, ver)

/-- The item of an entry that is listed under `blockId`. -/
def readItem (flash : FlashMap) (type : PartitionType) (nsg : Bool) (blk : Part) (entry : Entry)
    (blockId : Nat) : Option Item := do
  let (valueOffset, ver) ← readVersion flash type nsg blk entry
  let value ← readAt flash valueOffset entry.size
  some {
    flags := entry.flags, type, id := blockId, ver, size := entry.size, eit := entry.eit,
    offset := valueOffset, value }

/-- One pass of the inner loop; the state is `%seen` and `@items`. -/
def parseEntry (flash : FlashMap) (type : PartitionType) (nsg : Bool)
    (st : List Nat × List Item) (place : Part × Nat) : Option (List Nat × List Item) := do
  let entry ← readEntry flash type nsg (eitOffset nsg place.1 place.2)
  match entryId type entry with
  | none => some st
  | some blockId =>
      if blockId ∈ st.1 then some st
      else do
        let item ← readItem flash type nsg place.1 entry blockId
        some (blockId :: st.1, st.2 ++ [item])

/-- The entries of the two loops, `$total_items` of each partition. -/
def places (nsg : Bool) (blocks : List Part) : List (Part × Nat) :=
  blocks.flatMap fun blk => (List.range' 1 (blk.size / entrySize nsg - 1)).map fun i => (blk, i)

/-- `parseEeprom` -/
def parseEeprom (flash : FlashMap) (type : PartitionType) (blocks : List Part) (nsg : Bool) :
    Option (List Item) :=
  ((places nsg blocks).foldlM (parseEntry flash type nsg) ([], [])).map Prod.snd

/-- What the script lists for one type. -/
def listItems (flash : FlashMap) (type : PartitionType) : Option (List Item) :=
  (getPartitions flash).bind fun found =>
    parseEeprom flash type (partsOf type found.2) (isNsg found.1)

end Pmb887x.Eeprom.Tool
