import Pmb887x.Library.Checked

set_option autoImplicit false

/-! # The EEPROM parser (`unit/eeprom.c`)

`eepromFindBlockInMemory` searches a flash image for a partition of the wanted type and the
partition for a block. Two layouts exist: SG, with the header in front and 16-byte entries, and NSG,
with the header at the end, 32-byte entries and small blocks stored below their entry in the lower
halves of 32-byte units.

Every array access and every `uint32_t` expression is a checked operation. A pointer is the offset
in the image it points to; the null checks and the range check of the enumeration have no
counterpart, since the types exclude such arguments. -/

namespace Pmb887x.Eeprom

open Library

/-! ## Constants -/

def partitionBlockSize : Nat := 0x10000
def sgPartitionSize : Nat := partitionBlockSize * 2
def nsgPartitionSize : Nat := partitionBlockSize * 4
def sgHeaderSize : Nat := 16
def nsgHeaderSize : Nat := 32
def sgEitEntrySize : Nat := 16
def nsgEitEntrySize : Nat := 32
def nsgDataChunkSize : Nat := 0x10
def nsgEeliteInlineMax : Nat := 0x10
def nsgEefullInlineMax : Nat := 0x200
def entryStateMask : Nat := 0xAAAAAAAA
def entryFree : Nat := 0xAAAAAAAA
def entryWriting : Nat := 0xAAAAAAA8
def entryValid : Nat := 0xAAAAAA80
def entryObsolete : Nat := 0xAAAAAA00
def partitionMarker : Nat := 0xFFFFFFF0
def eefullBlockIdBase : Nat := 5000
def eefullExtendedVersionFlag : UInt8 := 0x80
def eefullMetadataSize : Nat := 1
def eefullExtendedMetadataSize : Nat := 6
def blockInlineCapacity : Nat := 0x200
def uint32Max : Nat := 0xFFFFFFFF

inductive Layout where
  | sg
  | nsg
  deriving DecidableEq

inductive PartitionType where
  | eelite
  | eefull
  deriving DecidableEq

inductive Result where
  | ok
  | flashNotMapped
  | partitionNotFound
  | blockNotFound
  | invalid
  deriving DecidableEq

/-- `struct flash_map` -/
structure FlashMap where
  data : Nat → UInt8
  size : Nat

/-- `struct eeprom_partition`; `base` is where `data` points to. -/
structure Partition where
  base : Nat
  size : Nat
  layout : Layout

/-- Where `block->data` points to: into the image, or to the block's own buffer. -/
inductive BlockData where
  | flash (offset : Nat)
  | inlineData
  deriving DecidableEq

/-- `struct eeprom_block` -/
structure Block where
  data : BlockData
  size : Nat
  version : Nat
  inlineData : Nat → UInt8

/-- `EEPROM_PARTITION_NAMES` -/
def partitionName : PartitionType → List UInt8
  | .eelite => [0x45, 0x45, 0x4C, 0x49, 0x54, 0x45, 0, 0]
  | .eefull => [0x45, 0x45, 0x46, 0x55, 0x4C, 0x4C, 0, 0]

/-! ## Reading the image -/

/-- One byte of the image. -/
def FlashMap.byte (flash : FlashMap) (offset : Nat) : Checked UInt8 :=
  if offset < flash.size then .ok (flash.data offset) else .error (.read offset)

def readU16 (flash : FlashMap) (offset : Nat) : Checked Nat := do
  let b₀ ← flash.byte offset
  let b₁ ← flash.byte (offset + 1)
  pure (ofLeBytes [b₀, b₁])

def readU32 (flash : FlashMap) (offset : Nat) : Checked Nat := do
  let b₀ ← flash.byte offset
  let b₁ ← flash.byte (offset + 1)
  let b₂ ← flash.byte (offset + 2)
  let b₃ ← flash.byte (offset + 3)
  pure (ofLeBytes [b₀, b₁, b₂, b₃])

def isEntryStateValid (state : Nat) : Bool :=
  state = entryFree || state = entryWriting || state = entryValid || state = entryObsolete

def alignNsgDataOffset (offset : Nat) : Checked Nat :=
  if offset &&& nsgDataChunkSize = 0 then pure offset
  else do
    let next ← Checked.add offset (nsgDataChunkSize * 2)
    Checked.sub next (offset &&& (nsgDataChunkSize * 2 - 1))

def nsgDataByteOffset (offset index : Nat) : Checked Nat := do
  let chunkOffset := offset &&& (nsgDataChunkSize - 1)
  let position ← Checked.add chunkOffset index
  let skipped ← Checked.mul (position / nsgDataChunkSize) nsgDataChunkSize
  let place ← Checked.add offset index
  Checked.add place skipped

/-! ## Partition headers -/

/-- The name loop of `partition_header_matches`, at index `i`. -/
def nameMatches (flash : FlashMap) (header i : Nat) : List UInt8 → Checked Bool
  | [] => pure true
  | c :: rest => do
      let b ← flash.byte (header + i)
      if b ≠ c then pure false else nameMatches flash header (i + 1) rest

/-- `for (; i < size; i++) if (header[i] != 0xFF)` -/
def erasedFrom (flash : FlashMap) (header size i : Nat) : Checked Bool :=
  if i < size then do
    let b ← flash.byte (header + i)
    if b ≠ 0xFF then pure false else erasedFrom flash header size (i + 1)
  else pure true
termination_by size - i

def partitionHeaderMatches (flash : FlashMap) (header size : Nat) (name : List UInt8) :
    Checked Bool := do
  let named ← nameMatches flash header 0 name
  if !named then pure false
  else
    let flags ← readU16 flash (header + 10)
    if flags ≠ 0 then pure false
    else
      let marker ← readU32 flash (header + 12)
      if marker ≠ partitionMarker then pure false
      else erasedFrom flash header size sgHeaderSize

/-! ## Decoding a block -/

/-- The metadata bytes of an EEFULL block, given its version byte. -/
def metadataSize (version : UInt8) : Nat :=
  if version &&& eefullExtendedVersionFlag ≠ 0 ∧ version ≠ 0xFF then eefullExtendedMetadataSize
  else eefullMetadataSize

def decodeSgBlock (flash : FlashMap) (partition : Partition) (type : PartitionType) (entry : Nat)
    (block : Block) : Checked (Result × Block) := do
  let storedSize ← readU32 flash (entry + 8)
  let offset ← readU32 flash (entry + 12)
  if storedSize = 0 then pure (.invalid, block)
  else if offset ≥ partition.size then pure (.invalid, block)
  else do
    let room ← Checked.sub partition.size offset
    if storedSize > room then pure (.invalid, block)
    else match type with
      | .eefull => do
          let version ← flash.byte (partition.base + offset)
          if storedSize < metadataSize version then pure (.invalid, block)
          else do
            let size ← Checked.sub storedSize (metadataSize version)
            pure (.ok, { block with
              data := .flash (partition.base + offset + 1), size, version := version.toNat })
      | .eelite => do
          let size ← Checked.sub storedSize 1
          let last ← Checked.add offset size
          let version ← flash.byte (partition.base + last)
          pure (.ok, { block with
            data := .flash (partition.base + offset), size, version := version.toNat })

/-- `block->inline_data[i] = value` -/
def Block.setInline (block : Block) (i : Nat) (value : UInt8) : Checked Block :=
  if i < blockInlineCapacity then
    .ok { block with inlineData := Function.update block.inlineData i value }
  else .error (.write i)

/-- The loop of `copy_nsg_inline_block`. -/
def copyInlineBytes (flash : FlashMap) (partition : Partition)
    (storedOffset sourceOffset size i : Nat) (block : Block) : Checked (Result × Block) :=
  if i < size then do
    let index ← Checked.add sourceOffset i
    let offset ← nsgDataByteOffset storedOffset index
    if offset ≥ partition.size then pure (.invalid, block)
    else do
      let value ← flash.byte (partition.base + offset)
      let block ← block.setInline i value
      copyInlineBytes flash partition storedOffset sourceOffset size (i + 1) block
  else pure (.ok, { block with data := .inlineData })
termination_by size - i

def copyNsgInlineBlock (flash : FlashMap) (partition : Partition)
    (storedOffset sourceOffset size : Nat) (block : Block) : Checked (Result × Block) :=
  if size > blockInlineCapacity then pure (.invalid, block)
  else copyInlineBytes flash partition storedOffset sourceOffset size 0 block

/-- The largest block that `decode_nsg_block` takes for an inline one. -/
def inlineLimit : PartitionType → Nat
  | .eefull => nsgEefullInlineMax
  | .eelite => nsgEeliteInlineMax

/-- Where `decode_nsg_block` finds the data of an entry; `none` stands for `INVALID`. -/
def nsgStoredOffset (flash : FlashMap) (partition : Partition) (type : PartitionType)
    (entryOffset entry storedSize : Nat) : Checked (Option Nat) :=
  if storedSize ≤ inlineLimit type then do
    let head ← Checked.add nsgDataChunkSize storedSize
    let reservedSize ← Checked.add head (storedSize &&& (uint32Max - (nsgDataChunkSize - 1)))
    if entryOffset < reservedSize then pure none
    else do
      let start ← Checked.sub entryOffset reservedSize
      let storedOffset ← alignNsgDataOffset start
      pure (some storedOffset)
  else do
    let storedOffset ← readU32 flash (entry + 12)
    if storedOffset ≥ partition.size then pure none
    else do
      let room ← Checked.sub partition.size storedOffset
      if storedSize > room then pure none else pure (some storedOffset)

/-- Where the version byte of an EEFULL block is. -/
def nsgVersionOffset (isInline : Bool) (storedOffset : Nat) : Checked Nat :=
  if isInline then nsgDataByteOffset storedOffset 0 else pure storedOffset

/-- The size field of an NSG entry. -/
def nsgStoredSize (flash : FlashMap) (type : PartitionType) (entry : Nat) : Checked Nat :=
  match type with
  | .eefull => readU32 flash (entry + 8)
  | .eelite => readU16 flash (entry + 8)

def decodeNsgBlock (flash : FlashMap) (partition : Partition) (type : PartitionType)
    (entryOffset entry : Nat) (block : Block) : Checked (Result × Block) := do
  let storedSize ← nsgStoredSize flash type entry
  if storedSize = 0 then pure (.invalid, block)
  else do
    let isInline := decide (storedSize ≤ inlineLimit type)
    let found ← nsgStoredOffset flash partition type entryOffset entry storedSize
    match found with
    | none => pure (.invalid, block)
    | some storedOffset =>
        match type with
        | .eefull => do
            let versionOffset ← nsgVersionOffset isInline storedOffset
            if versionOffset ≥ partition.size then pure (.invalid, block)
            else do
              let version ← flash.byte (partition.base + versionOffset)
              if storedSize < metadataSize version then pure (.invalid, block)
              else do
                let size ← Checked.sub storedSize (metadataSize version)
                let block := { block with size, version := version.toNat }
                if isInline then copyNsgInlineBlock flash partition storedOffset 1 size block
                else pure (.ok, { block with data := .flash (partition.base + storedOffset + 1) })
        | .eelite => do
            let version ← flash.byte (entry + 7)
            let block := { block with size := storedSize, version := version.toNat }
            if isInline then copyNsgInlineBlock flash partition storedOffset 0 storedSize block
            else pure (.ok, { block with data := .flash (partition.base + storedOffset) })

/-! ## Searching a partition -/

/-- What `find_partition_block` sees in an entry. -/
inductive EntryClass where
  /-- the state is none of the four, or the id of a valid entry is out of range -/
  | malformed
  | free
  /-- being written, or obsolete -/
  | inactive
  /-- a valid entry of this block -/
  | block (id : Nat)
  deriving DecidableEq

/-- The largest id an entry may hold. -/
def maximumId : PartitionType → Nat
  | .eelite => eefullBlockIdBase - 1
  | .eefull => uint32Max - eefullBlockIdBase

/-- The id field of an entry: two bytes in an NSG EELITE partition, else four. -/
def readEntryBlockId (flash : FlashMap) (layout : Layout) (type : PartitionType) (entry : Nat) :
    Checked Nat :=
  let shortBlockId := decide (layout = .nsg ∧ type = .eelite)
  if shortBlockId then readU16 flash (entry + 4) else readU32 flash (entry + 4)

def classifyEntry (flash : FlashMap) (layout : Layout) (type : PartitionType) (entry : Nat) :
    Checked EntryClass := do
  let word ← readU32 flash entry
  let state := word &&& entryStateMask
  if !isEntryStateValid state then pure .malformed
  else if state = entryFree then pure .free
  else if state ≠ entryValid then pure .inactive
  else do
    let entryBlockId ← readEntryBlockId flash layout type entry
    if entryBlockId > maximumId type then pure .malformed
    else match type with
      | .eefull => do
          let id ← Checked.add entryBlockId eefullBlockIdBase
          pure (.block id)
      | .eelite => pure (.block entryBlockId)

/-- The decoder for the partition's layout. -/
def decodeBlock (flash : FlashMap) (partition : Partition) (type : PartitionType)
    (offset entry : Nat) (block : Block) : Checked (Result × Block) :=
  match partition.layout with
  | .nsg => decodeNsgBlock flash partition type offset entry block
  | .sg => decodeSgBlock flash partition type entry block

/-- How one pass of a search loop ends: with the next pass, or with the function's result. -/
inductive Pass where
  | next (matched : Bool) (block : Block)
  | stop (result : Result) (matched : Bool) (block : Block)

/-- The end of a search. -/
def searchResult (matched : Bool) : Result := if matched then .ok else .blockNotFound

/-- One pass of the loop of `find_partition_block`. -/
def findPartitionPass (flash : FlashMap) (partition : Partition) (type : PartitionType)
    (blockId offset : Nat) (matched : Bool) (block : Block) : Checked Pass := do
  let entry := partition.base + offset
  let seen ← classifyEntry flash partition.layout type entry
  match seen, partition.layout with
  | .malformed, .sg => pure (.stop .invalid matched block)
  | .malformed, .nsg => pure (.next matched block)
  | .free, .sg => pure (.stop (searchResult matched) matched block)
  | .free, .nsg => pure (.next matched block)
  | .inactive, _ => pure (.next matched block)
  | .block id, layout =>
      if id ≠ blockId then pure (.next matched block)
      else do
        let (result, block) ← decodeBlock flash partition type offset entry block
        if result ≠ .ok then pure (.stop result true block)
        else match layout with
          | .sg => pure (.stop .ok true block)
          | .nsg => pure (.next true block)

def eitEntrySize : Layout → Nat
  | .nsg => nsgEitEntrySize
  | .sg => sgEitEntrySize

/-- The offset of entry `number`. -/
def entryOffset (partition : Partition) (number : Nat) : Checked Nat := do
  let entrySize := eitEntrySize partition.layout
  let back ← Checked.mul entrySize number
  let offset ← Checked.sub partition.size back
  match partition.layout with
  | .nsg => Checked.sub offset entrySize
  | .sg => pure offset

def findPartitionLoop (flash : FlashMap) (partition : Partition) (type : PartitionType)
    (blockId entryCount number : Nat) (matched : Bool) (block : Block) :
    Checked (Result × Bool × Block) :=
  if number ≤ entryCount then do
    let offset ← entryOffset partition number
    let pass ← findPartitionPass flash partition type blockId offset matched block
    match pass with
    | .next matched block =>
        findPartitionLoop flash partition type blockId entryCount (number + 1) matched block
    | .stop result matched block => pure (result, matched, block)
  else pure (searchResult matched, matched, block)
termination_by entryCount + 1 - number

/-- `find_partition_block`: the result, `*matched` and the block. -/
def findPartitionBlock (flash : FlashMap) (partition : Partition) (type : PartitionType)
    (blockId : Nat) (block : Block) : Checked (Result × Bool × Block) := do
  let entryCount ← Checked.sub (partition.size / eitEntrySize partition.layout) 1
  findPartitionLoop flash partition type blockId entryCount 1 false block

/-! ## Searching the image -/

/-- `flash->size >= EEPROM_SG_PARTITION_SIZE && offset <= flash->size - EEPROM_SG_PARTITION_SIZE`
    and a header at `offset` -/
def sgPartitionMatches (flash : FlashMap) (type : PartitionType) (offset : Nat) : Checked Bool :=
  if flash.size ≥ sgPartitionSize then do
    let last ← Checked.sub flash.size sgPartitionSize
    if offset ≤ last then partitionHeaderMatches flash offset sgHeaderSize (partitionName type)
    else pure false
  else pure false

/-- The block at `offset` can be the last of an NSG partition and ends with a header. -/
def nsgPartitionMatches (flash : FlashMap) (type : PartitionType) (offset : Nat) :
    Checked Bool :=
  let header := offset + partitionBlockSize - nsgHeaderSize
  if offset ≥ partitionBlockSize * 3 then
    partitionHeaderMatches flash header nsgHeaderSize (partitionName type)
  else pure false

/-- The partition that starts (SG) or ends (NSG) in the 64 KiB block at `offset`, if any. -/
def partitionAt (flash : FlashMap) (type : PartitionType) (offset : Nat) :
    Checked (Option Partition) := do
  let sg ← sgPartitionMatches flash type offset
  if sg then pure (some { base := offset, size := sgPartitionSize, layout := .sg })
  else do
    let nsg ← nsgPartitionMatches flash type offset
    if nsg then
      pure (some
        { base := offset - partitionBlockSize * 3, size := nsgPartitionSize, layout := .nsg })
    else pure none

/-- The loop of `find_flash_block`: the result, `*partition_found`, `*matched` and the block. -/
def findFlashLoop (flash : FlashMap) (type : PartitionType) (blockId blockCount blockIndex : Nat)
    (partitionFound matched : Bool) (block : Block) : Checked (Result × Bool × Bool × Block) :=
  if blockIndex < blockCount then do
    let offset ← Checked.mul blockIndex partitionBlockSize
    let found ← partitionAt flash type offset
    match found with
    | none =>
        findFlashLoop flash type blockId blockCount (blockIndex + 1) partitionFound matched block
    | some partition => do
        let (result, matched, block) ← findPartitionBlock flash partition type blockId block
        if result = .invalid then pure (result, true, matched, block)
        else if matched then pure (.ok, true, matched, block)
        else findFlashLoop flash type blockId blockCount (blockIndex + 1) true matched block
  else pure (.blockNotFound, partitionFound, matched, block)
termination_by blockCount - blockIndex

def findFlashBlock (flash : FlashMap) (type : PartitionType) (blockId : Nat) (block : Block) :
    Checked (Result × Bool × Bool × Block) :=
  findFlashLoop flash type blockId (flash.size / partitionBlockSize) 0 false false block

def eepromFindBlockInMemory (flash : FlashMap) (type : PartitionType) (blockId : Nat)
    (block : Block) : Checked (Result × Block) := do
  let (result, partitionFound, matched, block) ← findFlashBlock flash type blockId block
  if result = .invalid ∨ matched then pure (result, block)
  else pure (if partitionFound then .blockNotFound else .partitionNotFound, block)

end Pmb887x.Eeprom
