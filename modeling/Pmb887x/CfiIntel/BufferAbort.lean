import Pmb887x.CfiIntel.Cfi

set_option autoImplicit false

/-! # A block to abort a buffered program in (`unit/cfi-intel/buffer-abort.c`)

The test needs two blocks of one size whose addresses differ in one bit. It walks through the blocks of the
table and looks for the second block of each with `find_block`. -/

namespace Pmb887x.CfiIntel

open Library

/-- `flash_block_t` -/
@[ext] structure Block where
  base : Nat
  size : Nat
  deriving DecidableEq

/-- The rest of the loop of `find_block`. -/
def findBlockFrom (flash : FlashDevice) (address : Nat) : (regionBase : Nat) → List EraseRegion → Option Block
  | _, [] => none
  | regionBase, region :: regions =>
      let blockSize := region.blockSize
      let regionSize := wrap32 (region.blocks * blockSize)
      if blockSize = 0 ∨ regionSize / blockSize ≠ region.blocks then none
      else if sub32 address flash.base < wrap32 (sub32 regionBase flash.base + regionSize) then
        some {
          base := wrap32 (regionBase + sub32 address regionBase / blockSize * blockSize)
          size := blockSize
        }
      else findBlockFrom flash address (wrap32 (regionBase + regionSize)) regions

def findBlock (flash : FlashDevice) (address : Nat) : Option Block :=
  if address < flash.base ∨ flash.size ≤ sub32 address flash.base then none
  else findBlockFrom flash address flash.base (flash.erase.take flash.regions)

def selectSetupOffset (flash : FlashDevice) (block : Block) : Nat :=
  block.size / 2 &&& 2 ^ 32 - 1 - (flash.writeBufferSize - 1)

/-- `block->base + setup_offset` -/
def setupAddress (flash : FlashDevice) (block : Block) : Nat :=
  wrap32 (block.base + selectSetupOffset flash block)

/-- `setup_address ^ block->size` -/
def abortAddress (flash : FlashDevice) (block : Block) : Nat := setupAddress flash block ^^^ block.size

def cfiReadLockStatus (chip : Chip) (address : Nat) : Nat := cfiReadWord chip.id address 2

/-- The addition of the machine. -/
def wrappingAdd (a b : Nat) : Id Nat := wrap32 (a + b)

/-- `*neighbor` where `block_is_usable` returns true. -/
def blockIsUsable (chip : Chip) (flash : FlashDevice) (block : Block) : Option Block :=
  if block.size < flash.writeBufferSize ∨ block.size &&& block.size - 1 ≠ 0 then none
  else if wrap32 (selectSetupOffset flash block + flash.writeBufferSize) > block.size then none
  else if setupAddress flash block &&& flash.writeBufferSize - 1 ≠ 0 then none
  else
    match findBlock flash (abortAddress flash block) with
    | none => none
    | some neighbor =>
        if neighbor.base = block.base ∨ neighbor.size ≠ block.size ∨
            sub32 (abortAddress flash block) neighbor.base ≠ selectSetupOffset flash block then none
        else if (cfiReadLockStatus chip block.base).testBit 1 then none
        else if (cfiRangeIsBlank wrappingAdd chip.array block.base block.size).run then some neighbor
        else none

/-- `current` in each pass of the two loops over the regions and their blocks. -/
def currentBlocks : (address : Nat) → (sizes : List Nat) → List Block
  | _, [] => []
  | address, blockSize :: sizes => ⟨address, blockSize⟩ :: currentBlocks (wrap32 (address + blockSize)) sizes

/-- What the loop over the chips asks of a probed device. -/
def suitable (candidate : FlashDevice) : Bool :=
  20 ≤ candidate.sizeExponent && candidate.sizeExponent ≤ 27 && 8 ≤ candidate.writeBufferSize &&
    (candidate.writeBufferSize &&& candidate.writeBufferSize - 1) = 0

/-- What `find_blank_test_block` returns; `flash->cs` names the chip. -/
structure TestBlocks where
  chip : Chip
  flash : FlashDevice
  block : Block
  neighbor : Block

/-- One pass of the loop over the chips. -/
def findTestBlocksOn (chip : Chip) : Option TestBlocks :=
  match cfiProbe chip .zero with
  | none => none
  | some candidate =>
      if !suitable candidate then none
      else
        (currentBlocks candidate.base candidate.blockSizes).findSome? fun current =>
          (blockIsUsable chip candidate current).map fun neighbor => ⟨chip, candidate, current, neighbor⟩

/-- `chips` are those that the chip selects of `cfi_chip_selects` map. -/
def findBlankTestBlock (chips : List Chip) : Option TestBlocks := chips.findSome? findTestBlocksOn

end Pmb887x.CfiIntel
