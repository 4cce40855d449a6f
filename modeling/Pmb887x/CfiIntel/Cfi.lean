import Mathlib.Tactic.Ring
import Pmb887x.Library.Bytes

set_option autoImplicit false

/-! # What a flash chip says about itself (`unit/cfi-intel/cfi.c`)

The geometry of a chip is read from its query table. All numbers are `uint32_t`; the sums that can leave
this range with the words of a query table are reduced. -/

namespace Pmb887x.CfiIntel

open Library

/-- `FLASH_WINDOW_BASE` -/
def windowBase : Nat := 0xA0000000

/-- `FLASH_WINDOW_END` -/
def windowEnd : Nat := 0xA8000000

/-- `CFI_MAX_ERASE_REGIONS` -/
def maxEraseRegions : Nat := 4

/-- `MAP_SAMPLE_WORDS * sizeof(uint16_t)` -/
def mapSampleSize : Nat := 8

/-- What can be read at an address while a chip is mapped, in each of the modes that commands switch it to. -/
structure Chip where
  query : Nat → UInt16
  id : Nat → UInt16
  array : Nat → UInt32

/-- `struct erase_region` -/
structure EraseRegion where
  blocks : Nat
  blockSize : Nat
  deriving DecidableEq

/-- The part of `struct flash_device` that describes the chip. `erase` are the entries that are filled. -/
structure FlashDevice where
  base : Nat
  manufacturer : Nat
  device : Nat
  primaryAddress : Nat
  sizeExponent : Nat
  size : Nat
  regions : Nat
  writeBufferSize : Nat
  features : Nat
  efaBlocks : Nat
  efaBlockSize : Nat
  erase : List EraseRegion

/-- `struct flash_device flash = {0}` -/
def FlashDevice.zero : FlashDevice := ⟨0, 0, 0, 0, 0, 0, 0, 0, 0, 0, 0, []⟩

/-! ## Reading the query table -/

def cfiReadWord (mmio16 : Nat → UInt16) (base offset : Nat) : Nat :=
  (mmio16 (wrap32 (base + offset * 2))).toNat

def cfiReadU16 (mmio16 : Nat → UInt16) (base offset : Nat) : Nat :=
  cfiReadWord mmio16 base offset ||| cfiReadWord mmio16 base (offset + 1) <<< 8

def cfiReadU32 (mmio16 : Nat → UInt16) (base offset : Nat) : Nat :=
  cfiReadU16 mmio16 base offset ||| wrap32 (cfiReadU16 mmio16 base (offset + 2) <<< 16)

/-- `exponent < 32 ? 1u << exponent : 0` -/
def shiftOne (exponent : Nat) : Nat := if exponent < 32 then 2 ^ exponent else 0

/-- `flash->erase[region]` from the table. -/
def cfiReadEraseRegion (chip : Chip) (base region : Nat) : EraseRegion :=
  let offset := 0x2D + region * 4
  { blocks := cfiReadU16 chip.query base offset + 1
    blockSize := cfiReadU16 chip.query base (offset + 2) * 256 }

def cfiReadGeometry (chip : Chip) (flash : FlashDevice) : FlashDevice :=
  let sizeExponent := cfiReadWord chip.query flash.base 0x27
  let regions := cfiReadWord chip.query flash.base 0x2C
  { flash with
    primaryAddress := cfiReadU16 chip.query flash.base 0x15
    sizeExponent := sizeExponent
    size := shiftOne sizeExponent
    writeBufferSize := shiftOne (cfiReadU16 chip.query flash.base 0x2A)
    regions := regions
    erase := (List.range (min regions maxEraseRegions)).map (cfiReadEraseRegion chip flash.base) }

/-! ## The primary table -/

/-- One pass of the loop of `cfi_skip_pri_regions`. -/
def skipPriRegion (mmio16 : Nat → UInt16) (base : Nat) (st : Bool) (cursor : Nat) : Nat :=
  let cursor := wrap32 (cursor + if st then 2 else 0)
  let cursor := wrap32 (cursor + 5)
  let eraseRegions := cfiReadWord mmio16 base cursor
  let cursor := wrap32 (cursor + 1)
  wrap32 (cursor + eraseRegions * if st then 14 else 8)

def cfiSkipPriRegions (mmio16 : Nat → UInt16) (base : Nat) (st : Bool) (cursor : Nat) : Nat :=
  let regions := cfiReadWord mmio16 base cursor
  let cursor := wrap32 (cursor + 1)
  (skipPriRegion mmio16 base st)^[regions] cursor

/-- The cursor behind the protection registers, where the features have them. -/
def skipProtectionFields (mmio16 : Nat → UInt16) (base features cursor : Nat) : Nat :=
  if features.testBit 6 then
    let fields := cfiReadWord mmio16 base cursor
    let cursor := wrap32 (cursor + 1)
    wrap32 (cursor + if fields ≠ 0 then 4 + (fields - 1) * 10 else 0)
  else cursor

/-- The cursor behind the synchronous modes, from the byte for the page size on. -/
def skipSynchronousModes (mmio16 : Nat → UInt16) (base cursor : Nat) : Nat :=
  let cursor := wrap32 (cursor + 1)
  let synchronousModes := cfiReadWord mmio16 base cursor
  let cursor := wrap32 (cursor + 1)
  wrap32 (cursor + synchronousModes)

/-- The first erase region of the first region at the cursor, if there is one. -/
def firstEraseRegion (mmio16 : Nat → UInt16) (base : Nat) (st : Bool) (cursor : Nat) :
    Option EraseRegion :=
  let regions := cfiReadWord mmio16 base cursor
  let cursor := wrap32 (cursor + 1)
  if regions = 0 then none
  else
    let cursor := wrap32 (cursor + if st then 2 else 0)
    let cursor := wrap32 (cursor + 5)
    let eraseRegions := cfiReadWord mmio16 base cursor
    let cursor := wrap32 (cursor + 1)
    if eraseRegions = 0 then none
    else
      some {
        blocks := cfiReadU16 mmio16 base cursor + 1
        blockSize := cfiReadU16 mmio16 base (cursor + 2) * 256
      }

def cfiReadExtendedGeometry (chip : Chip) (flash : FlashDevice) : FlashDevice :=
  let features := cfiReadU32 chip.query flash.base (flash.primaryAddress + 5)
  let flash := { flash with features := features }
  if !features.testBit 9 || !features.testBit 10 then flash
  else
    let cursor := wrap32 (flash.primaryAddress + 0xE)
    let cursor := skipProtectionFields chip.query flash.base features cursor
    let cursor := skipSynchronousModes chip.query flash.base cursor
    let st := decide (cfiReadU16 chip.query flash.base 0x13 = 0x0200)
    let cursor := cfiSkipPriRegions chip.query flash.base st cursor
    match firstEraseRegion chip.query flash.base st cursor with
    | none => flash
    | some region => { flash with efaBlocks := region.blocks, efaBlockSize := region.blockSize }

/-! ## The probe -/

/-- `valid_signature` -/
def validSignature (chip : Chip) : Bool :=
  cfiReadWord chip.query windowBase 0x10 = 'Q'.toNat && cfiReadWord chip.query windowBase 0x11 = 'R'.toNat &&
    cfiReadWord chip.query windowBase 0x12 = 'Y'.toNat

/-- What `cfi_probe` makes of the record when it returns true. -/
def cfiProbe (chip : Chip) (flash : FlashDevice) : Option FlashDevice :=
  if !validSignature chip then none
  else
    let flash := { flash with base := windowBase }
    let flash := cfiReadGeometry chip flash
    let flash := cfiReadExtendedGeometry chip flash
    let flash := { flash with
      manufacturer := cfiReadWord chip.id flash.base 0
      device := cfiReadWord chip.id flash.base 1 }
    if flash.size ≤ windowEnd - windowBase && 0 < flash.regions && flash.regions ≤ maxEraseRegions &&
        2 ≤ flash.writeBufferSize && flash.writeBufferSize ≤ 1024 then some flash
    else none

/-- Only the features and the EFA change. -/
theorem exists_cfiReadExtendedGeometry_eq (chip : Chip) (flash : FlashDevice) :
    ∃ features blocks blockSize, cfiReadExtendedGeometry chip flash =
      { flash with features := features, efaBlocks := blocks, efaBlockSize := blockSize } := by
  rw [cfiReadExtendedGeometry]
  dsimp only
  split_ifs
  · exact ⟨_, _, _, rfl⟩
  · split
    · exact ⟨_, _, _, rfl⟩
    · exact ⟨_, _, _, rfl⟩

theorem cfiReadU16_lt (mmio16 : Nat → UInt16) (base offset : Nat) :
    cfiReadU16 mmio16 base offset < 2 ^ 24 := by
  have hword : ∀ o, cfiReadWord mmio16 base o < 2 ^ 16 := fun o => UInt16.toNat_lt _
  refine Nat.or_lt_two_pow (Nat.lt_trans (hword offset) (by decide)) ?_
  rw [Nat.shiftLeft_eq]
  have hhigh := hword (offset + 1)
  omega

/-- What a table can say of a region. -/
structure EraseRegion.Read (region : EraseRegion) : Prop where
  blocks_pos : 0 < region.blocks
  blocks_le : region.blocks ≤ 2 ^ 24
  dvd_blockSize : 256 ∣ region.blockSize
  blockSize_lt : region.blockSize < 2 ^ 32

theorem read_cfiReadEraseRegion (chip : Chip) (base region : Nat) :
    (cfiReadEraseRegion chip base region).Read where
  blocks_pos := Nat.succ_pos _
  blocks_le := cfiReadU16_lt chip.query base _
  dvd_blockSize := Nat.dvd_mul_left 256 _
  blockSize_lt := by
    have hsize := cfiReadU16_lt chip.query base (0x2D + region * 4 + 2)
    change cfiReadU16 chip.query base _ * 256 < 2 ^ 32
    omega

/-- A record for which `cfi_probe` has returned true. -/
structure Probed (flash : FlashDevice) : Prop where
  base_eq : flash.base = windowBase
  size_eq : flash.size = shiftOne flash.sizeExponent
  size_le : flash.size ≤ 2 ^ 27
  regions_pos : 0 < flash.regions
  length_erase : flash.erase.length = flash.regions
  erase : ∀ region ∈ flash.erase, region.Read
  two_le_writeBufferSize : 2 ≤ flash.writeBufferSize
  writeBufferSize_le : flash.writeBufferSize ≤ 1024

theorem probed_of_cfiProbe {chip : Chip} {flash flash' : FlashDevice}
    (h : cfiProbe chip flash = some flash') : Probed flash' := by
  obtain ⟨features, blocks, blockSize, hextended⟩ := exists_cfiReadExtendedGeometry_eq chip
    (cfiReadGeometry chip { flash with base := windowBase })
  simp only [cfiProbe, hextended] at h
  split_ifs at h with hsignature haccepted
  simp only [Bool.and_eq_true, decide_eq_true_eq] at haccepted
  obtain ⟨⟨⟨⟨hsize, hpos⟩, hregions⟩, htwo⟩, hbuffer⟩ := haccepted
  cases h
  constructor
  case base_eq => rfl
  case size_eq => rfl
  case size_le => exact hsize
  case regions_pos => exact hpos
  case length_erase => simpa [cfiReadGeometry] using hregions
  case erase =>
    intro region hregion
    obtain ⟨r, -, rfl⟩ := List.mem_map.mp hregion
    exact read_cfiReadEraseRegion chip windowBase r
  case two_le_writeBufferSize => exact htwo
  case writeBufferSize_le => exact hbuffer

/-! ## Blank ranges -/

section Blank

variable {m : Type → Type} [Monad m] (add : Nat → Nat → m Nat) (mmio32 : Nat → UInt32)

/-- The rest of the loop of `cfi_range_is_blank`: the words from an offset on. `add` is the addition of the
machine, which wraps, or a checked one. -/
def rangeIsBlankFrom (address : Nat) : (words offset : Nat) → m Bool
  | 0, _ => return true
  | words + 1, offset => do
      let word ← add address offset
      if mmio32 word ≠ 0xFFFFFFFF then return false
      else
        let offset ← add offset 4
        rangeIsBlankFrom address words offset

/-- `for (uint32_t offset = 0; offset < size; offset += sizeof(uint32_t))` -/
def cfiRangeIsBlank (address size : Nat) : m Bool :=
  rangeIsBlankFrom add mmio32 address ((size + 3) / 4) 0

variable {add mmio32} [LawfulMonad m]

/-- Where no addition fails, `locate offset` is the word at an offset. -/
theorem rangeIsBlankFrom_eq {address : Nat} {locate : Nat → Nat} (words offset : Nat)
    (hword : ∀ k < words, add address (offset + 4 * k) = pure (locate (offset + 4 * k)))
    (hnext : ∀ k < words, add (offset + 4 * k) 4 = pure (offset + 4 * (k + 1))) :
    rangeIsBlankFrom add mmio32 address words offset
      = pure (decide (∀ k < words, mmio32 (locate (offset + 4 * k)) = 0xFFFFFFFF)) := by
  induction words generalizing offset with
  | zero => simp [rangeIsBlankFrom]
  | succ words ih =>
      have hshift : ∀ k, offset + 4 + 4 * k = offset + 4 * (k + 1) := fun k => by ring
      have hrest := ih (offset + 4)
        (fun k hk => by rw [hshift]; exact hword (k + 1) (Nat.succ_lt_succ hk))
        (fun k hk => by rw [hshift, hshift]; exact hnext (k + 1) (Nat.succ_lt_succ hk))
      have hfirst : add address offset = pure (locate offset) := hword 0 (Nat.succ_pos words)
      have hsecond : add offset 4 = pure (offset + 4) := hnext 0 (Nat.succ_pos words)
      rw [rangeIsBlankFrom, hfirst, pure_bind]
      by_cases hblank : mmio32 (locate offset) = 0xFFFFFFFF
      · rw [if_neg (not_not.mpr hblank), hsecond, pure_bind, hrest]
        congr 2
        rw [Nat.forall_lt_succ_left]
        simp [hshift, hblank]
      · rw [if_pos hblank]
        congr 1
        symm
        rw [decide_eq_false_iff_not]
        exact fun hall => hblank (hall 0 (Nat.succ_pos words))

end Blank

/-- The sizes of the blocks in the order in which the loops over the regions and over `blocks` come to them. -/
def FlashDevice.blockSizes (flash : FlashDevice) : List Nat :=
  (flash.erase.take flash.regions).flatMap fun region => List.replicate region.blocks region.blockSize

/-! ### Chips to try the searches on -/

/-- A blank chip with these query words. -/
def blankChip (words : Nat → UInt16) : Chip where
  query address := words ((address - windowBase) / 2)
  id _ := 0
  array _ := 0xFFFFFFFF

/-- The words that the tables of these chips share: `QRY`, a size of 1 MiB and a write buffer of 32 bytes. -/
def commonWords : Nat → UInt16
  | 0x10 => 81
  | 0x11 => 82
  | 0x12 => 89
  | 0x27 => 20
  | 0x2A => 5
  | _ => 0

/-- The record of such a table. -/
def sampleFlash (regions : List EraseRegion) : FlashDevice :=
  ⟨windowBase, 0, 0, 0, 20, 2 ^ 20, regions.length, 32, 0, 0, 0, regions⟩

end Pmb887x.CfiIntel
