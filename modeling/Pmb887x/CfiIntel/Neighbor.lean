import Mathlib.Tactic.NormNum
import Pmb887x.CfiIntel.FindBlock
import Pmb887x.Library.BitFields

set_option autoImplicit false

/-! # A block and its neighbour (`block_is_usable`)

A block is used with the one whose addresses differ in the bit of their size. `find_block` looks at the size of
the device for the neighbour, nothing does for the block itself. -/

namespace Pmb887x.CfiIntel

open Library

/-! ## What is looked for -/

/-- An erase block of the geometry. -/
def IsEraseBlock (flash : FlashDevice) (block : Block) : Prop :=
  ∃ o, block.base = flash.base + o ∧ LaidAt flash.blockSizes o block.size

/-- The block is inside the device. -/
def InsideDevice (flash : FlashDevice) (block : Block) : Prop :=
  block.base + block.size ≤ flash.base + flash.size

/-- What the test relies on: two blocks of one size, the first one blank, and a range to set up in the first
whose counterpart is in the second at the same offset. -/
structure GoodTestBlocks (chip : Chip) (flash : FlashDevice) (block neighbor : Block) : Prop where
  block_mem : IsEraseBlock flash block
  neighbor_mem : IsEraseBlock flash neighbor
  ne : block ≠ neighbor
  size_eq : neighbor.size = block.size
  size_pow : ∃ k, block.size = 2 ^ k
  block_inside : InsideDevice flash block
  neighbor_inside : InsideDevice flash neighbor
  blank : ∀ a, block.base ≤ a → a < block.base + block.size → 4 ∣ a → chip.array a = 0xFFFFFFFF
  setup_ge : block.base ≤ setupAddress flash block
  setup_le : setupAddress flash block + flash.writeBufferSize ≤ block.base + block.size
  setup_aligned : flash.writeBufferSize ∣ setupAddress flash block
  abort_ge : neighbor.base ≤ abortAddress flash block
  abort_lt : abortAddress flash block < neighbor.base + neighbor.size
  abort_offset : abortAddress flash block - neighbor.base = setupAddress flash block - block.base

variable {chip : Chip} {flash : FlashDevice} {block neighbor : Block}

/-! ## The tests of a block -/

/-- A probed device that the loop over the chips goes on with. -/
structure Suitable (flash : FlashDevice) : Prop extends Probed flash where
  buffer_pow : ∃ w, flash.writeBufferSize = 2 ^ w ∧ 3 ≤ w ∧ w ≤ 10

/-- What `block_is_usable` has made sure of. -/
structure Usable (chip : Chip) (flash : FlashDevice) (block neighbor : Block) : Prop where
  buffer_le : flash.writeBufferSize ≤ block.size
  size_pow : ∃ k, block.size = 2 ^ k
  offset_le : selectSetupOffset flash block + flash.writeBufferSize ≤ block.size
  setup_aligned : flash.writeBufferSize ∣ setupAddress flash block
  found : findBlock flash (abortAddress flash block) = some neighbor
  ne : neighbor.base ≠ block.base
  size_eq : neighbor.size = block.size
  offset_eq : sub32 (abortAddress flash block) neighbor.base = selectSetupOffset flash block
  blank : ∀ k < block.size / 4, chip.array (wrap32 (block.base + 4 * k)) = 0xFFFFFFFF

theorem eight_le_writeBufferSize (h : Suitable flash) : 8 ≤ flash.writeBufferSize := by
  obtain ⟨w, hw, hle, -⟩ := h.buffer_pow
  rw [hw]
  exact Nat.pow_le_pow_right (n := 2) (by decide) hle

/-- A power of two from 8 on is a number of words. -/
theorem four_dvd_of_pow {n : Nat} (h : ∃ k, n = 2 ^ k) (hn : 8 ≤ n) : 4 ∣ n := by
  obtain ⟨k, rfl⟩ := h
  have hk : 2 ≤ k := by
    by_contra hlt
    have hle : 2 ^ k ≤ 2 ^ 2 := Nat.pow_le_pow_right (by decide) (by omega)
    omega
  exact Nat.pow_dvd_pow 2 hk

/-- The reads of `cfi_range_is_blank`. -/
theorem cfiRangeIsBlank_iff {address size : Nat} (hd : 4 ∣ size) (hsize : size < 2 ^ 32) :
    (cfiRangeIsBlank wrappingAdd chip.array address size).run = true ↔
      ∀ k < size / 4, chip.array (wrap32 (address + 4 * k)) = 0xFFFFFFFF := by
  have hwords : (size + 3) / 4 = size / 4 := by omega
  have hblank := @rangeIsBlankFrom_eq Id _ wrappingAdd chip.array _ address
    (fun offset => wrap32 (address + offset)) (size / 4) 0 (fun k _ => rfl)
    (fun k hk => wrap32_of_lt (by omega))
  rw [cfiRangeIsBlank, hwords, hblank, Id.run_pure, decide_eq_true_eq]
  simp only [Nat.zero_add]

theorem usable_of_blockIsUsable (hsuitable : Suitable flash) (hsize : block.size < 2 ^ 32)
    (h : blockIsUsable chip flash block = some neighbor) : Usable chip flash block neighbor := by
  have height := eight_le_writeBufferSize hsuitable
  have hbuffer := hsuitable.writeBufferSize_le
  cases hfound : findBlock flash (abortAddress flash block) with
  | none =>
      rw [blockIsUsable, hfound] at h
      split_ifs at h
  | some found =>
      rw [blockIsUsable, hfound] at h
      dsimp only at h
      split_ifs at h with hsmall hoffset halign hneighbor hlock hblank
      rw [not_or, Nat.not_lt, not_not] at hsmall
      rw [not_not] at halign
      rw [not_or, not_or, not_not, not_not] at hneighbor
      cases h
      have hpow : ∃ k, block.size = 2 ^ k := by
        have hpos : block.size ≠ 0 := by omega
        exact (Nat.and_sub_one_eq_zero_iff_isPowerOfTwo hpos).mp hsmall.2
      have hfour := four_dvd_of_pow hpow (by omega)
      have hhalf : selectSetupOffset flash block ≤ block.size / 2 := Nat.and_le_left
      constructor
      case buffer_le => exact hsmall.1
      case size_pow => exact hpow
      case offset_le =>
        rw [wrap32_of_lt (by omega)] at hoffset
        omega
      case setup_aligned =>
        obtain ⟨w, hw, -, -⟩ := hsuitable.buffer_pow
        rw [hw, Nat.and_two_pow_sub_one_eq_mod] at halign
        rw [hw]
        exact Nat.dvd_of_mod_eq_zero halign
      case found => exact hfound
      case ne => exact hneighbor.1
      case size_eq => exact hneighbor.2.1
      case offset_eq => exact hneighbor.2.2
      case blank => exact (cfiRangeIsBlank_iff hfour hsize).mp hblank

/-! ## The pair -/

/-- What the tests say of the neighbour, where `find_block` finds every block. -/
structure Paired (flash : FlashDevice) (block neighbor : Block) (n : Nat) : Prop where
  base_eq : neighbor.base = flash.base + n
  laid : LaidAt flash.blockSizes n block.size
  lt : n < flash.size
  abort_eq : abortAddress flash block = flash.base + n + selectSetupOffset flash block
  up_or_down : abortAddress flash block = setupAddress flash block + block.size ∨
    setupAddress flash block = abortAddress flash block + block.size

theorem paired_of_usable (hprobed : Probed flash) (hfinds : FindsEveryBlock flash)
    (hsize : block.size < 2 ^ 32) (h : Usable chip flash block neighbor) :
    ∃ n, Paired flash block neighbor n := by
  obtain ⟨k, hk⟩ := h.size_pow
  have habort : abortAddress flash block < 2 ^ 32 :=
    Nat.xor_lt_two_pow (Nat.mod_lt _ (by decide)) hsize
  obtain ⟨a, n, ha, hin, hcontains⟩ := contains_of_findBlock hprobed hfinds habort h.found
  have hle := hcontains.le
  have hbase := hcontains.base_eq
  have hlaid := hcontains.laid
  rw [h.size_eq] at hlaid
  have hoffset := h.offset_eq
  rw [sub32_of_le (by omega) habort] at hoffset
  refine ⟨n, hbase, hlaid, by omega, by omega, ?_⟩
  rw [abortAddress, hk]
  exact xor_two_pow (setupAddress flash block) k

/-- The block that the walk comes to at an offset of the table. -/
def blockAt (flash : FlashDevice) (o s : Nat) : Block := ⟨wrap32 (flash.base + o), s⟩

/-- The two blocks end inside the device: the one at `o`, and the one above it where the neighbour is that. -/
def PairInside (flash : FlashDevice) (o s : Nat) : Prop :=
  o + s ≤ flash.size ∧
    (setupAddress flash (blockAt flash o s) < abortAddress flash (blockAt flash o s) →
      o + 2 * s ≤ flash.size)

variable {o s : Nat}

theorem blockAt_eq (hprobed : Probed flash) (h : o + s ≤ flash.size) :
    blockAt flash o s = ⟨flash.base + o, s⟩ := by
  have hsize := hprobed.size_le
  rw [blockAt, wrap32_of_lt]
  rw [hprobed.base_eq, windowBase]
  omega

/-- The setup address of a block in the device. -/
theorem setupAddress_blockAt (hprobed : Probed flash) (h : o + s ≤ flash.size) :
    setupAddress flash (blockAt flash o s)
      = flash.base + o + selectSetupOffset flash (blockAt flash o s) := by
  have hsize := hprobed.size_le
  have hhalf : selectSetupOffset flash (blockAt flash o s) ≤ s / 2 := Nat.and_le_left
  have hbase : (blockAt flash o s).base = flash.base + o := by rw [blockAt_eq hprobed h]
  rw [setupAddress, hbase, wrap32_of_lt]
  rw [hprobed.base_eq, windowBase]
  omega

theorem good_of_pairInside (hsuitable : Suitable flash) (hfinds : FindsEveryBlock flash)
    (hlaid : LaidAt flash.blockSizes o s) (hdvd : 4 ∣ o)
    (husable : Usable chip flash (blockAt flash o s) neighbor) (hinside : PairInside flash o s) :
    GoodTestBlocks chip flash (blockAt flash o s) neighbor := by
  obtain ⟨hend, hup⟩ := hinside
  have hsize := hsuitable.size_le
  have height := eight_le_writeBufferSize hsuitable
  have hbase : (blockAt flash o s).base = flash.base + o := by
    rw [blockAt_eq hsuitable.toProbed hend]
  have hsetup := setupAddress_blockAt hsuitable.toProbed hend
  have hoffset : selectSetupOffset flash (blockAt flash o s) + flash.writeBufferSize ≤ s :=
    husable.offset_le
  obtain ⟨n, hpaired⟩ := paired_of_usable hsuitable.toProbed hfinds
    (show s < 2 ^ 32 by omega) husable
  have habort := hpaired.abort_eq
  have hneighbor := hpaired.base_eq
  have hsame : neighbor.size = s := husable.size_eq
  have hnend : n + s ≤ flash.size := by
    rcases hpaired.up_or_down with hupward | hdownward
    · have hle := hup (by rw [hupward]; exact Nat.lt_add_of_pos_right (show 0 < s by omega))
      change _ = _ + s at hupward
      omega
    · change _ = _ + s at hdownward
      omega
  have hsz : (blockAt flash o s).size = s := rfl
  constructor
  case block_mem => exact ⟨o, hbase, hlaid⟩
  case neighbor_mem => exact ⟨n, hneighbor, hsame ▸ hpaired.laid⟩
  case ne => exact fun heq => husable.ne (congrArg Block.base heq.symm)
  case size_eq => exact husable.size_eq
  case size_pow => exact husable.size_pow
  case block_inside =>
    rw [InsideDevice, hbase, hsz]
    omega
  case neighbor_inside =>
    rw [InsideDevice, hneighbor, hsame]
    omega
  case blank =>
    intro a ha hlt hd
    rw [hbase] at ha hlt
    rw [hsz] at hlt
    have hfour : 4 ∣ s := four_dvd_of_pow husable.size_pow (by omega)
    have hwindow := hsuitable.base_eq
    rw [windowBase] at hwindow
    have hword := husable.blank ((a - (flash.base + o)) / 4) (by rw [hsz]; omega)
    have haddress : flash.base + o + 4 * ((a - (flash.base + o)) / 4) = a := by omega
    rwa [hbase, haddress, wrap32_of_lt (by omega)] at hword
  case setup_ge => omega
  case setup_le => omega
  case setup_aligned => exact husable.setup_aligned
  case abort_ge => omega
  case abort_lt => omega
  case abort_offset => omega

/-- A block that is good is at its place in the table, if the walk has not come to it before. -/
theorem pairInside_of_good (hsuitable : Suitable flash) (hfinds : FindsEveryBlock flash)
    {front back : List Nat} (hsizes : flash.blockSizes = front ++ s :: back) (hs : s < 2 ^ 32)
    (husable : Usable chip flash (blockAt flash front.sum s) neighbor)
    (hfirst : ∀ o', LaidAt front o' s → blockAt flash o' s ≠ blockAt flash front.sum s)
    (hgood : GoodTestBlocks chip flash (blockAt flash front.sum s) neighbor) :
    PairInside flash front.sum s := by
  have hsize := hsuitable.size_le
  have height := eight_le_writeBufferSize hsuitable
  have hwindow := hsuitable.base_eq
  rw [windowBase] at hwindow
  have hle : flash.writeBufferSize ≤ s := husable.buffer_le
  obtain ⟨o, hbase, hlaid⟩ := hgood.block_mem
  have hend : o + s ≤ flash.size := by
    have hinside := hgood.block_inside
    rw [InsideDevice, hbase] at hinside
    change _ + s ≤ _ at hinside
    omega
  have ho : o = front.sum := by
    by_contra hne
    refine hfirst o ?_ ?_
    · -- the block at `o` is laid before the walk comes to this one
      rw [hsizes] at hlaid
      rcases LaidAt.append_iff.mp hlaid with hfront | ⟨hbehind, -⟩
      · exact hfront
      · change wrap32 (flash.base + front.sum) = flash.base + o at hbase
        rw [wrap32] at hbase
        omega
    · rw [blockAt_eq hsuitable.toProbed hend]
      exact Block.ext hbase.symm rfl
  subst ho
  refine ⟨hend, fun hup => ?_⟩
  have hsetup := setupAddress_blockAt hsuitable.toProbed hend
  obtain ⟨n, hpaired⟩ := paired_of_usable hsuitable.toProbed hfinds hs husable
  have habort := hpaired.abort_eq
  have hinside := hgood.neighbor_inside
  rw [InsideDevice, hpaired.base_eq, husable.size_eq] at hinside
  rcases hpaired.up_or_down with hupward | hdownward
  · change _ = _ + s at hupward
    change _ + s ≤ _ at hinside
    omega
  · omega

end Pmb887x.CfiIntel
