import Pmb887x.CfiIntel.Neighbor

set_option autoImplicit false

/-! # The two blocks of the abort test (`find_blank_test_block`)

The walk over the chips and their tables, and what the tables have to be like for the two blocks that it
returns to be good. -/

namespace Pmb887x.CfiIntel

open Library

variable {chip : Chip} {flash : FlashDevice} {block neighbor : Block} {o s : Nat}

/-! ## The walk -/

theorem wrap32_add_wrap32 (a b c : Nat) : wrap32 (wrap32 (a + b) + c) = wrap32 (a + (b + c)) := by
  simp only [wrap32]
  omega

/-- What the walk over the blocks returns is what it finds at the first one that it accepts. -/
theorem findSome?_currentBlocks {α : Type} {f : Block → Option α} {x : α} (sizes : List Nat)
    {address : Nat} (haddress : address < 2 ^ 32) :
    (currentBlocks address sizes).findSome? f = some x ↔
      ∃ front s back, sizes = front ++ s :: back ∧ f ⟨wrap32 (address + front.sum), s⟩ = some x ∧
        ∀ o s', LaidAt front o s' → f ⟨wrap32 (address + o), s'⟩ = none := by
  induction sizes generalizing address with
  | nil => simp [currentBlocks]
  | cons size sizes ih =>
      have hhere : wrap32 (address + 0) = address := wrap32_of_lt haddress
      have hnext : wrap32 (address + size) < 2 ^ 32 := Nat.mod_lt _ (by decide)
      rw [currentBlocks, List.findSome?_cons]
      cases hfirst : f ⟨address, size⟩ with
      | some y =>
          constructor
          · intro h
            refine ⟨[], size, sizes, rfl, ?_, fun o s' hlaid => absurd hlaid LaidAt.not_nil⟩
            rw [List.sum_nil, hhere, hfirst]
            exact h
          · rintro ⟨front, s, back, hsizes, hs, hbefore⟩
            cases front with
            | nil =>
                obtain ⟨rfl, -⟩ := List.cons.inj hsizes
                rwa [List.sum_nil, hhere, hfirst] at hs
            | cons size' front =>
                -- the walk would have gone past the first block
                obtain ⟨rfl, -⟩ := List.cons.inj hsizes
                have hnone := hbefore 0 size (LaidAt.intro [] size front)
                rw [hhere, hfirst] at hnone
                cases hnone
      | none =>
          rw [ih hnext]
          constructor
          · rintro ⟨front, s, back, rfl, hs, hbefore⟩
            refine ⟨size :: front, s, back, rfl, ?_, fun o s' hlaid => ?_⟩
            · rwa [List.sum_cons, ← wrap32_add_wrap32]
            · rcases LaidAt.cons_iff.mp hlaid with ⟨rfl, rfl⟩ | ⟨hle, hlaid⟩
              · rwa [hhere]
              · have hnone := hbefore (o - size) s' hlaid
                rwa [wrap32_add_wrap32, Nat.add_sub_cancel' hle] at hnone
          · rintro ⟨front, s, back, hsizes, hs, hbefore⟩
            cases front with
            | nil =>
                obtain ⟨rfl, -⟩ := List.cons.inj hsizes
                rw [List.sum_nil, hhere, hfirst] at hs
                cases hs
            | cons size' front =>
                obtain ⟨rfl, rfl⟩ := List.cons.inj hsizes
                refine ⟨front, s, back, rfl, ?_, fun o s' hlaid => ?_⟩
                · rwa [wrap32_add_wrap32, ← List.sum_cons]
                · rw [wrap32_add_wrap32]
                  refine hbefore (size + o) s' (LaidAt.cons_iff.mpr (Or.inr ⟨Nat.le_add_right size o, ?_⟩))
                  rwa [Nat.add_sub_cancel_left]

/-- The walk over this chip comes to no block that is usable. -/
def NoneUsable (chip : Chip) : Prop :=
  ∀ flash, cfiProbe chip .zero = some flash → suitable flash = true →
    ∀ o s, LaidAt flash.blockSizes o s → blockIsUsable chip flash (blockAt flash o s) = none

/-- The first usable block that the walk over the chips comes to is at `o` in the table of this chip. -/
structure FirstUsable (chips : List Chip) (chip : Chip) (flash : FlashDevice) (o s : Nat) : Prop where
  chips_before : ∃ before after, chips = before ++ chip :: after ∧ ∀ other ∈ before, NoneUsable other
  probed : cfiProbe chip .zero = some flash
  suitable : suitable flash = true
  blocks_before : ∃ front back, flash.blockSizes = front ++ s :: back ∧ o = front.sum ∧
    ∀ o' s', LaidAt front o' s' → blockIsUsable chip flash (blockAt flash o' s') = none
  usable : blockIsUsable chip flash (blockAt flash o s) ≠ none

theorem base_lt (hprobed : Probed flash) : flash.base < 2 ^ 32 := by
  rw [hprobed.base_eq]
  decide

theorem findTestBlocksOn_eq_some_iff {chip' : Chip} :
    findTestBlocksOn chip = some ⟨chip', flash, block, neighbor⟩ ↔
      chip = chip' ∧ cfiProbe chip .zero = some flash ∧ suitable flash = true ∧
        ∃ front s back, flash.blockSizes = front ++ s :: back ∧ block = blockAt flash front.sum s ∧
          blockIsUsable chip flash block = some neighbor ∧
          ∀ o' s', LaidAt front o' s' → blockIsUsable chip flash (blockAt flash o' s') = none := by
  rw [findTestBlocksOn]
  cases hprobe : cfiProbe chip .zero with
  | none => simp
  | some candidate =>
      dsimp only
      by_cases hsuitable : suitable candidate = true
      · rw [hsuitable, if_neg (by decide),
          findSome?_currentBlocks _ (base_lt (probed_of_cfiProbe hprobe))]
        simp only [Option.map_eq_some_iff, Option.map_eq_none_iff]
        constructor
        · rintro ⟨front, s, back, hsizes, ⟨found, hfound, heq⟩, hbefore⟩
          cases heq
          exact ⟨rfl, rfl, hsuitable, front, s, back, hsizes, rfl, hfound, hbefore⟩
        · rintro ⟨rfl, heq, -, front, s, back, hsizes, rfl, hfound, hbefore⟩
          cases heq
          exact ⟨front, s, back, hsizes, ⟨neighbor, hfound, rfl⟩, hbefore⟩
      · rw [Bool.not_eq_true] at hsuitable
        rw [hsuitable, if_pos (by decide)]
        constructor
        · exact fun h => nomatch h
        · rintro ⟨-, heq, h, -⟩
          cases heq
          rw [hsuitable] at h
          cases h

theorem findTestBlocksOn_eq_none_iff : findTestBlocksOn chip = none ↔ NoneUsable chip := by
  rw [Option.eq_none_iff_forall_ne_some]
  constructor
  · intro h flash hprobe hsuitable o s hlaid
    by_contra hne
    obtain ⟨front, s, back, hsizes, husable, hbefore⟩ :=
      LaidAt.exists_first (P := fun o s => blockIsUsable chip flash (blockAt flash o s) ≠ none) hlaid hne
    obtain ⟨neighbor, hneighbor⟩ := Option.ne_none_iff_exists'.mp husable
    exact h _ (findTestBlocksOn_eq_some_iff.mpr ⟨rfl, hprobe, hsuitable, front, s, back, hsizes, rfl,
      hneighbor, fun o' s' hlaid' => not_not.mp (hbefore o' s' hlaid')⟩)
  · rintro h ⟨chip', flash, block, neighbor⟩ hfound
    obtain ⟨-, hprobe, hsuitable, front, s, back, hsizes, rfl, hneighbor, -⟩ :=
      findTestBlocksOn_eq_some_iff.mp hfound
    have hnone := h flash hprobe hsuitable front.sum s (hsizes ▸ LaidAt.intro front s back)
    rw [hnone] at hneighbor
    cases hneighbor

/-- What is returned is the first usable block and its neighbour. -/
theorem findBlankTestBlock_eq_some_iff {chips : List Chip} :
    findBlankTestBlock chips = some ⟨chip, flash, block, neighbor⟩ ↔
      ∃ o s, FirstUsable chips chip flash o s ∧ block = blockAt flash o s ∧
        blockIsUsable chip flash block = some neighbor := by
  rw [findBlankTestBlock, List.findSome?_eq_some_iff]
  constructor
  · rintro ⟨before, chip', after, hchips, hfound, hbefore⟩
    obtain ⟨rfl, hprobe, hsuitable, front, s, back, hsizes, rfl, hneighbor, hfront⟩ :=
      findTestBlocksOn_eq_some_iff.mp hfound
    refine ⟨front.sum, s, ?_, rfl, hneighbor⟩
    exact ⟨⟨before, after, hchips, fun c hc => findTestBlocksOn_eq_none_iff.mp (hbefore c hc)⟩, hprobe,
      hsuitable, ⟨front, back, hsizes, rfl, hfront⟩, by rw [hneighbor]; exact Option.some_ne_none _⟩
  · rintro ⟨o, s, hfirst, rfl, hneighbor⟩
    obtain ⟨before, after, hchips, hbefore⟩ := hfirst.chips_before
    obtain ⟨front, back, hsizes, rfl, hfront⟩ := hfirst.blocks_before
    refine ⟨before, chip, after, hchips, ?_, fun c hc => findTestBlocksOn_eq_none_iff.mpr (hbefore c hc)⟩
    exact findTestBlocksOn_eq_some_iff.mpr
      ⟨rfl, hfirst.probed, hfirst.suitable, front, s, back, hsizes, rfl, hneighbor, hfront⟩

/-! ## The search -/

theorem suitable_of_eq_true (hprobed : Probed flash) (h : suitable flash = true) : Suitable flash where
  toProbed := hprobed
  buffer_pow := by
    simp only [suitable, Bool.and_eq_true, decide_eq_true_eq] at h
    obtain ⟨⟨-, height⟩, hpow⟩ := h
    have hle := hprobed.writeBufferSize_le
    obtain ⟨w, hw⟩ := (Nat.and_sub_one_eq_zero_iff_isPowerOfTwo (by omega)).mp hpow
    rw [hw] at height hle
    refine ⟨w, hw, ?_, ?_⟩
    · exact (Nat.pow_le_pow_iff_right (a := 2) (by decide)).mp height
    · exact (Nat.pow_le_pow_iff_right (a := 2) (by decide)).mp hle

theorem blockSizes_read (hprobed : Probed flash) {x : Nat} (hx : x ∈ flash.blockSizes) :
    256 ∣ x ∧ x < 2 ^ 32 := by
  obtain ⟨region, hregion, hrep⟩ := List.mem_flatMap.mp hx
  have hread := hprobed.erase region (List.mem_of_mem_take hregion)
  rw [(List.mem_replicate.mp hrep).2]
  exact ⟨hread.dvd_blockSize, hread.blockSize_lt⟩

/-- The search does what the test relies on. -/
structure FindsTestBlocks (chips : List Chip) : Prop where
  finds : ∀ chip ∈ chips, ∀ flash, cfiProbe chip .zero = some flash → FindsEveryBlock flash
  good : ∀ found, findBlankTestBlock chips = some found →
    found.chip ∈ chips ∧ cfiProbe found.chip .zero = some found.flash ∧
      GoodTestBlocks found.chip found.flash found.block found.neighbor

theorem FirstUsable.mem {chips : List Chip} (h : FirstUsable chips chip flash o s) : chip ∈ chips := by
  obtain ⟨before, after, rfl, -⟩ := h.chips_before
  exact List.mem_append_right before List.mem_cons_self

theorem FirstUsable.laid {chips : List Chip} (h : FirstUsable chips chip flash o s) :
    LaidAt flash.blockSizes o s := by
  obtain ⟨front, back, hsizes, rfl, -⟩ := h.blocks_before
  exact hsizes ▸ LaidAt.intro front s back

/-! ## What the table decides

A block is usable if the table allows it and the chip has it unlocked and blank. A chip may have any of its
blocks unlocked and blank, so the table is right if it is right about all that it allows. -/

/-- What `block_is_usable` asks of the table: the block takes the buffer, and the same offset of an equal block
has the address that differs in the bit of the size. -/
structure Eligible (flash : FlashDevice) (o s : Nat) : Prop where
  buffer_le : flash.writeBufferSize ≤ s
  size_pow : ∃ k, s = 2 ^ k
  offset_le : selectSetupOffset flash (blockAt flash o s) + flash.writeBufferSize ≤ s
  setup_aligned : flash.writeBufferSize ∣ setupAddress flash (blockAt flash o s)
  partner : ∃ n, LaidAt flash.blockSizes n s ∧ flash.base + n ≠ (blockAt flash o s).base ∧
    n + selectSetupOffset flash (blockAt flash o s) < flash.size ∧
    abortAddress flash (blockAt flash o s) = flash.base + n + selectSetupOffset flash (blockAt flash o s)

/-- What it asks of the chip. -/
structure UnlockedBlank (chip : Chip) (base s : Nat) : Prop where
  unlocked : (cfiReadLockStatus chip base).testBit 1 = false
  blank : ∀ k < s / 4, chip.array (wrap32 (base + 4 * k)) = 0xFFFFFFFF

section

variable (hsuitable : Suitable flash) (hfinds : FindsEveryBlock flash) (hs : s < 2 ^ 32)
include hsuitable hfinds hs

theorem eligible_of_blockIsUsable (h : blockIsUsable chip flash (blockAt flash o s) = some neighbor) :
    Eligible flash o s ∧ UnlockedBlank chip (blockAt flash o s).base s := by
  have husable := usable_of_blockIsUsable hsuitable hs h
  have habort : abortAddress flash (blockAt flash o s) < 2 ^ 32 :=
    have hsetup : setupAddress flash (blockAt flash o s) < 2 ^ 32 := Nat.mod_lt _ (by decide)
    Nat.xor_lt_two_pow hsetup hs
  obtain ⟨a, n, ha, hin, hcontains⟩ := contains_of_findBlock hsuitable.toProbed hfinds habort husable.found
  have hbase := hcontains.base_eq
  have hle := hcontains.le
  have hoffset := husable.offset_eq
  rw [sub32_of_le (by omega) habort] at hoffset
  have hlaid := hcontains.laid
  rw [husable.size_eq] at hlaid
  refine ⟨⟨husable.buffer_le, husable.size_pow, husable.offset_le, husable.setup_aligned, n, hlaid, ?_, ?_, ?_⟩,
    ?_, husable.blank⟩
  · rw [← hbase]
    exact husable.ne
  · omega
  · omega
  · rw [blockIsUsable, husable.found] at h
    dsimp only at h
    split_ifs at h with _ _ _ _ hlock
    exact Bool.eq_false_iff.mpr hlock

theorem Eligible.usable (h : Eligible flash o s) (hchip : UnlockedBlank chip (blockAt flash o s).base s) :
    blockIsUsable chip flash (blockAt flash o s) ≠ none := by
  have height := eight_le_writeBufferSize hsuitable
  have hbuffer := h.buffer_le
  have hoffset := h.offset_le
  obtain ⟨n, hlaid, hne, hin, habort⟩ := h.partner
  have hcontains : Contains flash (n + selectSetupOffset flash (blockAt flash o s)) ⟨flash.base + n, s⟩ n := {
    laid := hlaid
    base_eq := rfl
    le := Nat.le_add_right n _
    lt := by
      change _ < n + s
      omega }
  have hsum := hlaid.end_le
  obtain ⟨found, hfound, -, hunique⟩ := hfinds (n + selectSetupOffset flash (blockAt flash o s)) hin (by omega)
  obtain rfl := hunique _ n hcontains
  rw [← Nat.add_assoc, ← habort] at hfound
  have hsmall : ¬ ((blockAt flash o s).size < flash.writeBufferSize ∨
      (blockAt flash o s).size &&& (blockAt flash o s).size - 1 ≠ 0) := by
    have hpos : s ≠ 0 := by omega
    rw [not_or, Nat.not_lt, not_not]
    exact ⟨hbuffer, (Nat.and_sub_one_eq_zero_iff_isPowerOfTwo hpos).mpr h.size_pow⟩
  have hroom : ¬ wrap32 (selectSetupOffset flash (blockAt flash o s) + flash.writeBufferSize) >
      (blockAt flash o s).size := by
    rw [wrap32_of_lt (by omega), Nat.not_lt]
    exact hoffset
  have haligned : ¬ setupAddress flash (blockAt flash o s) &&& flash.writeBufferSize - 1 ≠ 0 := by
    have hdvd := h.setup_aligned
    obtain ⟨w, hw, -, -⟩ := hsuitable.buffer_pow
    rw [hw] at hdvd
    rw [not_not, hw, Nat.and_two_pow_sub_one_eq_mod]
    exact Nat.mod_eq_zero_of_dvd hdvd
  have hneighbor : ¬ (flash.base + n = (blockAt flash o s).base ∨ s ≠ (blockAt flash o s).size ∨
      sub32 (abortAddress flash (blockAt flash o s)) (flash.base + n)
        ≠ selectSetupOffset flash (blockAt flash o s)) := by
    have hsize := hsuitable.size_le
    have hwindow := hsuitable.base_eq
    rw [windowBase] at hwindow
    rw [habort, sub32_of_le (by omega) (by omega), Nat.add_sub_cancel_left, not_or, not_or, not_not, not_not]
    exact ⟨hne, rfl, rfl⟩
  have hblank : (cfiRangeIsBlank wrappingAdd chip.array (blockAt flash o s).base (blockAt flash o s).size).run
      = true :=
    (cfiRangeIsBlank_iff (four_dvd_of_pow h.size_pow (by omega)) hs).mpr hchip.blank
  rw [blockIsUsable, if_neg hsmall, if_neg hroom, if_neg haligned, hfound]
  dsimp only
  rw [if_neg hneighbor, hchip.unlocked, if_neg Bool.false_ne_true, if_pos hblank]
  exact Option.some_ne_none _

end

/-- Every block that the search may return is inside the device with its neighbour. A block is not returned where
an earlier one is taken in its place that has the same address and is not larger. -/
def ReturnsInside (flash : FlashDevice) : Prop :=
  ∀ front s back, flash.blockSizes = front ++ s :: back → Eligible flash front.sum s →
    (∀ o s', LaidAt front o s' → Eligible flash o s' →
      (blockAt flash o s').base = (blockAt flash front.sum s).base → s < s') →
    PairInside flash front.sum s

/-- What the tables have to be like. -/
structure TablesAllow (tables : List (Nat → UInt16)) : Prop where
  regular : ∀ chip : Chip, chip.query ∈ tables → ∀ flash, cfiProbe chip .zero = some flash →
    Regular flash.size 0 (flash.erase.take flash.regions)
  inside : ∀ chip : Chip, chip.query ∈ tables → ∀ flash, cfiProbe chip .zero = some flash →
    suitable flash = true → ReturnsInside flash

/-! ### A chip with one blank block -/

/-- The chip with one block unlocked and blank. -/
def onlyBlank (chip : Chip) (base s : Nat) : Chip where
  query := chip.query
  id a := if a = windowBase ∨ a = windowBase + 2 then chip.id a else if a = wrap32 (base + 4) then 0 else 2
  array a := if ∃ k < s / 4, a = wrap32 (base + 4 * k) then 0xFFFFFFFF else 0

theorem cfiProbe_onlyBlank (base : Nat) : cfiProbe (onlyBlank chip base s) .zero = cfiProbe chip .zero := by
  have hfirst : cfiReadWord (onlyBlank chip base s).id windowBase 0 = cfiReadWord chip.id windowBase 0 := rfl
  have hsecond : cfiReadWord (onlyBlank chip base s).id windowBase 1 = cfiReadWord chip.id windowBase 1 := rfl
  obtain ⟨features, blocks, blockSize, hextended⟩ := exists_cfiReadExtendedGeometry_eq chip
    (cfiReadGeometry chip { FlashDevice.zero with base := windowBase })
  have hextended' : cfiReadExtendedGeometry (onlyBlank chip base s)
      (cfiReadGeometry (onlyBlank chip base s) { FlashDevice.zero with base := windowBase }) = _ := hextended
  have hsignature : validSignature (onlyBlank chip base s) = validSignature chip := rfl
  simp only [cfiProbe, hextended, hextended', hsignature]
  rfl

/-- The blocks of a table begin at multiples of 256, modulo 2³², too. -/
theorem base_blockAt_mod (hprobed : Probed flash) {front : List Nat} (hfront : ∀ x ∈ front, x ∈ flash.blockSizes)
    (hlaid : LaidAt front o s) : (blockAt flash o s).base % 256 = 0 := by
  obtain ⟨c, hc⟩ := (hlaid.dvd fun x hx => (blockSizes_read hprobed (hfront x hx)).1).1
  have hwindow := hprobed.base_eq
  rw [windowBase] at hwindow
  change wrap32 (flash.base + o) % 256 = 0
  rw [wrap32]
  omega

/-- No other address is unlocked in it. -/
theorem base_eq_of_unlocked {base base' : Nat} (hbase : base < 2 ^ 32) (hbase' : base' < 2 ^ 32)
    (hmod : base' % 256 = 0)
    (h : (cfiReadLockStatus (onlyBlank chip base s) base').testBit 1 = false) : base' = base := by
  have hplace : ¬ (wrap32 (base' + 2 * 2) = windowBase ∨ wrap32 (base' + 2 * 2) = windowBase + 2) := by
    rw [wrap32, windowBase]
    omega
  rw [cfiReadLockStatus, cfiReadWord] at h
  simp only [onlyBlank, if_neg hplace] at h
  by_cases heq : wrap32 (base' + 2 * 2) = wrap32 (base + 4)
  · simp only [wrap32] at heq
    omega
  · rw [if_neg heq] at h
    exact absurd h (by decide)

theorem unlockedBlank_onlyBlank {base : Nat} (hmod : base % 256 = 0) :
    UnlockedBlank (onlyBlank chip base s) base s := by
  constructor
  case unlocked =>
    have hplace : ¬ (wrap32 (base + 2 * 2) = windowBase ∨ wrap32 (base + 2 * 2) = windowBase + 2) := by
      rw [wrap32, windowBase]
      omega
    rw [cfiReadLockStatus, cfiReadWord]
    simp only [onlyBlank, if_neg hplace]
    rfl
  case blank =>
    intro k hk
    exact if_pos ⟨k, hk, rfl⟩

/-- And no larger block at its address is blank. -/
theorem le_of_blank_onlyBlank {base s' : Nat} (hs' : s' < 2 ^ 32) (hd : 4 ∣ s) (hd' : 4 ∣ s')
    (h : ∀ k < s' / 4, (onlyBlank chip base s).array (wrap32 (base + 4 * k)) = 0xFFFFFFFF) : s' ≤ s := by
  by_contra hlt
  have hword := h (s / 4) (by omega)
  have hnone : ¬ ∃ k < s / 4, wrap32 (base + 4 * (s / 4)) = wrap32 (base + 4 * k) := by
    rintro ⟨k, hk, heq⟩
    simp only [wrap32] at heq
    omega
  simp only [onlyBlank, if_neg hnone] at hword
  exact absurd hword (by decide)

/-- A chip that holds no blank word. -/
def fullChip (table : Nat → UInt16) : Chip := ⟨table, fun _ => 0, fun _ => 0⟩

theorem noneUsable_fullChip (table : Nat → UInt16) : NoneUsable (fullChip table) := by
  intro flash hprobe hsuitable o s hlaid
  by_contra husable
  obtain ⟨neighbor, hneighbor⟩ := Option.ne_none_iff_exists'.mp husable
  have hprobed := probed_of_cfiProbe hprobe
  have h := usable_of_blockIsUsable (suitable_of_eq_true hprobed hsuitable)
    (blockSizes_read hprobed hlaid.mem).2 hneighbor
  have height := eight_le_writeBufferSize (suitable_of_eq_true hprobed hsuitable)
  have hbuffer := h.buffer_le
  have hword : (0 : UInt32) = 0xFFFFFFFF := h.blank 0 (by omega)
  exact absurd hword (by decide)

/-- Chips with these tables, one of them chosen and the others without a blank block. -/
theorem exists_chips {tables : List (Nat → UInt16)} (h : chip.query ∈ tables) :
    ∃ before after, (before ++ chip :: after).map Chip.query = tables ∧ ∀ other ∈ before, NoneUsable other := by
  obtain ⟨before, after, rfl⟩ := List.append_of_mem h
  refine ⟨before.map fullChip, after.map fullChip, ?_, ?_⟩
  · simp [Function.comp_def, fullChip]
  · intro other hother
    obtain ⟨table, -, rfl⟩ := List.mem_map.mp hother
    exact noneUsable_fullChip table

/-! ### The condition -/

/-- The blocks in front of one in the walk are blocks of the table. -/
theorem mem_blockSizes_of_front {front back : List Nat} (hsizes : flash.blockSizes = front ++ s :: back) :
    ∀ x ∈ front, x ∈ flash.blockSizes :=
  fun _ hx => hsizes ▸ List.mem_append_left _ hx

/-- What the search returns of a chip with one blank block. -/
theorem firstUsable_onlyBlank {before : List Chip} (after : List Chip) {front back : List Nat}
    (hbefore : ∀ other ∈ before, NoneUsable other) (hprobe : cfiProbe chip .zero = some flash)
    (hsuitable : suitable flash = true) (hfinds : FindsEveryBlock flash)
    (hsizes : flash.blockSizes = front ++ s :: back) (heligible : Eligible flash front.sum s)
    (hfirst : ∀ o s', LaidAt front o s' → Eligible flash o s' →
      (blockAt flash o s').base = (blockAt flash front.sum s).base → s < s') :
    let chosen := onlyBlank chip (blockAt flash front.sum s).base s
    FirstUsable (before ++ chosen :: after) chosen flash front.sum s := by
  intro chosen
  have hprobed := probed_of_cfiProbe hprobe
  have hgood := suitable_of_eq_true hprobed hsuitable
  have hlaid : LaidAt flash.blockSizes front.sum s := hsizes ▸ LaidAt.intro front s back
  have hs := (blockSizes_read hprobed hlaid.mem).2
  have hmod := base_blockAt_mod hprobed (fun _ hx => hx) hlaid
  have hfour : ∀ x ∈ flash.blockSizes, 4 ∣ x :=
    fun x hx => Nat.dvd_trans (by decide) (blockSizes_read hprobed hx).1
  constructor
  case chips_before => exact ⟨before, after, rfl, hbefore⟩
  case probed => exact (cfiProbe_onlyBlank _).trans hprobe
  case suitable => exact hsuitable
  case blocks_before =>
    refine ⟨front, back, hsizes, rfl, fun o s' hlaid' => ?_⟩
    by_contra husable
    obtain ⟨neighbor, hneighbor⟩ := Option.ne_none_iff_exists'.mp husable
    have hmem := mem_blockSizes_of_front hsizes s' hlaid'.mem
    have hs' := (blockSizes_read hprobed hmem).2
    obtain ⟨heligible', hchip⟩ := eligible_of_blockIsUsable hgood hfinds hs' hneighbor
    have hbase : (blockAt flash o s').base = (blockAt flash front.sum s).base :=
      base_eq_of_unlocked (Nat.mod_lt _ (by decide)) (Nat.mod_lt _ (by decide))
        (base_blockAt_mod hprobed (mem_blockSizes_of_front hsizes) hlaid') hchip.unlocked
    have hlt := hfirst o s' hlaid' heligible' hbase
    have hblank := hchip.blank
    rw [hbase] at hblank
    exact absurd (le_of_blank_onlyBlank hs' (hfour s hlaid.mem) (hfour s' hmem) hblank) (Nat.not_le.mpr hlt)
  case usable => exact heligible.usable hgood hfinds hs (unlockedBlank_onlyBlank hmod)

theorem regular_of_sum_lt {regions : List EraseRegion} {size start : Nat}
    (hpos : ∀ region ∈ regions, 0 < region.blockSize) (hsum : start + (sizesOf regions).sum < 2 ^ 32) :
    Regular size start regions := by
  induction regions generalizing start with
  | nil => exact trivial
  | cons region regions ih =>
      rw [sizesOf, List.flatMap_cons, List.sum_append, sum_replicate_region, ← sizesOf] at hsum
      have hregion := hpos region List.mem_cons_self
      rw [Regular]
      by_cases hout : size ≤ start
      · rw [if_pos hout]
        exact trivial
      · rw [if_neg hout, if_neg (Nat.ne_of_gt hregion), if_pos (by omega)]
        exact ih (fun r hr => hpos r (List.mem_cons_of_mem region hr)) (by omega)

/-- In a table that ends inside the device, so does every block. -/
theorem returnsInside_of_sum_le (hsuitable : Suitable flash) (hsum : flash.blockSizes.sum ≤ flash.size) :
    ReturnsInside flash := by
  intro front s back hsizes heligible _
  have hlaid : LaidAt flash.blockSizes front.sum s := hsizes ▸ LaidAt.intro front s back
  have hend := hlaid.end_le.trans hsum
  refine ⟨hend, fun hup => ?_⟩
  have hsetup := setupAddress_blockAt hsuitable.toProbed hend
  obtain ⟨n, hpartner, -, -, habort⟩ := heligible.partner
  have hnend : n + s ≤ flash.blockSizes.sum := hpartner.end_le
  obtain ⟨k, hk⟩ := heligible.size_pow
  have hxor := xor_two_pow (setupAddress flash (blockAt flash front.sum s)) k
  rw [← hk] at hxor
  rcases hxor with hupward | hdownward
  · change abortAddress flash (blockAt flash front.sum s) = _ + s at hupward
    omega
  · change setupAddress flash (blockAt flash front.sum s) = abortAddress flash (blockAt flash front.sum s) + s
      at hdownward
    omega

/-- Where no table has an empty block or goes beyond its device, the search does what it is for. -/
theorem tablesAllow_of_sum_le {tables : List (Nat → UInt16)}
    (h : ∀ chip : Chip, chip.query ∈ tables → ∀ flash, cfiProbe chip .zero = some flash →
      (∀ region ∈ flash.erase, 0 < region.blockSize) ∧ flash.blockSizes.sum ≤ flash.size) :
    TablesAllow tables := by
  constructor
  case regular =>
    intro chip hmem flash hprobe
    obtain ⟨hpos, hsum⟩ := h chip hmem flash hprobe
    have hsize := (probed_of_cfiProbe hprobe).size_le
    have hlt : flash.blockSizes.sum < 2 ^ 32 := by omega
    exact regular_of_sum_lt (fun r hr => hpos r (List.mem_of_mem_take hr)) (by rwa [Nat.zero_add])
  case inside =>
    intro chip hmem flash hprobe hsuitable
    exact returnsInside_of_sum_le (suitable_of_eq_true (probed_of_cfiProbe hprobe) hsuitable)
      (h chip hmem flash hprobe).2

/-! ### Instances -/

/-- Two blocks of 1 MiB. -/
def twoDevicesWords : Nat → UInt16
  | 0x2C => 1
  | 0x2D => 1
  | 0x30 => 0x10
  | word => commonWords word

theorem cfiRangeIsBlank_blankChip (words : Nat → UInt16) (address size : Nat) :
    (cfiRangeIsBlank wrappingAdd (blankChip words).array address size).run = true := by
  have hrest : ∀ n offset,
      (rangeIsBlankFrom wrappingAdd (blankChip words).array address n offset).run = true := by
    intro n
    induction n with
    | zero => exact fun _ => rfl
    | succ n ih => exact fun offset => ih (wrap32 (offset + 4))
  exact hrest _ 0

/-- The first block has no neighbour in the device. -/
theorem twoDevices_first (chip : Chip) :
    blockIsUsable chip (sampleFlash [⟨2, 2 ^ 20⟩]) ⟨windowBase, 2 ^ 20⟩ = none := rfl

/-- The second one is behind the end of the device, and has one. -/
theorem twoDevices_second (words : Nat → UInt16) :
    blockIsUsable (blankChip words) (sampleFlash [⟨2, 2 ^ 20⟩]) ⟨windowBase + 2 ^ 20, 2 ^ 20⟩
      = some ⟨windowBase, 2 ^ 20⟩ := by
  have hfind : findBlock (sampleFlash [⟨2, 2 ^ 20⟩])
      (abortAddress (sampleFlash [⟨2, 2 ^ 20⟩]) ⟨windowBase + 2 ^ 20, 2 ^ 20⟩)
        = some ⟨windowBase, 2 ^ 20⟩ := by decide
  have hunlocked : (cfiReadLockStatus (blankChip words) (windowBase + 2 ^ 20)).testBit 1 = false := by
    simp [cfiReadLockStatus, cfiReadWord, blankChip]
  rw [blockIsUsable, if_neg (by decide), if_neg (by decide), if_neg (by decide), hfind]
  dsimp only
  rw [if_neg (by decide), hunlocked, if_neg (by decide), cfiRangeIsBlank_blankChip, if_pos rfl]

end Pmb887x.CfiIntel
