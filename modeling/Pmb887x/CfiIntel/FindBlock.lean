import Pmb887x.CfiIntel.BufferAbort
import Pmb887x.Library.Layout

set_option autoImplicit false

/-! # The block that contains an address

`find_block` goes through the regions with a base that wraps at 2³², and gives up at a region whose blocks
are empty or whose size does not fit. -/

namespace Pmb887x.CfiIntel

open Library

/-! ## The geometry -/

/-- The number of bytes of a region. -/
def EraseRegion.size (region : EraseRegion) : Nat := region.blocks * region.blockSize

/-- The sizes of the blocks of some regions. -/
def sizesOf (regions : List EraseRegion) : List Nat :=
  regions.flatMap fun region => List.replicate region.blocks region.blockSize

/-- The block that begins at `o` contains the address `flash->base + a`. -/
structure Contains (flash : FlashDevice) (a : Nat) (block : Block) (o : Nat) : Prop where
  laid : LaidAt flash.blockSizes o block.size
  base_eq : block.base = flash.base + o
  le : o ≤ a
  lt : a < o + block.size

/-- `find_block` returns the one block that contains it, for every address of the device in the geometry. -/
def FindsEveryBlock (flash : FlashDevice) : Prop :=
  ∀ a < flash.size, a < flash.blockSizes.sum →
    ∃ block, findBlock flash (flash.base + a) = some block ∧ (∃ o, Contains flash a block o) ∧
      ∀ block' o, Contains flash a block' o → block' = block

/-- The rest of the device, from an address in a region with blocks of `blockSize` on, is cut into the same
blocks by regions that are laid from `w` on modulo 2³². -/
def Resumes (size blockSize : Nat) : (start w : Nat) → List EraseRegion → Prop
  | _, _, [] => False
  | start, w, region :: regions =>
      0 < region.blockSize ∧ region.size < 2 ^ 32 ∧
        if wrap32 (w + region.size) ≤ start then
          Resumes size blockSize start (wrap32 (w + region.size)) regions
        else
          region.blockSize = blockSize ∧ blockSize ∣ start - w ∧
            (size ≤ wrap32 (w + region.size) ∨
              Resumes size blockSize (wrap32 (w + region.size)) (wrap32 (w + region.size)) regions)

/-- What `find_block` needs of the regions that are laid from `start` on: none that begins inside the device
is empty, except behind the last block, and one that reaches 2³² is resumed by those behind it. -/
def Regular (size : Nat) : (start : Nat) → List EraseRegion → Prop
  | _, [] => True
  | start, region :: regions =>
      if size ≤ start then True
      else if region.blockSize = 0 then ∀ other ∈ regions, other.blockSize = 0
      else if start + region.size < 2 ^ 32 then Regular size (start + region.size) regions
      else region.size < 2 ^ 32 ∧
        Resumes size region.blockSize start (start + region.size - 2 ^ 32) regions

/-! ## The search on offsets -/

/-- The loop of `find_block` over the offsets from `flash->base`: where the block begins, and its size. -/
def lookup : (w : Nat) → List EraseRegion → (a : Nat) → Option (Nat × Nat)
  | _, [], _ => none
  | w, region :: regions, a =>
      if region.blockSize = 0 ∨ 2 ^ 32 ≤ region.size then none
      else if a < wrap32 (w + region.size) then
        some (w + (a - w) / region.blockSize * region.blockSize, region.blockSize)
      else lookup (wrap32 (w + region.size)) regions a

variable {flash : FlashDevice} {regions : List EraseRegion} {region : EraseRegion}
  {size blockSize start w a o s : Nat}

/-- The test for a size that does not fit finds every overflow. -/
theorem region_overflow_iff (hread : region.Read) (hpos : region.blockSize ≠ 0) :
    wrap32 (region.blocks * region.blockSize) / region.blockSize ≠ region.blocks
      ↔ 2 ^ 32 ≤ region.size := by
  have hblockSize := hread.blockSize_lt
  rw [EraseRegion.size]
  constructor
  · intro h
    by_contra hlt
    rw [wrap32_of_lt (Nat.lt_of_not_le hlt), Nat.mul_div_cancel _ (Nat.pos_of_ne_zero hpos)] at h
    exact h rfl
  · intro hle heq
    -- a quotient of `blocks` needs the whole product
    have hmul := Nat.div_mul_le_self (wrap32 (region.blocks * region.blockSize)) region.blockSize
    rw [heq] at hmul
    have hlt : wrap32 (region.blocks * region.blockSize) < 2 ^ 32 := Nat.mod_lt _ (by decide)
    omega

theorem sub32_base_add (hbase : flash.base = windowBase) (ha : a < 2 ^ 27) (hw : w ≤ a) :
    sub32 (flash.base + a) (flash.base + w) = a - w := by
  rw [hbase, windowBase, sub32_of_le (by omega) (by omega)]
  omega

/-- The loop of the source is the one on offsets. -/
theorem findBlockFrom_eq (hbase : flash.base = windowBase) (hread : ∀ region ∈ regions, region.Read)
    (ha : a < 2 ^ 27) (hw : w ≤ a) :
    findBlockFrom flash (flash.base + a) (flash.base + w) regions =
      (lookup w regions a).map fun found => ⟨flash.base + found.1, found.2⟩ := by
  induction regions generalizing w with
  | nil => rfl
  | cons region regions ih =>
      have hoffset : sub32 (flash.base + a) flash.base = a :=
        sub32_base_add (w := 0) hbase ha (Nat.zero_le a)
      have hstart : sub32 (flash.base + w) flash.base = w :=
        sub32_base_add (w := 0) hbase (Nat.lt_of_le_of_lt hw ha) (Nat.zero_le w)
      rw [findBlockFrom, lookup, hoffset, hstart, sub32_base_add hbase ha hw]
      by_cases hempty : region.blockSize = 0
      · rw [if_pos (Or.inl hempty), if_pos (Or.inl hempty)]
        rfl
      by_cases hlarge : 2 ^ 32 ≤ region.size
      · have hfails := (region_overflow_iff (hread region List.mem_cons_self) hempty).mpr hlarge
        rw [if_pos (Or.inr hfails), if_pos (Or.inr hlarge)]
        rfl
      have hfits := (region_overflow_iff (hread region List.mem_cons_self) hempty).not.mpr hlarge
      have hsize : wrap32 (region.blocks * region.blockSize) = region.size :=
        wrap32_of_lt (Nat.lt_of_not_le hlarge)
      rw [if_neg (not_or.mpr ⟨hempty, hfits⟩), if_neg (not_or.mpr ⟨hempty, hlarge⟩), hsize]
      by_cases hlt : a < wrap32 (w + region.size)
      · rw [if_pos hlt, if_pos hlt, Option.map_some]
        have hmul := Nat.div_mul_le_self (a - w) region.blockSize
        rw [wrap32_of_lt (by rw [hbase, windowBase]; omega), Nat.add_assoc]
      · rw [if_neg hlt, if_neg hlt]
        have hnext : wrap32 (flash.base + w + region.size) = flash.base + wrap32 (w + region.size) := by
          rw [hbase, windowBase]
          simp only [wrap32] at hlt ⊢
          omega
        rw [hnext]
        exact ih (fun r hr => hread r (List.mem_cons_of_mem region hr)) (Nat.le_of_not_lt hlt)

theorem findBlock_eq (hprobed : Probed flash) (ha : a < flash.size) :
    findBlock flash (flash.base + a) = (lookup 0 (flash.erase.take flash.regions) a).map
      fun found => ⟨flash.base + found.1, found.2⟩ := by
  have hsize := hprobed.size_le
  have hoffset : sub32 (flash.base + a) flash.base = a :=
    sub32_base_add (w := 0) hprobed.base_eq (by omega) (Nat.zero_le a)
  rw [findBlock, hoffset, if_neg (by omega)]
  exact findBlockFrom_eq (w := 0) hprobed.base_eq
    (fun r hr => hprobed.erase r (List.mem_of_mem_take hr)) (by omega) (Nat.zero_le a)

/-! ## The regions that it needs -/

/-- Two grids of one block size that share a point. -/
theorem grid_eq (hpos : 0 < blockSize) (hw : w ≤ start) (hstart : start ≤ a)
    (hd : blockSize ∣ start - w) :
    w + (a - w) / blockSize * blockSize = start + (a - start) / blockSize * blockSize := by
  obtain ⟨k, hk⟩ := hd
  have hsplit : a - w = a - start + blockSize * k := by omega
  rw [hsplit, Nat.add_mul_div_left _ _ hpos, Nat.add_mul, Nat.mul_comm k]
  omega

theorem lookup_cons_of_le (hpos : 0 < region.blockSize) (hfits : region.size < 2 ^ 32)
    (ha : wrap32 (w + region.size) ≤ a) :
    lookup w (region :: regions) a = lookup (wrap32 (w + region.size)) regions a := by
  rw [lookup, if_neg (by omega), if_neg (Nat.not_lt.mpr ha)]

theorem lookup_cons_of_lt (hpos : 0 < region.blockSize) (hfits : region.size < 2 ^ 32)
    (ha : a < wrap32 (w + region.size)) :
    lookup w (region :: regions) a =
      some (w + (a - w) / region.blockSize * region.blockSize, region.blockSize) := by
  rw [lookup, if_neg (by omega), if_pos ha]

theorem lookup_cons_of_unfit (h : region.blockSize = 0 ∨ 2 ^ 32 ≤ region.size) :
    lookup w (region :: regions) a = none := by
  rw [lookup, if_pos h]

theorem resumes_iff (hpos : 0 < blockSize) (hw : w ≤ start) (hstart : start < size) :
    (∀ a, start ≤ a → a < size →
        lookup w regions a = some (start + (a - start) / blockSize * blockSize, blockSize))
      ↔ Resumes size blockSize start w regions := by
  induction regions generalizing start w with
  | nil =>
      rw [Resumes, iff_false]
      intro h
      cases h start (Nat.le_refl start) hstart
  | cons region regions ih =>
      rw [Resumes]
      by_cases hunfit : region.blockSize = 0 ∨ 2 ^ 32 ≤ region.size
      · constructor
        · intro h
          have hstart := h start (Nat.le_refl start) hstart
          rw [lookup_cons_of_unfit hunfit] at hstart
          cases hstart
        · rintro ⟨hregion, hfits, -⟩
          omega
      have hregion : 0 < region.blockSize := by omega
      have hfits : region.size < 2 ^ 32 := by omega
      by_cases hend : wrap32 (w + region.size) ≤ start
      · rw [if_pos hend, ← ih hend hstart]
        constructor
        · intro h
          refine ⟨hregion, hfits, fun a ha hlt => ?_⟩
          rw [← lookup_cons_of_le hregion hfits (hend.trans ha), h a ha hlt]
        · rintro ⟨-, -, h⟩ a ha hlt
          rw [lookup_cons_of_le hregion hfits (hend.trans ha), h a ha hlt]
      · -- this region holds `start`
        have hlt : start < wrap32 (w + region.size) := Nat.lt_of_not_le hend
        have hnowrap : wrap32 (w + region.size) = w + region.size := by
          simp only [wrap32] at hlt ⊢
          omega
        have hgrid : ∀ {a}, blockSize ∣ region.size → blockSize ∣ start - w → w + region.size ≤ a →
            start + (a - start) / blockSize * blockSize
              = w + region.size + (a - (w + region.size)) / blockSize * blockSize := by
          intro a hdsize hd ha
          have hdend : blockSize ∣ w + region.size - start := by
            have hsplit : w + region.size - start = region.size - (start - w) := by omega
            rw [hsplit]
            exact Nat.dvd_sub hdsize hd
          exact grid_eq hpos (by omega) ha hdend
        rw [if_neg hend, hnowrap]
        rw [hnowrap] at hlt
        constructor
        · intro h
          have hfirst := h start (Nat.le_refl start) hstart
          rw [lookup_cons_of_lt hregion hfits (by rwa [hnowrap]), Nat.sub_self, Nat.zero_div,
            Nat.zero_mul, Nat.add_zero, Option.some.injEq, Prod.mk.injEq] at hfirst
          obtain ⟨hpoint, rfl⟩ := hfirst
          have hd : region.blockSize ∣ start - w :=
            ⟨(start - w) / region.blockSize, by rw [Nat.mul_comm]; omega⟩
          refine ⟨hregion, hfits, rfl, hd, ?_⟩
          by_cases hall : size ≤ w + region.size
          · exact Or.inl hall
          · refine Or.inr ((ih (Nat.le_refl _) (Nat.lt_of_not_le hall)).mp fun a ha halt => ?_)
            have hrest := h a (by omega) halt
            rw [lookup_cons_of_le hregion hfits (hnowrap.le.trans ha), hnowrap,
              hgrid (Nat.dvd_mul_left _ _) hd ha] at hrest
            exact hrest
        · rintro ⟨-, -, rfl, hd, hrest⟩ a ha halt
          by_cases hin : a < w + region.size
          · rw [lookup_cons_of_lt hregion hfits (by rwa [hnowrap]), grid_eq hregion hw ha hd]
          · have hle := Nat.le_of_not_lt hin
            rcases hrest with hall | hrest
            · omega
            · rw [lookup_cons_of_le hregion hfits (hnowrap.le.trans hle), hnowrap,
                hgrid (Nat.dvd_mul_left _ _) hd hle]
              exact (ih (Nat.le_refl _) (by omega)).mpr hrest a hle halt

theorem sum_replicate_region (region : EraseRegion) :
    (List.replicate region.blocks region.blockSize).sum = region.size :=
  List.sum_replicate_nat

/-- In the first region. -/
theorem laidAt_first (hpos : 0 < region.blockSize) (ha : a < region.size) :
    (LaidAt (sizesOf (region :: regions)) o s ∧ o ≤ a ∧ a < o + s) ↔
      o = a / region.blockSize * region.blockSize ∧ s = region.blockSize := by
  rw [sizesOf, List.flatMap_cons]
  exact LaidAt.replicate_append_iff hpos ha

/-- Behind the first region. -/
theorem laidAt_behind (ha : region.size ≤ a) :
    (LaidAt (sizesOf (region :: regions)) o s ∧ o ≤ a ∧ a < o + s) ↔
      region.size ≤ o ∧ LaidAt (sizesOf regions) (o - region.size) s ∧ o ≤ a ∧ a < o + s := by
  rw [sizesOf, List.flatMap_cons, LaidAt.append_iff, sum_replicate_region]
  constructor
  · rintro ⟨hlaid | ⟨hle, hlaid⟩, ho, hlt⟩
    · have hend := hlaid.end_le
      rw [sum_replicate_region] at hend
      omega
    · exact ⟨hle, hlaid, ho, hlt⟩
  · rintro ⟨hle, hlaid, ho, hlt⟩
    exact ⟨Or.inr ⟨hle, hlaid⟩, ho, hlt⟩

/-- The search finds every block of these regions that begins inside the device. -/
def LooksUp (size start : Nat) (regions : List EraseRegion) : Prop :=
  ∀ a o s, a < size → start ≤ a → LaidAt (sizesOf regions) o s ∧ o ≤ a - start ∧ a - start < o + s →
    lookup start regions a = some (start + o, s)

theorem looksUp_of_empty (hempty : region.blockSize = 0) (hstart : start < size)
    (hread : ∀ r ∈ regions, r.Read) :
    LooksUp size start (region :: regions) ↔ ∀ other ∈ regions, other.blockSize = 0 := by
  have hzero : region.size = 0 := by rw [EraseRegion.size, hempty, Nat.mul_zero]
  constructor
  · intro h other hother
    by_contra hother0
    -- the address at the start is in a block behind the empty ones
    have hmem : other.blockSize ∈ sizesOf (region :: regions) := by
      refine List.mem_flatMap.mpr ⟨other, List.mem_cons_of_mem region hother, ?_⟩
      exact List.mem_replicate.mpr ⟨Nat.ne_of_gt (hread other hother).blocks_pos, rfl⟩
    have hsum : 0 < (sizesOf (region :: regions)).sum :=
      Nat.lt_of_lt_of_le (Nat.pos_of_ne_zero hother0) (List.le_sum_of_mem hmem)
    obtain ⟨o, s, hlaid, ho, hlt⟩ := LaidAt.exists_of_lt_sum hsum
    have hfound := h start o s hstart (Nat.le_refl start) (by rw [Nat.sub_self]; exact ⟨hlaid, ho, hlt⟩)
    rw [lookup_cons_of_unfit (Or.inl hempty)] at hfound
    cases hfound
  · rintro hall a o s - - ⟨hlaid, ho, hlt⟩
    obtain ⟨other, hother, hs⟩ := List.mem_flatMap.mp hlaid.mem
    have hs0 : s = other.blockSize := (List.mem_replicate.mp hs).2
    rcases List.mem_cons.mp hother with rfl | hother
    · omega
    · have h0 := hall other hother
      omega

theorem looksUp_of_lt (hpos : 0 < region.blockSize) (hend : start + region.size < 2 ^ 32) :
    LooksUp size start (region :: regions) ↔ LooksUp size (start + region.size) regions := by
  have hnowrap : wrap32 (start + region.size) = start + region.size := wrap32_of_lt hend
  have hfits : region.size < 2 ^ 32 := by omega
  constructor
  · rintro h a o s ha hle ⟨hlaid, ho, hlt⟩
    have hfound := h a (region.size + o) s ha (by omega)
      ((laidAt_behind (by omega)).mpr ⟨Nat.le_add_right _ o, by rwa [Nat.add_sub_cancel_left],
        by omega, by omega⟩)
    rw [lookup_cons_of_le hpos hfits (hnowrap.le.trans hle), hnowrap] at hfound
    rw [hfound, Nat.add_assoc]
  · intro h a o s ha hle hblock
    by_cases hin : a - start < region.size
    · obtain ⟨rfl, rfl⟩ := (laidAt_first hpos hin).mp hblock
      exact lookup_cons_of_lt hpos hfits (by rw [hnowrap]; omega)
    · obtain ⟨hbehind, hlaid, ho, hlt⟩ := (laidAt_behind (Nat.le_of_not_lt hin)).mp hblock
      rw [lookup_cons_of_le hpos hfits (by rw [hnowrap]; omega), hnowrap,
        h a (o - region.size) s ha (by omega) ⟨hlaid, by omega, by omega⟩]
      congr 2
      omega

theorem looksUp_of_le (hpos : 0 < region.blockSize) (hend : 2 ^ 32 ≤ start + region.size)
    (hstart : start < size) (hsize : size < 2 ^ 32) :
    LooksUp size start (region :: regions) ↔ region.size < 2 ^ 32 ∧
      Resumes size region.blockSize start (start + region.size - 2 ^ 32) regions := by
  -- the rest of the device is in this region
  have hall : LooksUp size start (region :: regions) ↔ ∀ a, start ≤ a → a < size →
      lookup start (region :: regions) a
        = some (start + (a - start) / region.blockSize * region.blockSize, region.blockSize) := by
    constructor
    · intro h a hle ha
      exact h a _ _ ha hle ((laidAt_first hpos (by omega)).mpr ⟨rfl, rfl⟩)
    · intro h a o s ha hle hblock
      obtain ⟨rfl, rfl⟩ := (laidAt_first hpos (by omega)).mp hblock
      exact h a hle ha
  rw [hall]
  by_cases hfits : region.size < 2 ^ 32
  · have hwrap : wrap32 (start + region.size) = start + region.size - 2 ^ 32 := by
      rw [wrap32]
      omega
    have hle : wrap32 (start + region.size) ≤ start := by omega
    rw [← hwrap, ← resumes_iff hpos hle hstart]
    constructor
    · intro h
      refine ⟨hfits, fun a ha hlt => ?_⟩
      rw [← lookup_cons_of_le hpos hfits (hle.trans ha), h a ha hlt]
    · rintro ⟨-, h⟩ a ha hlt
      rw [lookup_cons_of_le hpos hfits (hle.trans ha), h a ha hlt]
  · constructor
    · intro h
      have hfound := h start (Nat.le_refl start) hstart
      rw [lookup_cons_of_unfit (Or.inr (Nat.le_of_not_lt hfits))] at hfound
      cases hfound
    · exact fun h => absurd h.1 hfits

theorem looksUp_iff (hread : ∀ r ∈ regions, r.Read) (hsize : size < 2 ^ 32) :
    LooksUp size start regions ↔ Regular size start regions := by
  induction regions generalizing start with
  | nil =>
      rw [Regular, iff_true]
      exact fun a o s _ _ h => absurd h.1 LaidAt.not_nil
  | cons region regions ih =>
      rw [Regular]
      by_cases hout : size ≤ start
      · rw [if_pos hout, iff_true]
        intro a o s ha hle
        omega
      · have hstart := Nat.lt_of_not_le hout
        have hread' : ∀ r ∈ regions, r.Read := fun r hr => hread r (List.mem_cons_of_mem region hr)
        rw [if_neg hout]
        by_cases hempty : region.blockSize = 0
        · rw [if_pos hempty]
          exact looksUp_of_empty hempty hstart hread'
        · have hpos := Nat.pos_of_ne_zero hempty
          rw [if_neg hempty]
          by_cases hend : start + region.size < 2 ^ 32
          · rw [if_pos hend, looksUp_of_lt hpos hend, ih hread']
          · rw [if_neg hend, looksUp_of_le hpos (Nat.le_of_not_lt hend) hstart hsize]

/-- Behind the last block nothing is found. -/
theorem lookup_eq_none (ha : a < 2 ^ 32) (hend : start + (sizesOf regions).sum ≤ a) :
    lookup start regions a = none := by
  induction regions generalizing start with
  | nil => rfl
  | cons region regions ih =>
      rw [sizesOf, List.flatMap_cons, List.sum_append, sum_replicate_region, ← sizesOf] at hend
      by_cases hunfit : region.blockSize = 0 ∨ 2 ^ 32 ≤ region.size
      · exact lookup_cons_of_unfit hunfit
      · have hnowrap : wrap32 (start + region.size) = start + region.size := wrap32_of_lt (by omega)
        rw [lookup_cons_of_le (by omega) (by omega) (by rw [hnowrap]; omega), hnowrap]
        exact ih (by omega)

/-! ## What `find_block` returns -/

theorem Contains.unique {block block' : Block} {o' : Nat} (h : Contains flash a block o)
    (h' : Contains flash a block' o') : block' = block := by
  obtain ⟨ho, hs⟩ := h'.laid.unique h.laid h'.le h'.lt h.le h.lt
  exact Block.ext (by rw [h'.base_eq, h.base_eq, ho]) hs

/-- **Which blocks `find_block` finds.** -/
theorem findsEveryBlock_iff_regular (hprobed : Probed flash) :
    FindsEveryBlock flash ↔ Regular flash.size 0 (flash.erase.take flash.regions) := by
  have hsize := hprobed.size_le
  rw [← looksUp_iff (fun r hr => hprobed.erase r (List.mem_of_mem_take hr)) (by omega)]
  constructor
  · intro h a o s ha _ hblock
    rw [Nat.sub_zero] at hblock
    obtain ⟨hlaid, ho, hlt⟩ := hblock
    have hend := hlaid.end_le
    obtain ⟨block, hfind, -, hunique⟩ := h a ha (Nat.lt_of_lt_of_le hlt hend)
    have hsame := hunique ⟨flash.base + o, s⟩ o ⟨hlaid, rfl, ho, hlt⟩
    rw [findBlock_eq hprobed ha, ← hsame, Option.map_eq_some_iff] at hfind
    obtain ⟨⟨o', s'⟩, hlookup, hfound⟩ := hfind
    simp only [Block.mk.injEq] at hfound
    rw [hlookup, Nat.zero_add, Nat.add_left_cancel hfound.1, hfound.2]
  · intro h a ha hsum
    obtain ⟨o, s, hlaid, ho, hlt⟩ := LaidAt.exists_of_lt_sum hsum
    have hlookup := h a o s ha (Nat.zero_le a) ⟨hlaid, ho, hlt⟩
    have hcontains : Contains flash a ⟨flash.base + o, s⟩ o := ⟨hlaid, rfl, ho, hlt⟩
    refine ⟨_, ?_, ⟨o, hcontains⟩, fun block' o' h' => hcontains.unique h'⟩
    rw [findBlock_eq hprobed ha, hlookup, Option.map_some, Nat.zero_add]

/-- What it returns contains the address, which is in the device. -/
theorem contains_of_findBlock (hprobed : Probed flash) (hfinds : FindsEveryBlock flash) {address : Nat}
    (haddress : address < 2 ^ 32) {block : Block} (h : findBlock flash address = some block) :
    ∃ a o, address = flash.base + a ∧ a < flash.size ∧ Contains flash a block o := by
  have hsize := hprobed.size_le
  have hinside : ¬ (address < flash.base ∨ flash.size ≤ sub32 address flash.base) := by
    intro hout
    rw [findBlock, if_pos hout] at h
    cases h
  rw [not_or, Nat.not_lt, Nat.not_le] at hinside
  rw [sub32_of_le hinside.1 haddress] at hinside
  obtain ⟨a, rfl⟩ := Nat.exists_eq_add_of_le hinside.1
  rw [Nat.add_sub_cancel_left] at hinside
  refine ⟨a, ?_⟩
  by_cases hsum : a < flash.blockSizes.sum
  · obtain ⟨block', hfind, ⟨o, hcontains⟩, -⟩ := hfinds a hinside.2 hsum
    rw [h, Option.some.injEq] at hfind
    exact ⟨o, rfl, hinside.2, hfind ▸ hcontains⟩
  · have hnone : lookup 0 (flash.erase.take flash.regions) a = none :=
      lookup_eq_none (by omega) (by rw [Nat.zero_add]; exact Nat.le_of_not_lt hsum)
    rw [findBlock_eq hprobed hinside.2, hnone] at h
    cases h

end Pmb887x.CfiIntel
