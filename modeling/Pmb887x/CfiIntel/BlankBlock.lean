import Pmb887x.CfiIntel.Cfi
import Pmb887x.Library.Checked
import Pmb887x.Library.Layout

set_option autoImplicit false

/-! # A blank block to test with (`cfi_find_blank_block` of `unit/cfi-intel/cfi.c`)

The write test erases a block that it has found blank. The search goes through the device in steps of the
alignment and through the blocks of the table for each step that is blank. The additions are checked ones here,
so that one that wraps is a fault. -/

namespace Pmb887x.CfiIntel

open Library

/-! ## The search -/

/-- `inside_blank_range` -/
def insideBlankRange (blankOffset alignment offset blockSize : Nat) : Checked Bool :=
  if blankOffset ≤ offset then do
    let blockEnd ← Checked.add offset blockSize
    let blankEnd ← Checked.add blankOffset alignment
    return decide (blockEnd ≤ blankEnd)
  else return false

/-- `has_next_sample` -/
def hasNextSample (flash : FlashDevice) (offset blockSize : Nat) : Checked Bool := do
  let blockEnd ← Checked.add offset blockSize
  let sampleEnd ← Checked.add blockEnd mapSampleSize
  return decide (sampleEnd ≤ flash.size)

/-- The loops of `cfi_select_erase_block` over the blocks that are left: the block and its size. -/
def cfiSelectEraseBlock (flash : FlashDevice) (blankOffset alignment : Nat) :
    (sizes : List Nat) → (offset : Nat) → Checked (Option (Nat × Nat))
  | [], _ => return none
  | blockSize :: sizes, offset => do
      let inside ← insideBlankRange blankOffset alignment offset blockSize
      let hasPreviousSample := decide (mapSampleSize ≤ offset)
      let hasNext ← hasNextSample flash offset blockSize
      if inside && hasPreviousSample && hasNext then
        let testBlock ← Checked.add flash.base offset
        return some (testBlock, blockSize)
      else
        let offset ← Checked.add offset blockSize
        cfiSelectEraseBlock flash blankOffset alignment sizes offset

/-- The loop of `cfi_find_blank_block` from an offset on; `none` is for false. -/
def findBlankBlockFrom (chip : Chip) (flash : FlashDevice) (alignment : Nat) (halignment : 0 < alignment)
    (offset : Nat) : Checked (Option (Nat × Nat)) :=
  match _hnext : Checked.add offset alignment with
  | .error fault => .error fault
  | .ok next =>
      if _hinside : next ≤ flash.size then do
        let address ← Checked.add flash.base offset
        let blank ← cfiRangeIsBlank Checked.add chip.array address alignment
        let block ← if blank then cfiSelectEraseBlock flash offset alignment flash.blockSizes 0
          else pure none
        if block.isSome then return block
        else findBlankBlockFrom chip flash alignment halignment next
      else return none
termination_by flash.size - offset
decreasing_by
  rw [Checked.add] at _hnext
  split at _hnext
  · cases _hnext
    omega
  · cases _hnext

/-- `SEARCH_ALIGNMENT`, the only one that is passed. -/
def searchAlignment : Nat := 2 ^ 20

def cfiFindBlankBlock (chip : Chip) (flash : FlashDevice) : Checked (Option (Nat × Nat)) :=
  findBlankBlockFrom chip flash searchAlignment (by decide) 0

/-! ## What is looked for -/

/-- The range that the search reads at an offset has no word with a zero bit. -/
def IsBlank (chip : Chip) (flash : FlashDevice) (b : Nat) : Prop :=
  ∀ k < 2 ^ 18, chip.array (flash.base + b + 4 * k) = 0xFFFFFFFF

/-- A block in the range at `b` that leaves room for the samples in front of it and behind it. -/
def Fits (flash : FlashDevice) (b o s : Nat) : Prop :=
  b ≤ o ∧ o + s ≤ b + searchAlignment ∧ mapSampleSize ≤ o ∧ o + s + mapSampleSize ≤ flash.size

instance (flash : FlashDevice) (b o s : Nat) : Decidable (Fits flash b o s) :=
  inferInstanceAs (Decidable (_ ∧ _))

/-- An erase block of the geometry, not empty, inside the device and without data. -/
def BlankBlock (chip : Chip) (flash : FlashDevice) (block size : Nat) : Prop :=
  ∃ o, block = flash.base + o ∧ LaidAt flash.blockSizes o size ∧ 0 < size ∧ o + size ≤ flash.size ∧
    ∀ a, block ≤ a → a < block + size → 4 ∣ a → chip.array a = 0xFFFFFFFF

/-- The search ends, nothing wraps on the way, and what it finds is a blank block. -/
def FindsBlankBlock (chip : Chip) (flash : FlashDevice) : Prop :=
  Safe (cfiFindBlankBlock chip flash) fun found =>
    ∀ block size, found = some (block, size) → BlankBlock chip flash block size

/-! ## One block of the walk -/

variable {chip : Chip} {flash : FlashDevice} {b o s offset : Nat} {sizes front back : List Nat}

theorem insideBlankRange_eq (hb : b + searchAlignment < 2 ^ 32) (h : offset + s < 2 ^ 32) :
    insideBlankRange b searchAlignment offset s
      = .ok (decide (b ≤ offset ∧ offset + s ≤ b + searchAlignment)) := by
  rw [insideBlankRange]
  by_cases hle : b ≤ offset
  · rw [if_pos hle, Checked.add_of_lt h, Checked.add_of_lt hb]
    simp [hle]
  · rw [if_neg hle]
    simp [hle]

theorem hasNextSample_eq (h : offset + s + mapSampleSize < 2 ^ 32) :
    hasNextSample flash offset s = .ok (decide (offset + s + mapSampleSize ≤ flash.size)) := by
  rw [hasNextSample, Checked.add_of_lt (Nat.lt_of_le_of_lt (Nat.le_add_right _ _) h), Checked.ok_bind,
    Checked.add_of_lt h]
  rfl

theorem select_step (hbase : flash.base + flash.size < 2 ^ 32) (hb : b + searchAlignment ≤ flash.size)
    (h : offset + s + mapSampleSize < 2 ^ 32) :
    cfiSelectEraseBlock flash b searchAlignment (s :: sizes) offset =
      if Fits flash b offset s then .ok (some (flash.base + offset, s))
      else cfiSelectEraseBlock flash b searchAlignment sizes (offset + s) := by
  rw [cfiSelectEraseBlock, insideBlankRange_eq (by omega) (by omega), Checked.ok_bind,
    hasNextSample_eq h, Checked.ok_bind]
  have hcondition : (decide (b ≤ offset ∧ offset + s ≤ b + searchAlignment) &&
      decide (mapSampleSize ≤ offset) && decide (offset + s + mapSampleSize ≤ flash.size))
        = decide (Fits flash b offset s) := by
    rw [Bool.eq_iff_iff]
    simp only [Bool.and_eq_true, decide_eq_true_eq]
    rw [Fits, and_assoc, and_assoc]
  rw [hcondition]
  by_cases hfits : Fits flash b offset s
  · have hadd : flash.base + offset < 2 ^ 32 := by
      have hnext := hfits.2.2.2
      omega
    rw [if_pos (decide_eq_true hfits), if_pos hfits, Checked.add_of_lt hadd]
    rfl
  · rw [if_neg (by simpa using hfits), if_neg hfits, Checked.add_of_lt (by omega)]
    rfl

theorem select_step_wrap (hb : b + searchAlignment < 2 ^ 32)
    (h : 2 ^ 32 ≤ offset + s + mapSampleSize) :
    cfiSelectEraseBlock flash b searchAlignment (s :: sizes) offset = .error .wrap := by
  have hnext : hasNextSample flash offset s = .error .wrap := by
    rw [hasNextSample]
    by_cases hend : offset + s < 2 ^ 32
    · rw [Checked.add_of_lt hend, Checked.ok_bind, Checked.add, if_neg (by omega)]
      rfl
    · rw [Checked.add, if_neg hend]
      rfl
  rw [cfiSelectEraseBlock]
  by_cases hend : offset + s < 2 ^ 32
  · rw [insideBlankRange_eq hb hend, Checked.ok_bind, hnext]
    rfl
  · rw [insideBlankRange]
    by_cases hle : b ≤ offset
    · rw [if_pos hle, Checked.add, if_neg hend]
      rfl
    · rw [if_neg hle, Checked.pure_eq, Checked.ok_bind, hnext]
      rfl

/-! ## The walk -/

/-- A first fit is taken. -/
theorem select_of_first (hbase : flash.base + flash.size < 2 ^ 32)
    (hb : b + searchAlignment ≤ flash.size) (hsize : flash.size < 2 ^ 32)
    (hfits : Fits flash b (offset + front.sum) s)
    (hfirst : ∀ o' s', LaidAt front o' s' → ¬ Fits flash b (offset + o') s') :
    cfiSelectEraseBlock flash b searchAlignment (front ++ s :: back) offset
      = .ok (some (flash.base + (offset + front.sum), s)) := by
  have hend := hfits.2.2.2
  induction front generalizing offset with
  | nil =>
      rw [List.sum_nil, Nat.add_zero] at hfits hend ⊢
      rw [List.nil_append, select_step hbase hb (by omega), if_pos hfits]
  | cons x front ih =>
      rw [List.sum_cons, ← Nat.add_assoc] at hfits hend
      rw [List.sum_cons, ← Nat.add_assoc offset]
      have hx : ¬ Fits flash b offset x := hfirst 0 x (LaidAt.cons_iff.mpr (Or.inl ⟨rfl, rfl⟩))
      rw [List.cons_append, select_step hbase hb (by omega), if_neg hx]
      refine ih hfits (fun o' s' h => ?_) hend
      have hlaid : LaidAt (x :: front) (x + o') s' :=
        LaidAt.cons_iff.mpr (Or.inr ⟨Nat.le_add_right x o', by rwa [Nat.add_sub_cancel_left]⟩)
      rw [Nat.add_assoc]
      exact hfirst (x + o') s' hlaid

/-- Without a fit the walk goes to the end of the table, if nothing wraps before. -/
theorem select_of_none (hbase : flash.base + flash.size < 2 ^ 32)
    (hb : b + searchAlignment ≤ flash.size) (hsize : flash.size < 2 ^ 32)
    (hoffset : offset + mapSampleSize < 2 ^ 32)
    (hnone : ∀ o s, LaidAt sizes o s → ¬ Fits flash b (offset + o) s) :
    cfiSelectEraseBlock flash b searchAlignment sizes offset =
      if offset + sizes.sum + mapSampleSize < 2 ^ 32 then .ok none else .error .wrap := by
  induction sizes generalizing offset with
  | nil =>
      rw [List.sum_nil, Nat.add_zero, if_pos hoffset]
      rfl
  | cons x sizes ih =>
      rw [List.sum_cons, ← Nat.add_assoc]
      by_cases hx : offset + x + mapSampleSize < 2 ^ 32
      · have hfits : ¬ Fits flash b offset x := hnone 0 x (LaidAt.cons_iff.mpr (Or.inl ⟨rfl, rfl⟩))
        rw [select_step hbase hb hx, if_neg hfits]
        refine ih hx fun o s h => ?_
        have hlaid : LaidAt (x :: sizes) (x + o) s :=
          LaidAt.cons_iff.mpr (Or.inr ⟨Nat.le_add_right x o, by rwa [Nat.add_sub_cancel_left]⟩)
        rw [Nat.add_assoc]
        exact hnone (x + o) s hlaid
      · rw [select_step_wrap (by omega) (Nat.le_of_not_lt hx), if_neg (by omega)]

/-- Reading a range of the device. -/
theorem rangeIsBlank_eq (h : flash.base + b + searchAlignment < 2 ^ 32) :
    ∃ blank, cfiRangeIsBlank Checked.add chip.array (flash.base + b) searchAlignment = .ok blank ∧
      (blank = true ↔ IsBlank chip flash b) := by
  rw [searchAlignment] at h
  have hwords : (searchAlignment + 3) / 4 = 2 ^ 18 := by decide
  have hblank := @rangeIsBlankFrom_eq Checked _ Checked.add chip.array _ (flash.base + b)
    (fun offset => flash.base + b + offset) (2 ^ 18) 0
    (fun k hk => Checked.add_of_lt (by omega)) (fun k hk => Checked.add_of_lt (by omega))
  rw [cfiRangeIsBlank, hwords]
  refine ⟨_, hblank, ?_⟩
  rw [decide_eq_true_eq]
  simp only [IsBlank, Nat.zero_add]

/-! ## The search -/

/-- One pass of the loop, in a range that is in the device. -/
theorem find_step (halignment : 0 < searchAlignment) (hbase : flash.base + flash.size < 2 ^ 32)
    (hb : b + searchAlignment ≤ flash.size) {selected : Checked (Option (Nat × Nat))}
    (hselected : (IsBlank chip flash b ∧
        selected = cfiSelectEraseBlock flash b searchAlignment flash.blockSizes 0) ∨
      ¬ IsBlank chip flash b ∧ selected = .ok none) :
    findBlankBlockFrom chip flash searchAlignment halignment b =
      (selected >>= fun block => if block.isSome then .ok block
        else findBlankBlockFrom chip flash searchAlignment halignment (b + searchAlignment)) := by
  have hadd : Checked.add b searchAlignment = .ok (b + searchAlignment) :=
    Checked.add_of_lt (by omega)
  obtain ⟨blank, hread, hblank⟩ := @rangeIsBlank_eq chip flash b (by omega)
  rw [findBlankBlockFrom]
  split
  · next fault hnext =>
      rw [hadd] at hnext
      cases hnext
  · next next hnext =>
      rw [hadd] at hnext
      cases hnext
      rw [dif_pos hb, Checked.add_of_lt (by omega), Checked.ok_bind, hread, Checked.ok_bind]
      rcases hselected with ⟨h, rfl⟩ | ⟨h, rfl⟩
      · rw [if_pos (hblank.mpr h)]
        rfl
      · rw [if_neg (by rwa [hblank])]
        rfl

theorem find_done (halignment : 0 < searchAlignment) (hb : ¬ b + searchAlignment ≤ flash.size)
    (hlt : b + searchAlignment < 2 ^ 32) :
    findBlankBlockFrom chip flash searchAlignment halignment b = .ok none := by
  rw [findBlankBlockFrom]
  split
  · next fault hnext =>
      rw [Checked.add_of_lt hlt] at hnext
      cases hnext
  · next next hnext =>
      rw [Checked.add_of_lt hlt] at hnext
      cases hnext
      rw [dif_neg hb]
      rfl

/-- Some block of the table fits. -/
def HasFit (flash : FlashDevice) (b : Nat) : Prop :=
  ∃ o s, LaidAt flash.blockSizes o s ∧ Fits flash b o s

/-- What the search needs of a blank range that it selects in: the first block that fits is not empty, and a
table without one is passed through without wrapping. -/
def SelectsBlock (flash : FlashDevice) (b : Nat) : Prop :=
  (∀ front s back, flash.blockSizes = front ++ s :: back → Fits flash b front.sum s →
    (∀ o' s', LaidAt front o' s' → ¬ Fits flash b o' s') → 0 < s) ∧
  (¬ HasFit flash b → flash.blockSizes.sum + mapSampleSize < 2 ^ 32)

/-- This holds of each range from `start` on that the search comes to: those before it are not blank, or have
no block that fits. -/
def SelectsFrom (chip : Chip) (flash : FlashDevice) (start : Nat) : Prop :=
  ∀ b, start ≤ b → searchAlignment ∣ b → b + searchAlignment ≤ flash.size → IsBlank chip flash b →
    (∀ b', start ≤ b' → b' < b → searchAlignment ∣ b' → IsBlank chip flash b' → ¬ HasFit flash b') →
    SelectsBlock flash b

theorem SelectsFrom.here (h : SelectsFrom chip flash b) (hd : searchAlignment ∣ b)
    (hb : b + searchAlignment ≤ flash.size) (hblank : IsBlank chip flash b) : SelectsBlock flash b :=
  h b (Nat.le_refl b) hd hb hblank fun _ hle hlt => absurd hlt (Nat.not_lt.mpr hle)

/-- A range that is passed has no part in what is behind it. -/
theorem selectsFrom_next (hd : searchAlignment ∣ b) (hpass : IsBlank chip flash b → ¬ HasFit flash b)
    (hhere : IsBlank chip flash b → SelectsBlock flash b) :
    SelectsFrom chip flash b ↔ SelectsFrom chip flash (b + searchAlignment) := by
  have hgap : ∀ c, b < c → searchAlignment ∣ c → b + searchAlignment ≤ c := fun c hc hdc =>
    Nat.le_of_lt_add_of_dvd (Nat.add_lt_add_right hc searchAlignment)
      (Nat.dvd_add_self_right.mpr hd) hdc
  have hpos : 0 < searchAlignment := by decide
  constructor
  · intro h c hc hdc hcsize hblank hbefore
    refine h c (by omega) hdc hcsize hblank fun b' hle hlt hdb' hblank' => ?_
    rcases Nat.eq_or_lt_of_le hle with rfl | hgt
    · exact hpass hblank'
    · exact hbefore b' (hgap b' hgt hdb') hlt hdb' hblank'
  · intro h c hc hdc hcsize hblank hbefore
    rcases Nat.eq_or_lt_of_le hc with rfl | hgt
    · exact hhere hblank
    · exact h c (hgap c hgt hdc) hdc hcsize hblank fun b' hle => hbefore b' (by omega)

/-- What is found in a blank range is blank. -/
theorem blankBlock_of_fits (hbase : 4 ∣ flash.base) (hd : searchAlignment ∣ b)
    (hblank : IsBlank chip flash b) (hlaid : LaidAt flash.blockSizes o s) (hfits : Fits flash b o s)
    (hpos : 0 < s) : BlankBlock chip flash (flash.base + o) s := by
  obtain ⟨hle, hend, -, hnext⟩ := hfits
  refine ⟨o, rfl, hlaid, hpos, by omega, fun a ha hlt hdvd => ?_⟩
  rw [searchAlignment] at hd hend
  have hword := hblank ((a - (flash.base + b)) / 4) (by omega)
  have haddress : flash.base + b + 4 * ((a - (flash.base + b)) / 4) = a := by omega
  rwa [haddress] at hword

/-- Where a block fits, everything hangs on the first that does. -/
theorem selectsFrom_of_first (hbase : flash.base + flash.size < 2 ^ 32) (hd : searchAlignment ∣ b)
    (hb : b + searchAlignment ≤ flash.size) (hblank : IsBlank chip flash b)
    (hsizes : flash.blockSizes = front ++ s :: back) (hfits : Fits flash b front.sum s)
    (hfirst : ∀ o' s', LaidAt front o' s' → ¬ Fits flash b o' s') :
    SelectsFrom chip flash b ↔ 0 < s := by
  have hfit : HasFit flash b := ⟨front.sum, s, hsizes ▸ LaidAt.intro front s back, hfits⟩
  have hselect : ∀ front s back, flash.blockSizes = front ++ s :: back → Fits flash b front.sum s →
      (∀ o' s', LaidAt front o' s' → ¬ Fits flash b o' s') →
      cfiSelectEraseBlock flash b searchAlignment flash.blockSizes 0
        = .ok (some (flash.base + front.sum, s)) := by
    intro front s back hsizes hfits hfirst
    have htaken := @select_of_first flash b s 0 front back hbase hb (by omega)
      (by rwa [Nat.zero_add]) (by simpa using hfirst)
    rwa [Nat.zero_add, ← hsizes] at htaken
  constructor
  · intro h
    exact (h.here hd hb hblank).1 front s back hsizes hfits hfirst
  · intro hpos c hc hdc hcsize hcblank hbefore
    rcases Nat.eq_or_lt_of_le hc with rfl | hgt
    · refine ⟨fun front' s' back' hsizes' hfits' hfirst' => ?_, fun hnone => absurd hfit hnone⟩
      -- the walk stops once
      have hsame := (hselect front s back hsizes hfits hfirst).symm.trans
        (hselect front' s' back' hsizes' hfits' hfirst')
      simp only [Except.ok.injEq, Option.some.injEq, Prod.mk.injEq] at hsame
      exact hsame.2 ▸ hpos
    · exact absurd hfit (hbefore b (Nat.le_refl b) hgt hd hblank)

theorem base_add_size_lt (h : Probed flash) : flash.base + flash.size < 2 ^ 32 := by
  have hsize := h.size_le
  rw [h.base_eq, windowBase]
  omega

theorem four_dvd_base (h : Probed flash) : 4 ∣ flash.base := by
  rw [h.base_eq]
  decide

/-- The search from a range on ends with a blank block or without one. -/
def FindsFrom (chip : Chip) (flash : FlashDevice) (halignment : 0 < searchAlignment) (b : Nat) : Prop :=
  Safe (findBlankBlockFrom chip flash searchAlignment halignment b) fun found =>
    ∀ block size, found = some (block, size) → BlankBlock chip flash block size

variable {halignment : 0 < searchAlignment}

theorem findsFrom_of_first (hprobed : Probed flash) (hd : searchAlignment ∣ b)
    (hb : b + searchAlignment ≤ flash.size) (hblank : IsBlank chip flash b)
    (hsizes : flash.blockSizes = front ++ s :: back) (hfits : Fits flash b front.sum s)
    (hfirst : ∀ o' s', LaidAt front o' s' → ¬ Fits flash b o' s') :
    FindsFrom chip flash halignment b ↔ 0 < s := by
  have hsize := hprobed.size_le
  have hbase := base_add_size_lt hprobed
  have hselect := @select_of_first flash b s 0 front back hbase hb (by omega)
    (by rwa [Nat.zero_add]) (by simpa using hfirst)
  rw [Nat.zero_add, ← hsizes] at hselect
  have hfind := find_step halignment hbase hb (Or.inl ⟨hblank, rfl⟩)
  rw [hselect, Checked.ok_bind, if_pos Option.isSome_some] at hfind
  constructor
  · rintro ⟨found, hfound, hgood⟩
    rw [hfind, Except.ok.injEq] at hfound
    obtain ⟨-, -, -, hpos, -⟩ := hgood (flash.base + front.sum) s hfound.symm
    exact hpos
  · intro hpos
    refine Safe.of_eq hfind fun block size heq => ?_
    rw [Option.some.injEq, Prod.mk.injEq] at heq
    obtain ⟨rfl, rfl⟩ := heq
    exact blankBlock_of_fits (four_dvd_base hprobed) hd hblank
      (hsizes ▸ LaidAt.intro front s back) hfits hpos

/-- Where no block fits, the search goes on, unless an addition has wrapped. -/
theorem find_of_none (hprobed : Probed flash) (hb : b + searchAlignment ≤ flash.size)
    (hblank : IsBlank chip flash b) (hfit : ¬ HasFit flash b) :
    findBlankBlockFrom chip flash searchAlignment halignment b =
      if flash.blockSizes.sum + mapSampleSize < 2 ^ 32 then
        findBlankBlockFrom chip flash searchAlignment halignment (b + searchAlignment)
      else .error .wrap := by
  have hsize := hprobed.size_le
  have hbase := base_add_size_lt hprobed
  have hnone : ∀ o s, LaidAt flash.blockSizes o s → ¬ Fits flash b (0 + o) s := by
    intro o s hlaid hfits
    rw [Nat.zero_add] at hfits
    exact hfit ⟨o, s, hlaid, hfits⟩
  have hselect := select_of_none hbase hb (by omega) (by decide) hnone
  rw [Nat.zero_add] at hselect
  rw [find_step halignment hbase hb (Or.inl ⟨hblank, rfl⟩), hselect]
  by_cases hsum : flash.blockSizes.sum + mapSampleSize < 2 ^ 32
  · rw [if_pos hsum, if_pos hsum, Checked.ok_bind, if_neg (by decide)]
  · rw [if_neg hsum, if_neg hsum]
    rfl

theorem find_of_not_blank (hprobed : Probed flash) (hb : b + searchAlignment ≤ flash.size)
    (hblank : ¬ IsBlank chip flash b) :
    findBlankBlockFrom chip flash searchAlignment halignment b
      = findBlankBlockFrom chip flash searchAlignment halignment (b + searchAlignment) := by
  rw [find_step halignment (base_add_size_lt hprobed) hb (Or.inr ⟨hblank, rfl⟩), Checked.ok_bind,
    if_neg (by decide)]

/-- The induction over the ranges. -/
theorem findsFrom_iff (hprobed : Probed flash) (hd : searchAlignment ∣ b) (hb : b ≤ flash.size) :
    FindsFrom chip flash halignment b ↔ SelectsFrom chip flash b := by
  have hsize := hprobed.size_le
  induction hn : flash.size - b using Nat.strong_induction_on generalizing b with
  | _ n ih =>
      by_cases hin : b + searchAlignment ≤ flash.size
      · have hpass : (IsBlank chip flash b → ¬ HasFit flash b) →
            (IsBlank chip flash b → SelectsBlock flash b) →
            findBlankBlockFrom chip flash searchAlignment halignment b
              = findBlankBlockFrom chip flash searchAlignment halignment (b + searchAlignment) →
            (FindsFrom chip flash halignment b ↔ SelectsFrom chip flash b) := by
          intro hnone hhere heq
          rw [FindsFrom, heq, selectsFrom_next hd hnone hhere]
          exact ih (flash.size - (b + searchAlignment)) (by omega) (Nat.dvd_add_self_right.mpr hd)
            hin rfl
        by_cases hblank : IsBlank chip flash b
        · by_cases hfit : HasFit flash b
          · obtain ⟨o, s, hlaid, hfits⟩ := hfit
            obtain ⟨front, s, back, hsizes, hfits, hfirst⟩ := hlaid.exists_first hfits
            rw [selectsFrom_of_first (base_add_size_lt hprobed) hd hin hblank hsizes hfits hfirst]
            exact findsFrom_of_first hprobed hd hin hblank hsizes hfits hfirst
          · have hfind := @find_of_none chip flash b halignment hprobed hin hblank hfit
            by_cases hsum : flash.blockSizes.sum + mapSampleSize < 2 ^ 32
            · rw [if_pos hsum] at hfind
              exact hpass (fun _ => hfit) (fun _ => ⟨fun front s back hsizes hfits _ =>
                absurd ⟨_, s, hsizes ▸ LaidAt.intro front s back, hfits⟩ hfit, fun _ => hsum⟩) hfind
            · rw [if_neg hsum] at hfind
              constructor
              · rintro ⟨found, hfound, -⟩
                rw [hfind] at hfound
                cases hfound
              · intro h
                exact absurd ((h.here hd hin hblank).2 hfit) hsum
        · exact hpass (fun h => absurd h hblank) (fun h => absurd h hblank)
            (find_of_not_blank hprobed hin hblank)
      · rw [FindsFrom, find_done halignment hin (by rw [searchAlignment]; omega)]
        constructor
        · intro _ c hc _ hcsize
          omega
        · intro _
          exact Safe.ok fun _ _ h => nomatch h

/-- **The search for a blank block.** It ends, wraps nothing and returns nothing but a blank block exactly
if, in the first blank range that a block of the table fits into, the first such block is not empty, and the
sizes add up below 2³² where a blank range that none fits into comes before. -/
theorem findsBlankBlock_iff {flash₀ : FlashDevice} (h : cfiProbe chip flash₀ = some flash) :
    FindsBlankBlock chip flash ↔ SelectsFrom chip flash 0 :=
  findsFrom_iff (probed_of_cfiProbe h) (Nat.dvd_zero _) (Nat.zero_le _)

/-! ### Instances -/

theorem isBlank_blankChip (words : Nat → UInt16) (flash : FlashDevice) (b : Nat) :
    IsBlank (blankChip words) flash b :=
  fun _ _ => rfl

/-- Two regions: one block of 256 bytes, and one whose block size is zero. -/
def emptyBlockWords : Nat → UInt16
  | 0x2C => 2
  | 0x2F => 1
  | word => commonWords word

/-- Sixteen blocks of 64 KiB. -/
def uniformWords : Nat → UInt16
  | 0x2C => 1
  | 0x2D => 15
  | 0x30 => 1
  | word => commonWords word

/-- The block of size zero is selected, and nothing is erased between the two samples. -/
theorem emptyBlock_not_findsBlankBlock :
    cfiProbe (blankChip emptyBlockWords) .zero = some (sampleFlash [⟨1, 256⟩, ⟨1, 0⟩]) ∧
      ¬ FindsBlankBlock (blankChip emptyBlockWords) (sampleFlash [⟨1, 256⟩, ⟨1, 0⟩]) := by
  have hprobe : cfiProbe (blankChip emptyBlockWords) .zero = some (sampleFlash [⟨1, 256⟩, ⟨1, 0⟩]) :=
    rfl
  refine ⟨hprobe, fun h => ?_⟩
  have hselects := (findsFrom_iff (probed_of_cfiProbe hprobe) (Nat.dvd_zero _) (Nat.zero_le _)).mp h
  have hhere := hselects.here (Nat.dvd_zero _) (by decide) (isBlank_blankChip _ _ 0)
  refine Nat.lt_irrefl 0 (hhere.1 [256] 0 [] (by decide) (by decide) ?_)
  intro o s hlaid hfits
  rcases LaidAt.cons_iff.mp hlaid with ⟨rfl, rfl⟩ | ⟨-, hnil⟩
  · exact absurd hfits (by decide)
  · exact LaidAt.not_nil hnil

theorem findsBlankBlock_iff_uniform :
    FindsBlankBlock (blankChip uniformWords) (sampleFlash [⟨16, 0x10000⟩]) := by
  have hprobe : cfiProbe (blankChip uniformWords) .zero = some (sampleFlash [⟨16, 0x10000⟩]) := rfl
  refine (findsBlankBlock_iff hprobe).mpr fun b _ _ _ _ _ => ⟨?_, fun _ => by decide⟩
  intro front s back hsizes _ _
  have hmem : s ∈ (sampleFlash [⟨16, 0x10000⟩]).blockSizes := by
    rw [hsizes]
    exact List.mem_append_right front List.mem_cons_self
  have hall : ∀ s ∈ (sampleFlash [⟨16, 0x10000⟩]).blockSizes, 0 < s := by decide
  exact hall s hmem

end Pmb887x.CfiIntel
