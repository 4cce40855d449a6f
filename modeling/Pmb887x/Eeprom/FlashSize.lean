import Mathlib.Data.List.OfFn
import Mathlib.Tactic

set_option autoImplicit false

/-! # The mapped flash (`find_flash_size` in `unit/eeprom.c`)

`eeprom_find_block` hands the parser all addresses from `0xA0000000` up to the highest end of a flash window.
The windows are those of the four chip selects of the external bus unit. -/

namespace Pmb887x.Eeprom

/-! ## The search -/

/-- `EBU_ADDRSEL` and `EBU_BUSCON` of a chip select -/
structure ChipSelect where
  addrsel : UInt32
  buscon : UInt32
  deriving DecidableEq

def flashAddressMin : Nat := 0xA0000000
def flashAddressMax : Nat := 0xB0000000
def flashWindowMaxExponent : Nat := 27
def ebuChipSelectCount : Nat := 4
def ebuAddrselRegenab : UInt32 := 0x00000001
def ebuAddrselMask : UInt32 := 0x000000F0
def ebuAddrselBase : UInt32 := 0xFFFFF000
def ebuBusconAgen : UInt32 := 0x70000000
def ebuBusconAgenSdram0 : UInt32 := 0x30000000
def ebuBusconAgenSdram1 : UInt32 := 0x40000000

namespace ChipSelect

variable (c : ChipSelect)

def isSdram : Bool :=
  c.buscon &&& ebuBusconAgen == ebuBusconAgenSdram0 || c.buscon &&& ebuBusconAgen == ebuBusconAgenSdram1

def mask : Nat := ((c.addrsel &&& ebuAddrselMask) >>> (4 : UInt32)).toNat

def base : Nat := (c.addrsel &&& ebuAddrselBase).toNat

/-- `1u << (FLASH_WINDOW_MAX_EXPONENT - mask)` -/
def size : Nat := 2 ^ (flashWindowMaxExponent - c.mask)

def enabled : Bool := c.addrsel &&& ebuAddrselRegenab != 0

/-- The window counts for the flash. -/
def isFlash : Bool :=
  c.enabled && !c.isSdram && decide (c.mask ≤ flashWindowMaxExponent) &&
    decide (flashAddressMin ≤ c.base ∧ c.base < flashAddressMax) &&
    decide (c.size ≤ flashAddressMax - c.base)

/-- One pass of the loop. -/
def extendFlash (flashSize : Nat) : Nat :=
  if c.isFlash then max flashSize (c.base + c.size - flashAddressMin) else flashSize

/-- The chip select maps an address to something else than SDRAM. -/
def Maps (address : Nat) : Prop :=
  c.enabled = true ∧ c.isSdram = false ∧ c.base ≤ address ∧ address < c.base + c.size

end ChipSelect

/-- The registers of the four chip selects. -/
abbrev Ebu := Fin ebuChipSelectCount → ChipSelect

def findFlashSize (ebu : Ebu) : Nat := (List.ofFn ebu).foldl (fun flashSize c => c.extendFlash flashSize) 0

/-- Every address that the parser may read is mapped. -/
def FlashMapped (ebu : Ebu) : Prop :=
  ∀ address, flashAddressMin ≤ address → address < flashAddressMin + findFlashSize ebu →
    ∃ i, (ebu i).Maps address

/-- No window behind the start of the flash and below the end of a flash window begins behind a gap. -/
def NoGap (ebu : Ebu) : Prop :=
  ∀ i, (ebu i).enabled = true → (ebu i).isSdram = false → flashAddressMin < (ebu i).base →
    (∃ j, (ebu j).isFlash = true ∧ (ebu i).base < (ebu j).base + (ebu j).size) →
    ∃ k, (ebu k).Maps ((ebu i).base - 1)

/-! ## The size is the highest end -/

variable {c : ChipSelect}

theorem ChipSelect.mapsOfFlash (h : c.isFlash = true) :
    c.enabled = true ∧ c.isSdram = false ∧ flashAddressMin ≤ c.base := by
  simp only [isFlash, Bool.and_eq_true, Bool.not_eq_true', decide_eq_true_eq] at h
  exact ⟨h.1.1.1.1, h.1.1.1.2, h.1.2.1⟩

theorem ChipSelect.size_pos (c : ChipSelect) : 0 < c.size := Nat.pow_pos (by decide)

/-- The loop gives the largest of its start and the ends of the flash windows. -/
theorem foldl_extendFlash (cs : List ChipSelect) (start : Nat) :
    (start ≤ cs.foldl (fun flashSize c => c.extendFlash flashSize) start ∧
      ∀ c ∈ cs, c.isFlash = true → c.base + c.size - flashAddressMin
        ≤ cs.foldl (fun flashSize c => c.extendFlash flashSize) start) ∧
    (cs.foldl (fun flashSize c => c.extendFlash flashSize) start = start ∨
      ∃ c ∈ cs, c.isFlash = true ∧ cs.foldl (fun flashSize c => c.extendFlash flashSize) start
        = c.base + c.size - flashAddressMin) := by
  induction cs generalizing start with
  | nil => exact ⟨⟨Nat.le_refl _, fun c hc => absurd hc List.not_mem_nil⟩, .inl rfl⟩
  | cons c cs ih =>
      rw [List.foldl_cons]
      obtain ⟨⟨hstart, hall⟩, hreached⟩ := ih (c.extendFlash start)
      have hle : start ≤ c.extendFlash start ∧
          (c.isFlash = true → c.base + c.size - flashAddressMin ≤ c.extendFlash start) := by
        rw [ChipSelect.extendFlash]
        split_ifs with hflash
        · exact ⟨Nat.le_max_left _ _, fun _ => Nat.le_max_right _ _⟩
        · exact ⟨Nat.le_refl _, fun h => absurd h hflash⟩
      refine ⟨⟨hle.1.trans hstart, fun d hd hflash => ?_⟩, ?_⟩
      · rcases List.mem_cons.mp hd with rfl | hd
        · exact (hle.2 hflash).trans hstart
        · exact hall d hd hflash
      · rcases hreached with hsame | ⟨d, hd, hflash, hend⟩
        · rw [hsame, ChipSelect.extendFlash]
          split_ifs with hflash
          · rcases Nat.le_total (c.base + c.size - flashAddressMin) start with hle | hle
            · exact .inl (Nat.max_eq_left hle)
            · exact .inr ⟨c, List.mem_cons_self, hflash, Nat.max_eq_right hle⟩
          · exact .inl rfl
        · exact .inr ⟨d, List.mem_cons_of_mem _ hd, hflash, hend⟩

variable {ebu : Ebu}

theorem le_findFlashSize {j : Fin ebuChipSelectCount} (h : (ebu j).isFlash = true) :
    (ebu j).base + (ebu j).size ≤ flashAddressMin + findFlashSize ebu := by
  have hend := (foldl_extendFlash (List.ofFn ebu) 0).1.2 (ebu j) (List.mem_ofFn.mpr ⟨j, rfl⟩) h
  change _ ≤ findFlashSize ebu at hend
  omega

theorem exists_findFlashSize (h : findFlashSize ebu ≠ 0) : ∃ j, (ebu j).isFlash = true ∧
    flashAddressMin + findFlashSize ebu = (ebu j).base + (ebu j).size := by
  rcases (foldl_extendFlash (List.ofFn ebu) 0).2 with hzero | ⟨c, hc, hflash, hend⟩
  · exact absurd hzero h
  · obtain ⟨j, rfl⟩ := List.mem_ofFn.mp hc
    change findFlashSize ebu = _ at hend
    have hbase := (ChipSelect.mapsOfFlash hflash).2.2
    exact ⟨j, hflash, by omega⟩

/-- **When the parser stays in the flash.** The mapped size is the highest end of a flash window; all
addresses below it are mapped unless a window begins behind a gap. -/
theorem flashMapped_iff (ebu : Ebu) : FlashMapped ebu ↔ NoGap ebu := by
  constructor
  · rintro h i - - hbase ⟨j, hflash, hbelow⟩
    have hend := le_findFlashSize hflash
    exact h _ (by omega) (by omega)
  · intro h address hmin hmax
    by_contra hnone
    obtain ⟨j, hflash, hend⟩ := @exists_findFlashSize ebu (by omega)
    obtain ⟨henabled, hsdram, -⟩ := ChipSelect.mapsOfFlash hflash
    -- the lowest window above the unmapped address begins behind a gap
    have habove : ∃ b, ∃ i, (ebu i).enabled = true ∧ (ebu i).isSdram = false ∧ (ebu i).base = b ∧
        address < b := by
      refine ⟨_, j, henabled, hsdram, rfl, ?_⟩
      by_contra hle
      exact hnone ⟨j, henabled, hsdram, Nat.le_of_not_lt hle, by omega⟩
    obtain ⟨i, hi, hisdram, hbase, hlt⟩ := Nat.find_spec habove
    have hlowest : ∀ k, (ebu k).enabled = true → (ebu k).isSdram = false → address < (ebu k).base →
        (ebu i).base ≤ (ebu k).base := fun k hk hksdram hklt =>
      hbase ▸ Nat.find_min' habove ⟨k, hk, hksdram, rfl, hklt⟩
    have hjlt : address < (ebu j).base := by
      by_contra hle
      exact hnone ⟨j, henabled, hsdram, Nat.le_of_not_lt hle, by omega⟩
    have hij := hlowest j henabled hsdram hjlt
    have hsize := (ebu j).size_pos
    rw [← hbase] at hlt
    obtain ⟨k, hk, hksdram, hkbase, hkend⟩ := h i hi hisdram (by omega) ⟨j, hflash, by omega⟩
    rcases Nat.lt_or_ge address (ebu k).base with hklt | hkle
    · have hik := hlowest k hk hksdram hklt
      omega
    · exact hnone ⟨k, hk, hksdram, hkle, by omega⟩

/-- Windows of 16 MiB at `0xA0000000` and `0xA4000000`. -/
def gapEbu : Ebu := fun i =>
  if i.val = 0 then { addrsel := 0xA0000031, buscon := 0 }
  else if i.val = 1 then { addrsel := 0xA4000031, buscon := 0 }
  else { addrsel := 0, buscon := 0 }

/-- The parser is handed the 48 MiB between the windows. -/
theorem findFlashSize_gap : findFlashSize gapEbu = 0x5000000 ∧ ¬ FlashMapped gapEbu := by
  have hsize : findFlashSize gapEbu = 0x5000000 := by decide +kernel
  have hunmapped : ∀ i, ¬ ((gapEbu i).base ≤ 0xA1000000 ∧ (gapEbu i).enabled = true ∧
      0xA1000000 < (gapEbu i).base + (gapEbu i).size) := by decide +kernel
  refine ⟨hsize, fun h => ?_⟩
  obtain ⟨i, henabled, -, hbase, hend⟩ := h 0xA1000000 (by decide) (by rw [hsize]; decide)
  exact hunmapped i ⟨hbase, henabled, hend⟩

end Pmb887x.Eeprom
