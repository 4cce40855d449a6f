import Mathlib.Algebra.BigOperators.Group.Finset.Basic
import Pmb887x.CfiIntel.Cfi
import Pmb887x.Eeprom.FlashSize
import Pmb887x.Library.BitFields

set_option autoImplicit false

/-! # The windows of the flashes (`configure_flash_map` in `unit/cfi-intel/test.c`)

The largest flash that has no window yet gets the next one. The sizes are powers of two, so that each window
begins at a multiple of its size, as the address comparison of the external bus unit needs it. -/

namespace Pmb887x.CfiIntel

open Library
open Eeprom (ChipSelect)

/-! ## The registers -/

/-- `EBU_CS_COUNT` -/
def ebuCsCount : Nat := 7

/-- `RAM_CS` -/
def ramCs : Nat := 1

/-- `FLASH_BUSCON` -/
def flashBuscon : UInt32 := 0x00522600

/-- `EBU_ADDRSEL(cs)` and `EBU_BUSCON(cs)` -/
abbrev EbuRegisters := Nat → ChipSelect

def cfiDisableChipSelects (ebu : EbuRegisters) : EbuRegisters := fun cs =>
  if cs < ebuCsCount ∧ cs ≠ ramCs then ⟨0, 0⟩ else ebu cs

def cfiMap (ebu : EbuRegisters) (cs base mask : Nat) : EbuRegisters :=
  Function.update ebu cs ⟨UInt32.ofNat (1 ||| mask <<< 4 ||| base), flashBuscon⟩

/-! ## The map -/

/-- What the map looks at in `struct flash_device`. -/
structure FoundFlash where
  cs : Nat
  sizeExponent : Nat
  size : Nat
  split : Bool
  highCs : Nat
  windowSize : Nat

/-- What it writes there, and the registers. -/
structure FlashMap (n : Nat) where
  base : Fin n → Nat
  mapped : Fin n → Bool
  ebu : EbuRegisters

section

variable {n : Nat} (flashes : Fin n → FoundFlash)

/-- One pass of the loop for the largest flash. -/
def larger (mapped : Fin n → Bool) (flash : Option (Fin n)) (i : Fin n) : Option (Fin n) :=
  match flash with
  | none => if mapped i then none else some i
  | some f => if !mapped i && decide ((flashes f).size < (flashes i).size) then some i else some f

def findLargest (mapped : Fin n → Bool) : Option (Fin n) :=
  (List.finRange n).foldl (larger flashes mapped) none

def validSize (size base : Nat) : Bool :=
  decide (2 ^ 20 ≤ size) && decide (size ≤ 2 ^ 27) && decide (size &&& (size - 1) = 0) &&
    decide (size ≤ sub32 windowEnd base)

def mapFlash (flash : FoundFlash) (base : Nat) (ebu : EbuRegisters) : EbuRegisters :=
  if flash.split then
    let windowExponent := flash.sizeExponent - 1
    let ebu := cfiMap ebu flash.cs base (27 - windowExponent)
    cfiMap ebu flash.highCs (wrap32 (base + flash.windowSize)) (27 - windowExponent)
  else cfiMap ebu flash.cs base (27 - flash.sizeExponent)

/-- The flash gets its window. -/
def FlashMap.place (map : FlashMap n) (i : Fin n) (flash : FoundFlash) (base : Nat) : FlashMap n where
  base := Function.update map.base i base
  mapped := Function.update map.mapped i true
  ebu := mapFlash flash base map.ebu

/-- The loop of `configure_flash_map`; `none` would be a `NULL` flash. -/
def configureFrom : (count base : Nat) → FlashMap n → Option (Bool × FlashMap n)
  | 0, _, map => some (true, map)
  | count + 1, base, map =>
      match findLargest flashes map.mapped with
      | none => none
      | some i =>
          if validSize (flashes i).size base then
            configureFrom count (wrap32 (base + (flashes i).size)) (map.place i (flashes i) base)
          else some (false, map)

/-- `configure_flash_map` behind `scan_flashes`. -/
def configureFlashMap (base : Fin n → Nat) (ebu : EbuRegisters) : Option (Bool × FlashMap n) :=
  configureFrom flashes n windowBase ⟨base, fun _ => false, cfiDisableChipSelects ebu⟩

end

/-! ## One window -/

/-- The register maps the addresses from its base on. -/
theorem maps_addrsel {base mask : Nat} (hbase : base < 2 ^ 32) (haligned : 2 ^ 12 ∣ base) (hmask : mask < 2 ^ 4)
    (address : Nat) :
    (⟨UInt32.ofNat (1 ||| mask <<< 4 ||| base), flashBuscon⟩ : ChipSelect).Maps address ↔
      base ≤ address ∧ address < base + 2 ^ (27 - mask) := by
  obtain ⟨q, rfl⟩ := haligned
  have hvalue : 1 ||| mask <<< 4 ||| 2 ^ 12 * q = 1 + 2 ^ 4 * mask + 2 ^ 12 * q := by
    rw [or_shiftLeft (by decide), Nat.mul_comm (2 ^ 12) q, ← Nat.shiftLeft_eq, or_shiftLeft (by omega),
      Nat.shiftLeft_eq, Nat.mul_comm q]
  have hnat : (UInt32.ofNat (1 + 2 ^ 4 * mask + 2 ^ 12 * q)).toNat = 1 + 2 ^ 4 * mask + 2 ^ 12 * q := by
    rw [UInt32.toNat_ofNat', Nat.mod_eq_of_lt (by omega)]
  rw [hvalue]
  have hselect : (⟨UInt32.ofNat (1 + 2 ^ 4 * mask + 2 ^ 12 * q), flashBuscon⟩ : ChipSelect).base = 2 ^ 12 * q := by
    have hclear := and_clear_low (n := 1 + 2 ^ 4 * mask + 2 ^ 12 * q) (k := 12) (by omega) (by decide)
    rw [ChipSelect.base, UInt32.toNat_and, hnat]
    refine Eq.trans ?_ (hclear.trans ?_)
    · rfl
    · omega
  have hmask' : (⟨UInt32.ofNat (1 + 2 ^ 4 * mask + 2 ^ 12 * q), flashBuscon⟩ : ChipSelect).mask = mask := by
    have hfield := and_mask (1 + 2 ^ 4 * mask + 2 ^ 12 * q) 4 4
    rw [ChipSelect.mask, UInt32.toNat_shiftRight, UInt32.toNat_and, hnat]
    change ((1 + 2 ^ 4 * mask + 2 ^ 12 * q) &&& (2 ^ 4 - 1) <<< 4) >>> 4 = mask
    rw [hfield, Nat.shiftRight_eq_div_pow]
    omega
  have henabled : (⟨UInt32.ofNat (1 + 2 ^ 4 * mask + 2 ^ 12 * q), flashBuscon⟩ : ChipSelect).enabled = true := by
    rw [ChipSelect.enabled, bne_iff_ne]
    intro hzero
    have hbit := congrArg UInt32.toNat hzero
    rw [UInt32.toNat_and, hnat] at hbit
    change (1 + 2 ^ 4 * mask + 2 ^ 12 * q) &&& 1 = 0 at hbit
    rw [Nat.and_one_is_mod] at hbit
    omega
  have hflash : (⟨UInt32.ofNat (1 + 2 ^ 4 * mask + 2 ^ 12 * q), flashBuscon⟩ : ChipSelect).isSdram = false := by
    change (flashBuscon &&& Eeprom.ebuBusconAgen == Eeprom.ebuBusconAgenSdram0 ||
      flashBuscon &&& Eeprom.ebuBusconAgen == Eeprom.ebuBusconAgenSdram1) = false
    decide
  rw [ChipSelect.Maps, ChipSelect.size, hselect, hmask']
  exact ⟨fun h => h.2.2, fun h => ⟨henabled, hflash, h⟩⟩

theorem not_maps_disabled {ebu : EbuRegisters} {cs : Nat} (hcs : cs < ebuCsCount ∧ cs ≠ ramCs) (address : Nat) :
    ¬ (cfiDisableChipSelects ebu cs).Maps address := by
  rw [cfiDisableChipSelects, if_pos hcs]
  rintro ⟨henabled, -⟩
  exact absurd henabled (by decide)

namespace FoundFlash

variable (flash : FoundFlash)

/-- The address is in the window of the chip select. -/
def Window (base cs address : Nat) : Prop :=
  if flash.split then
    (cs = flash.cs ∧ base ≤ address ∧ address < base + flash.windowSize) ∨
      (cs = flash.highCs ∧ base + flash.windowSize ≤ address ∧ address < base + flash.size)
  else cs = flash.cs ∧ base ≤ address ∧ address < base + flash.size

def selects : List Nat := if flash.split then [flash.cs, flash.highCs] else [flash.cs]

/-- What `cfi_probe` and `coalesce_split_flashes` give. -/
structure Known : Prop where
  size_eq : flash.size = shiftOne flash.sizeExponent
  windowSize_eq : flash.split = true → flash.windowSize = flash.size / 2
  highCs_ne : flash.split = true → flash.cs ≠ flash.highCs

variable {flash}

theorem Window.mem_selects {base cs address : Nat} (h : flash.Window base cs address) : cs ∈ flash.selects := by
  rw [Window] at h
  rw [selects]
  split_ifs at h ⊢
  · rcases h with ⟨rfl, -⟩ | ⟨rfl, -⟩
    · exact List.mem_cons_self
    · exact List.mem_cons_of_mem _ List.mem_cons_self
  · exact List.mem_singleton.mpr h.1

theorem Known.size_eq_pow (h : flash.Known) (hlt : flash.sizeExponent ≤ 27) : flash.size = 2 ^ flash.sizeExponent := by
  rw [h.size_eq, shiftOne, if_pos (by omega)]

theorem Known.validSize_iff (h : flash.Known) {base : Nat} (hle : base ≤ windowEnd) :
    validSize flash.size base = true ↔
      (20 ≤ flash.sizeExponent ∧ flash.sizeExponent ≤ 27) ∧ base + flash.size ≤ windowEnd := by
  have hend : windowEnd < 2 ^ 32 := by decide
  rw [validSize, sub32_of_le hle hend]
  simp only [Bool.and_eq_true, decide_eq_true_eq]
  constructor
  · rintro ⟨⟨⟨hmin, hmax⟩, -⟩, hroom⟩
    have hexponent : flash.sizeExponent < 32 := by
      by_contra hge
      rw [h.size_eq, shiftOne, if_neg hge] at hmin
      exact absurd hmin (by decide)
    rw [h.size_eq, shiftOne, if_pos hexponent, Nat.pow_le_pow_iff_right (by decide)] at hmin hmax
    exact ⟨⟨hmin, hmax⟩, by omega⟩
  · rintro ⟨⟨hmin, hmax⟩, hroom⟩
    have hsize := h.size_eq_pow hmax
    have hpow : flash.size &&& (flash.size - 1) = 0 := by
      rw [hsize, Nat.and_two_pow_sub_one_eq_mod, Nat.mod_self]
    have hmin' : 2 ^ 20 ≤ flash.size := hsize ▸ Nat.pow_le_pow_right (by decide) hmin
    have hmax' : flash.size ≤ 2 ^ 27 := hsize ▸ Nat.pow_le_pow_right (by decide) hmax
    exact ⟨⟨⟨hmin', hmax'⟩, hpow⟩, by omega⟩

/-- **Mapping a flash sets its chip selects and no others.** -/
theorem Known.mapFlash_maps (h : flash.Known) {base : Nat} (hmin : 20 ≤ flash.sizeExponent)
    (hmax : flash.sizeExponent ≤ 27) (haligned : flash.size ∣ base) (hend : base + flash.size ≤ windowEnd)
    (ebu : EbuRegisters) (cs address : Nat) :
    (mapFlash flash base ebu cs).Maps address ↔
      if cs ∈ flash.selects then flash.Window base cs address else (ebu cs).Maps address := by
  have hsize := h.size_eq_pow hmax
  have hlt : windowEnd < 2 ^ 32 := by decide
  have htwelve : 2 ^ 12 ∣ base := by
    rw [hsize] at haligned
    exact Nat.dvd_trans (Nat.pow_dvd_pow 2 (by omega)) haligned
  rw [mapFlash, selects, Window]
  split_ifs with hsplit hmem hmem
  · -- two windows of half the size
    have hhalf : flash.size = 2 * 2 ^ (flash.sizeExponent - 1) := by
      rw [hsize, ← Nat.pow_succ', Nat.succ_eq_add_one, Nat.sub_add_cancel (by omega)]
    have hwindow : flash.windowSize = 2 ^ (flash.sizeExponent - 1) := by
      rw [h.windowSize_eq hsplit]
      omega
    have hexponent : 27 - (27 - (flash.sizeExponent - 1)) = flash.sizeExponent - 1 := by omega
    have hhigh : 2 ^ 12 ∣ base + flash.windowSize := by
      refine Nat.dvd_add htwelve ?_
      rw [hwindow]
      exact Nat.pow_dvd_pow 2 (by omega)
    have hne := h.highCs_ne hsplit
    have hwrap : wrap32 (base + flash.windowSize) = base + flash.windowSize := wrap32_of_lt (by omega)
    rcases List.mem_cons.mp hmem with rfl | hcs
    · rw [cfiMap, Function.update_of_ne hne, cfiMap, Function.update_self, maps_addrsel (by omega) htwelve (by omega),
        hexponent, ← hwindow]
      constructor
      · exact fun ha => .inl ⟨rfl, ha⟩
      · rintro (ha | ha)
        · exact ha.2
        · exact absurd ha.1 hne
    · obtain rfl := List.mem_singleton.mp hcs
      rw [cfiMap, Function.update_self, hwrap, maps_addrsel (by omega) hhigh (by omega), hexponent, ← hwindow]
      have hsum : base + flash.windowSize + flash.windowSize = base + flash.size := by omega
      rw [hsum]
      constructor
      · exact fun ha => .inr ⟨rfl, ha⟩
      · rintro (ha | ha)
        · exact absurd ha.1.symm hne
        · exact ha.2
  · rw [List.mem_cons, List.mem_singleton, not_or] at hmem
    rw [cfiMap, Function.update_of_ne hmem.2, cfiMap, Function.update_of_ne hmem.1]
  · obtain rfl := List.mem_singleton.mp hmem
    have hexponent : 27 - (27 - flash.sizeExponent) = flash.sizeExponent := by omega
    rw [cfiMap, Function.update_self, maps_addrsel (by omega) htwelve (by omega), hexponent, ← hsize]
    exact ⟨fun ha => ⟨rfl, ha⟩, fun ha => ha.2⟩
  · rw [cfiMap, Function.update_of_ne fun hcs => hmem (List.mem_singleton.mpr hcs)]

end FoundFlash

/-! ## The largest flash -/

section

variable {n : Nat} {flashes : Fin n → FoundFlash} {mapped : Fin n → Bool}

/-- What one pass makes of the flash found so far. -/
theorem larger_cases (flash : Option (Fin n)) (i : Fin n) :
    (larger flashes mapped flash i = flash ∧
        (mapped i = false → ∃ f, flash = some f ∧ (flashes i).size ≤ (flashes f).size)) ∨
      (larger flashes mapped flash i = some i ∧ mapped i = false ∧
        ∀ f, flash = some f → (flashes f).size ≤ (flashes i).size) := by
  cases flash with
  | none =>
      cases hmapped : mapped i with
      | true => exact .inl ⟨by simp [larger, hmapped], nofun⟩
      | false => exact .inr ⟨by simp [larger, hmapped], rfl, nofun⟩
  | some f =>
      by_cases hlarger : mapped i = false ∧ (flashes f).size < (flashes i).size
      · refine .inr ⟨by simp [larger, hlarger], hlarger.1, fun g hg => ?_⟩
        obtain rfl := Option.some.inj hg
        exact Nat.le_of_lt hlarger.2
      · refine .inl ⟨by simp only [larger]; rw [if_neg]; simpa using hlarger, fun hmapped => ⟨f, rfl, ?_⟩⟩
        exact Nat.le_of_not_lt fun hlt => hlarger ⟨hmapped, hlt⟩

variable (flashes mapped)

/-- The loop over some of the flashes, from a flash on. -/
theorem foldl_larger (is : List (Fin n)) (start : Option (Fin n)) :
    (∀ f, is.foldl (larger flashes mapped) start = some f → start = some f ∨ mapped f = false) ∧
      (∀ f, start = some f → ∃ g, is.foldl (larger flashes mapped) start = some g ∧
        (flashes f).size ≤ (flashes g).size) ∧
      ∀ i ∈ is, mapped i = false → ∃ g, is.foldl (larger flashes mapped) start = some g ∧
        (flashes i).size ≤ (flashes g).size := by
  induction is generalizing start with
  | nil =>
      refine ⟨fun f hf => .inl hf, fun f hf => ⟨f, hf, Nat.le_refl _⟩, ?_⟩
      intro i hi
      exact absurd hi List.not_mem_nil
  | cons i rest ih =>
      obtain ⟨hfound, hkept, hrest⟩ := ih (larger flashes mapped start i)
      rw [List.foldl_cons]
      rcases larger_cases start i with ⟨hsame, hsmaller⟩ | ⟨hnew, hunmapped, hlarger⟩
      · rw [hsame] at hfound hkept hrest ⊢
        refine ⟨hfound, hkept, fun j hj hmapped => ?_⟩
        rcases List.mem_cons.mp hj with rfl | hj
        · obtain ⟨f, hf, hle⟩ := hsmaller hmapped
          obtain ⟨g, hg, hle'⟩ := hkept f hf
          exact ⟨g, hg, hle.trans hle'⟩
        · exact hrest j hj hmapped
      · rw [hnew] at hfound hkept hrest ⊢
        obtain ⟨g, hg, hle⟩ := hkept i rfl
        refine ⟨fun f hf => ?_, fun f hf => ⟨g, hg, (hlarger f hf).trans hle⟩, fun j hj hmapped => ?_⟩
        · rcases hfound f hf with heq | hunmapped'
          · obtain rfl := Option.some.inj heq
            exact .inr hunmapped
          · exact .inr hunmapped'
        · rcases List.mem_cons.mp hj with rfl | hj
          · exact ⟨g, hg, hle⟩
          · exact hrest j hj hmapped

/-- While a flash has no window, the largest of these is found. -/
theorem findLargest_spec {i : Fin n} (h : mapped i = false) :
    ∃ g, findLargest flashes mapped = some g ∧ mapped g = false ∧
      ∀ j, mapped j = false → (flashes j).size ≤ (flashes g).size := by
  obtain ⟨hfound, -, hall⟩ := foldl_larger flashes mapped (List.finRange n) none
  obtain ⟨g, hg, -⟩ := hall i (List.mem_finRange i) h
  refine ⟨g, hg, (hfound g hg).resolve_left nofun, fun j hj => ?_⟩
  obtain ⟨g', hg', hle⟩ := hall j (List.mem_finRange j) hj
  obtain rfl := Option.some.inj (hg.symm.trans hg')
  exact hle

end

/-! ## The loop -/

namespace FlashMap

variable {n : Nat} (map : FlashMap n) (i : Fin n) (flash : FoundFlash) (base : Nat) {j : Fin n}

@[simp] theorem place_base_self : (map.place i flash base).base i = base := Function.update_self _ _ _

@[simp] theorem place_mapped_self : (map.place i flash base).mapped i = true := Function.update_self _ _ _

@[simp] theorem place_ebu : (map.place i flash base).ebu = mapFlash flash base map.ebu := rfl

theorem place_base_of_ne (h : j ≠ i) : (map.place i flash base).base j = map.base j := Function.update_of_ne h _ _

theorem place_mapped_of_ne (h : j ≠ i) : (map.place i flash base).mapped j = map.mapped j :=
  Function.update_of_ne h _ _

/-- What holds of the windows that there are and of the new one. -/
theorem forall_place {P : Fin n → Nat → Prop} (hnew : P i base)
    (hold : ∀ j, map.mapped j = true → P j (map.base j)) :
    ∀ j, (map.place i flash base).mapped j = true → P j ((map.place i flash base).base j) := by
  intro j hj
  by_cases hne : j = i
  · subst hne
    rwa [map.place_base_self]
  · rw [map.place_mapped_of_ne i _ _ hne] at hj
    rw [map.place_base_of_ne i _ _ hne]
    exact hold j hj

end FlashMap

section

variable {n : Nat} (flashes : Fin n → FoundFlash)

/-- The size of the flashes that have windows. -/
def mappedSize (mapped : Fin n → Bool) : Nat := ∑ i, if mapped i then (flashes i).size else 0

/-- Every flash is of a size that a window can have, and there is room for all of them. -/
def FlashesFit : Prop :=
  (∀ i, 20 ≤ (flashes i).sizeExponent ∧ (flashes i).sizeExponent ≤ 27) ∧ ∑ i, (flashes i).size ≤ 2 ^ 27

/-- The windows lie in the address space of the flashes, no two overlap, each begins at a multiple of its size, and
    the registers map an address to a chip select exactly if it is in a window of this chip select. -/
structure WellMapped (map : FlashMap n) : Prop where
  inside : ∀ i, windowBase ≤ map.base i ∧ map.base i + (flashes i).size ≤ windowEnd
  aligned : ∀ i, (flashes i).size ∣ map.base i
  apart : ∀ i j, i ≠ j → map.base i + (flashes i).size ≤ map.base j ∨ map.base j + (flashes j).size ≤ map.base i
  maps : ∀ cs, cs < ebuCsCount → cs ≠ ramCs → ∀ address,
    (map.ebu cs).Maps address ↔ ∃ i, (flashes i).Window (map.base i) cs address

/-- The flashes that have windows, up to `base`: the windows are one behind the other, each at a multiple of its
    size, and the registers map them. -/
structure Placed (base : Nat) (map : FlashMap n) : Prop where
  base_eq : base = windowBase + mappedSize flashes map.mapped
  base_le : base ≤ windowEnd
  valid : ∀ i, map.mapped i = true → 20 ≤ (flashes i).sizeExponent ∧ (flashes i).sizeExponent ≤ 27
  inside : ∀ i, map.mapped i = true → windowBase ≤ map.base i ∧ map.base i + (flashes i).size ≤ base
  aligned : ∀ i, map.mapped i = true → (flashes i).size ∣ map.base i
  apart : ∀ i j, i ≠ j → map.mapped i = true → map.mapped j = true →
    map.base i + (flashes i).size ≤ map.base j ∨ map.base j + (flashes j).size ≤ map.base i
  larger : ∀ i j, map.mapped i = true → map.mapped j = false → (flashes j).size ≤ (flashes i).size
  maps : ∀ cs, cs < ebuCsCount → cs ≠ ramCs → ∀ address,
    (map.ebu cs).Maps address ↔ ∃ i, map.mapped i = true ∧ (flashes i).Window (map.base i) cs address

variable {flashes}

theorem mappedSize_update {mapped : Fin n → Bool} {i : Fin n} (h : mapped i = false) :
    mappedSize flashes (Function.update mapped i true) = mappedSize flashes mapped + (flashes i).size := by
  have hfun : (fun j => if Function.update mapped i true j then (flashes j).size else 0)
      = Function.update (fun j => if mapped j then (flashes j).size else 0) i (flashes i).size := by
    funext j
    by_cases hj : j = i
    · rw [hj, Function.update_self, Function.update_self, if_pos rfl]
    · rw [Function.update_of_ne hj, Function.update_of_ne hj]
  have hold : (∑ j ∈ Finset.univ \ {i}, if mapped j then (flashes j).size else 0) = mappedSize flashes mapped := by
    rw [mappedSize, ← Finset.sum_sdiff (Finset.subset_univ {i}), Finset.sum_singleton, h]
    simp
  rw [mappedSize, hfun, Finset.sum_update_of_mem (Finset.mem_univ i), hold, Nat.add_comm]

theorem mappedSize_le (flashes : Fin n → FoundFlash) (mapped : Fin n → Bool) :
    mappedSize flashes mapped ≤ ∑ i, (flashes i).size := by
  refine Finset.sum_le_sum fun i _ => ?_
  split_ifs
  · exact Nat.le_refl _
  · exact Nat.zero_le _

theorem mappedSize_eq {mapped : Fin n → Bool} (h : ∀ i, mapped i = true) :
    mappedSize flashes mapped = ∑ i, (flashes i).size :=
  Finset.sum_congr rfl fun i _ => if_pos (h i)

/-- The new window is behind the others. -/
theorem Placed.place_apart {base : Nat} {map : FlashMap n} (h : Placed flashes base map) {i : Fin n}
    {flash : FoundFlash} (j k : Fin n) (hjk : j ≠ k) (hj : (map.place i flash base).mapped j = true)
    (hk : (map.place i flash base).mapped k = true) :
    (map.place i flash base).base j + (flashes j).size ≤ (map.place i flash base).base k ∨
      (map.place i flash base).base k + (flashes k).size ≤ (map.place i flash base).base j := by
  have hother : ∀ {j : Fin n}, (map.place i flash base).mapped j = true → j ≠ i → map.mapped j = true := by
    intro j hj hne
    rwa [map.place_mapped_of_ne i _ _ hne] at hj
  by_cases hj' : j = i
  · subst hj'
    rw [map.place_base_self, map.place_base_of_ne _ _ _ (Ne.symm hjk)]
    exact .inr (h.inside k (hother hk (Ne.symm hjk))).2
  · by_cases hk' : k = i
    · subst hk'
      rw [map.place_base_self, map.place_base_of_ne _ _ _ hjk]
      exact .inl (h.inside j (hother hj hjk)).2
    · rw [map.place_base_of_ne i _ _ hj', map.place_base_of_ne i _ _ hk']
      exact h.apart j k hjk (hother hj hj') (hother hk hk')

variable (hknown : ∀ i, (flashes i).Known)
  (hselects : ∀ i j, i ≠ j → ∀ cs ∈ (flashes i).selects, cs ∉ (flashes j).selects)
include hknown

/-- **A window behind larger ones begins at a multiple of its size.** -/
theorem Placed.dvd_base {base : Nat} {map : FlashMap n} (h : Placed flashes base map) {i : Fin n}
    (hi : map.mapped i = false) (hmax : (flashes i).sizeExponent ≤ 27) : (flashes i).size ∣ base := by
  have hsize := (hknown i).size_eq_pow hmax
  rw [h.base_eq]
  refine Nat.dvd_add ?_ (Finset.dvd_sum fun j _ => ?_)
  · rw [hsize, show windowBase = 2 ^ 27 * 20 from rfl]
    exact Nat.dvd_mul_right_of_dvd (Nat.pow_dvd_pow 2 hmax) 20
  · split_ifs with hj
    · have hle := h.larger j i hj hi
      have hsize' := (hknown j).size_eq_pow (h.valid j hj).2
      rw [hsize, hsize', Nat.pow_le_pow_iff_right (by decide)] at hle
      rw [hsize, hsize']
      exact Nat.pow_dvd_pow 2 hle
    · exact Nat.dvd_zero _

include hselects

/-- The registers of the new window map its addresses, and those of the others are as they were. -/
theorem Placed.place_maps {base : Nat} {map : FlashMap n} (h : Placed flashes base map) {i : Fin n}
    (hi : map.mapped i = false) (hvalid : 20 ≤ (flashes i).sizeExponent ∧ (flashes i).sizeExponent ≤ 27)
    (hend : base + (flashes i).size ≤ windowEnd) (cs : Nat) (hcs : cs < ebuCsCount) (hram : cs ≠ ramCs)
    (address : Nat) :
    ((map.place i (flashes i) base).ebu cs).Maps address ↔
      ∃ j, (map.place i (flashes i) base).mapped j = true ∧
        (flashes j).Window ((map.place i (flashes i) base).base j) cs address := by
  have hdvd := h.dvd_base hknown hi hvalid.2
  rw [map.place_ebu, (hknown i).mapFlash_maps hvalid.1 hvalid.2 hdvd hend]
  split_ifs with hmem
  · constructor
    · intro hwindow
      exact ⟨i, map.place_mapped_self i _ _, by rwa [map.place_base_self]⟩
    · rintro ⟨j, -, hwindow⟩
      by_cases hne : j = i
      · subst hne
        rwa [map.place_base_self] at hwindow
      · exact absurd hmem (hselects j i hne cs hwindow.mem_selects)
  · rw [h.maps cs hcs hram]
    constructor
    · rintro ⟨j, hj, hwindow⟩
      have hne : j ≠ i := by
        rintro rfl
        exact absurd (hj.symm.trans hi) nofun
      refine ⟨j, ?_, ?_⟩
      · rwa [map.place_mapped_of_ne i _ _ hne]
      · rwa [map.place_base_of_ne i _ _ hne]
    · rintro ⟨j, hj, hwindow⟩
      have hne : j ≠ i := by
        rintro rfl
        exact hmem hwindow.mem_selects
      rw [map.place_mapped_of_ne i _ _ hne] at hj
      rw [map.place_base_of_ne i _ _ hne] at hwindow
      exact ⟨j, hj, hwindow⟩

/-- One pass of the loop. -/
theorem Placed.step {base : Nat} {map : FlashMap n} (h : Placed flashes base map) {i : Fin n}
    (hi : map.mapped i = false) (hlargest : ∀ j, map.mapped j = false → (flashes j).size ≤ (flashes i).size)
    (hvalid : 20 ≤ (flashes i).sizeExponent ∧ (flashes i).sizeExponent ≤ 27)
    (hend : base + (flashes i).size ≤ windowEnd) :
    Placed flashes (base + (flashes i).size) (map.place i (flashes i) base) where
  base_eq := by
    rw [FlashMap.place, mappedSize_update hi, ← Nat.add_assoc, ← h.base_eq]
  base_le := hend
  valid := map.forall_place i (flashes i) base
    (P := fun j _ => 20 ≤ (flashes j).sizeExponent ∧ (flashes j).sizeExponent ≤ 27) hvalid h.valid
  inside := by
    have hbase := h.base_eq
    refine map.forall_place i (flashes i) base (P := fun j start => windowBase ≤ start ∧ start + (flashes j).size ≤ _)
      ⟨by omega, Nat.le_refl _⟩ fun j hj => ?_
    obtain ⟨hle, hle'⟩ := h.inside j hj
    exact ⟨hle, by omega⟩
  aligned := map.forall_place i (flashes i) base (P := fun j start => (flashes j).size ∣ start)
    (h.dvd_base hknown hi hvalid.2) h.aligned
  apart := h.place_apart
  larger := by
    intro j k hj hk
    have hk' : k ≠ i := by
      rintro rfl
      rw [map.place_mapped_self] at hk
      cases hk
    rw [map.place_mapped_of_ne i _ _ hk'] at hk
    exact map.forall_place i (flashes i) base (P := fun j _ => (flashes k).size ≤ (flashes j).size) (hlargest k hk)
      (fun j hj => h.larger j k hj hk) j hj
  maps := h.place_maps hknown hselects hi hvalid hend

theorem configureFrom_spec (count : Nat) : ∀ {base : Nat} {map : FlashMap n}, Placed flashes base map →
    (Finset.univ.filter fun i => map.mapped i = false).card = count →
    ∃ valid map', configureFrom flashes count base map = some (valid, map') ∧ (valid = true ↔ FlashesFit flashes) ∧
      (valid = true → ∃ base', Placed flashes base' map' ∧ ∀ i, map'.mapped i = true) := by
  induction count with
  | zero =>
      intro base map h hcount
      have hall : ∀ i, map.mapped i = true := by
        intro i
        by_contra hi
        have hmem : i ∈ Finset.univ.filter fun i => map.mapped i = false := by simpa using hi
        rw [Finset.card_eq_zero.mp hcount] at hmem
        exact absurd hmem (Finset.notMem_empty i)
      have hbase := h.base_eq
      have hle := h.base_le
      have hroom : windowEnd = windowBase + 2 ^ 27 := rfl
      rw [mappedSize_eq hall] at hbase
      refine ⟨true, map, rfl, ⟨fun _ => ⟨fun i => h.valid i (hall i), by omega⟩, fun _ => rfl⟩, fun _ => ?_⟩
      exact ⟨base, h, hall⟩
  | succ count ih =>
      intro base map h hcount
      obtain ⟨k, hk⟩ : (Finset.univ.filter fun i => map.mapped i = false).Nonempty :=
        Finset.card_pos.mp (by rw [hcount]; exact Nat.succ_pos count)
      obtain ⟨i, hfound, hi, hlargest⟩ := findLargest_spec flashes map.mapped (Finset.mem_filter.mp hk).2
      simp only [configureFrom, hfound]
      by_cases hvalid : validSize (flashes i).size base = true
      · rw [if_pos hvalid]
        obtain ⟨hexponent, hend⟩ := ((hknown i).validSize_iff h.base_le).mp hvalid
        have hlt : windowEnd < 2 ^ 32 := by decide
        rw [wrap32_of_lt (by omega)]
        refine ih (h.step hknown hselects hi hlargest hexponent hend) ?_
        have herase : (Finset.univ.filter fun j => (map.place i (flashes i) base).mapped j = false)
            = (Finset.univ.filter fun j => map.mapped j = false).erase i := by
          ext j
          by_cases hj : j = i
          · simp [hj]
          · simp [hj, map.place_mapped_of_ne i _ _ hj]
        rw [herase, Finset.card_erase_of_mem (by simpa using hi), hcount, Nat.add_sub_cancel]
      · rw [if_neg hvalid]
        refine ⟨false, map, rfl, ⟨nofun, fun hfits => absurd ?_ hvalid⟩, nofun⟩
        have hbase := h.base_eq
        have hroom : windowEnd = windowBase + 2 ^ 27 := rfl
        have hsum := mappedSize_le flashes (Function.update map.mapped i true)
        rw [mappedSize_update hi] at hsum
        have htotal := hfits.2
        exact ((hknown i).validSize_iff h.base_le).mpr ⟨hfits.1 i, by omega⟩

omit hknown hselects in
theorem placed_start (base : Fin n → Nat) (ebu : EbuRegisters) :
    Placed flashes windowBase ⟨base, fun _ => false, cfiDisableChipSelects ebu⟩ where
  base_eq := by simp [mappedSize]
  base_le := by decide
  valid _ hi := absurd hi Bool.false_ne_true
  inside _ hi := absurd hi Bool.false_ne_true
  aligned _ hi := absurd hi Bool.false_ne_true
  apart _ _ _ hi := absurd hi Bool.false_ne_true
  larger _ _ hi := absurd hi Bool.false_ne_true
  maps := by
    intro cs hcs hram address
    refine ⟨fun hmaps => absurd hmaps (not_maps_disabled ⟨hcs, hram⟩ address), ?_⟩
    rintro ⟨i, hi, -⟩
    exact absurd hi Bool.false_ne_true

/-- **All flashes are mapped, one behind the other, exactly when they fit.** The search for the largest flash never
fails. The result is true if and only if all sizes are from 1 MiB to 128 MiB and their sum is at most 128 MiB, and
then every flash has its windows and the registers map these and nothing else. -/
theorem configureFlashMap_maps (base : Fin n → Nat) (ebu : EbuRegisters) :
    ∃ valid map, configureFlashMap flashes base ebu = some (valid, map) ∧ (valid = true ↔ FlashesFit flashes) ∧
      (valid = true → WellMapped flashes map) := by
  obtain ⟨valid, map, hrun, hiff, hplaced⟩ :=
    configureFrom_spec hknown hselects n (placed_start base ebu) (by simp)
  refine ⟨valid, map, hrun, hiff, fun hvalid => ?_⟩
  obtain ⟨base', h, hall⟩ := hplaced hvalid
  have hend := h.base_le
  constructor
  case inside =>
    intro i
    obtain ⟨hle, hle'⟩ := h.inside i (hall i)
    exact ⟨hle, hle'.trans hend⟩
  case aligned => exact fun i => h.aligned i (hall i)
  case apart => exact fun i j hne => h.apart i j hne (hall i) (hall j)
  case maps =>
    intro cs hcs hram address
    rw [h.maps cs hcs hram]
    exact ⟨fun ⟨i, _, hwindow⟩ => ⟨i, hwindow⟩, fun ⟨i, hwindow⟩ => ⟨i, hall i, hwindow⟩⟩

end

/-- The second flash is the larger one, and takes two chip selects. -/
def twoFlashes : Fin 2 → FoundFlash
  | 0 => ⟨0, 24, 2 ^ 24, false, 0, 2 ^ 24⟩
  | 1 => ⟨2, 26, 2 ^ 26, true, 3, 2 ^ 25⟩

theorem configureFlashMap_maps_two :
    ∃ valid map, configureFlashMap twoFlashes (fun _ => 0) (fun _ => ⟨0, 0⟩) = some (valid, map) ∧
      (valid = true ↔ FlashesFit twoFlashes) ∧ (valid = true → WellMapped twoFlashes map) := by
  refine configureFlashMap_maps (fun i => ?_) (by decide) (fun _ => 0) fun _ => ⟨0, 0⟩
  match i with
  | 0 => exact ⟨rfl, nofun, nofun⟩
  | 1 => exact ⟨rfl, fun _ => rfl, fun _ => by decide⟩

end Pmb887x.CfiIntel
