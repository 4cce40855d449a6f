import Pmb887x.Library.BitFields
import Pmb887x.Library.Signed
import Mathlib.Data.Nat.Bitwise
import Mathlib.Tactic.IntervalCases
import Mathlib.Tactic.Ring

set_option autoImplicit false

/-! # The clock tree (`cpu.c`)

The PLL multiplies the oscillator by `NDIV + 1` and divides it by `MDIV + 1`; a phase shifter divides twelve
times the PLL by `6 * K1 + K2`. Twelve times the PLL is no `uint32_t`, so `phase_freq` multiplies the quotient
and the remainder. All arithmetic is checked: a sum or a product that wraps and a division by zero are
faults. -/

namespace Pmb887x.Lib

open Library

/-! ## Masks -/

/-- `BIT(n)` -/
def bit (n : Nat) : UInt32 := 1 <<< UInt32.ofNat n

/-- `GENMASK(h, l)` -/
def genmask (h l : Nat) : UInt32 :=
  (0xFFFFFFFF - (1 : UInt32) <<< UInt32.ofNat l + 1) &&& (0xFFFFFFFF : UInt32) >>> UInt32.ofNat (31 - h)

/-- A field of a register, as its description has it: the first bit and the width. -/
structure RegisterField where
  first : Nat
  width : Nat

def RegisterField.get (field : RegisterField) (register : UInt32) : Nat :=
  register.toNat / 2 ^ field.first % 2 ^ field.width

theorem toNat_count {n : Nat} (h : n < 32) : (UInt32.ofNat n).toNat % 32 = n := by
  rw [UInt32.toNat_ofNat']
  omega

theorem toNat_bit {n : Nat} (h : n < 32) : (bit n).toNat = 2 ^ n := by
  rw [bit, UInt32.toNat_shiftLeft, toNat_count h, show (1 : UInt32).toNat = 1 from rfl, Nat.one_shiftLeft]
  exact Nat.mod_eq_of_lt (Nat.pow_lt_pow_right (by decide) h)

/-- `register & BIT(n)` -/
theorem and_bit_eq_zero_iff (register : UInt32) {n : Nat} (h : n < 32) :
    register &&& bit n = 0 ↔ register.toNat.testBit n = false := by
  rw [← UInt32.toNat_inj, UInt32.toNat_and, toNat_bit h, Nat.and_two_pow]
  cases register.toNat.testBit n
  · simp
  · simp

/-- A run of ones, shifted right. -/
theorem ones_div (a b : Nat) : (2 ^ (a + b) - 1) / 2 ^ b = 2 ^ a - 1 := by
  have ha : 0 < 2 ^ a := Nat.two_pow_pos a
  have hb : 0 < 2 ^ b := Nat.two_pow_pos b
  have hsplit : 2 ^ (a + b) - 1 = 2 ^ b - 1 + 2 ^ b * (2 ^ a - 1) := by
    have hle : 2 ^ b ≤ 2 ^ b * 2 ^ a := Nat.le_mul_of_pos_right _ ha
    rw [Nat.pow_add, Nat.mul_comm, Nat.mul_sub, Nat.mul_one]
    omega
  rw [hsplit, Nat.add_mul_div_left _ _ hb, Nat.div_eq_of_lt (by omega), Nat.zero_add]

/-- The bits from `l` to `h`. -/
theorem toNat_genmask {h l : Nat} (hl : l ≤ h) (hh : h < 32) :
    (genmask h l).toNat = (2 ^ (h + 1 - l) - 1) <<< l := by
  have hmax : (0xFFFFFFFF : UInt32).toNat = 2 ^ 32 - 1 := rfl
  have hlow : 2 ^ l ≤ 2 ^ 31 := Nat.pow_le_pow_right (by decide) (by omega)
  have hpos : 0 < 2 ^ l := Nat.two_pow_pos l
  have hone : ((1 : UInt32) <<< UInt32.ofNat l).toNat = 2 ^ l := toNat_bit (by omega)
  have hclear : (0xFFFFFFFF - (1 : UInt32) <<< UInt32.ofNat l + 1).toNat
      = 2 ^ 32 - 1 - (2 ^ l - 1) := by
    have hle : (1 : UInt32) <<< UInt32.ofNat l ≤ 0xFFFFFFFF := by
      rw [UInt32.le_iff_toNat_le, hone, hmax]
      omega
    rw [UInt32.toNat_add, UInt32.toNat_sub_of_le _ _ hle, hone, hmax,
      show (1 : UInt32).toNat = 1 from rfl]
    omega
  have htop : ((0xFFFFFFFF : UInt32) >>> UInt32.ofNat (31 - h)).toNat = 2 ^ (h + 1) - 1 := by
    rw [UInt32.toNat_shiftRight, toNat_count (by omega), Nat.shiftRight_eq_div_pow, hmax,
      show 32 = h + 1 + (31 - h) by omega, ones_div]
  have hdiv : (2 ^ (h + 1) - 1) / 2 ^ l = 2 ^ (h + 1 - l) - 1 := by
    conv_lhs => rw [show h + 1 = h + 1 - l + l by omega]
    exact ones_div _ _
  have hfits : 2 ^ (h + 1) - 1 < 2 ^ 32 := by
    have hle : 2 ^ (h + 1) ≤ 2 ^ 32 := Nat.pow_le_pow_right (by decide) (by omega)
    omega
  rw [genmask, UInt32.toNat_and, hclear, htop, Nat.and_comm, and_clear_low hfits (by omega), hdiv,
    Nat.shiftLeft_eq]

/-- `(register & mask) >> shift` takes the field out that the mask covers. -/
theorem masked_eq (register : UInt32) (field : RegisterField) (hpos : 0 < field.width)
    (hfits : field.first + field.width ≤ 32) :
    ((register &&& genmask (field.first + field.width - 1) field.first)
      >>> UInt32.ofNat field.first).toNat = field.get register := by
  have hwidth : field.first + field.width - 1 + 1 - field.first = field.width := by omega
  rw [UInt32.toNat_shiftRight, toNat_count (by omega), UInt32.toNat_and,
    toNat_genmask (by omega) (by omega), hwidth, and_mask, Nat.shiftRight_eq_div_pow,
    Nat.mul_div_cancel _ (Nat.two_pow_pos _), RegisterField.get]

/-! ## The registers -/

def cpuOscFreq : Nat := 26000000

/-- The registers of the clock generator that are read for the PLL and the phase shifters. -/
structure CguRegisters where
  osc : UInt32
  con0 : UInt32
  stat : UInt32

def cguOscPllPowerUp : UInt32 := bit 0
def cguOscPllBypassN : UInt32 := bit 8
def cguOscNdiv : UInt32 := genmask 21 16
def cguOscNdivShift : UInt32 := 16
def cguOscMdiv : UInt32 := genmask 27 24
def cguOscMdivShift : UInt32 := 24
def cguStatLock : UInt32 := bit 13

/-- The masks of one phase shifter in `CGU_OSC` and `CGU_CON0`. -/
structure PhaseMasks where
  powerUp : UInt32
  bypassN : UInt32
  k1 : UInt32
  k1Shift : UInt32
  k2 : UInt32
  k2Shift : UInt32

/-- The cases of the `switch` in `cpu_get_phase_freq`. -/
def phaseMasks : Nat → Option PhaseMasks
  | 1 => some
      { powerUp := bit 1, bypassN := bit 9
        k1 := genmask 6 3, k1Shift := 3, k2 := genmask 2 0, k2Shift := 0 }
  | 2 => some
      { powerUp := bit 2, bypassN := bit 10
        k1 := genmask 14 11, k1Shift := 11, k2 := genmask 10 8, k2Shift := 8 }
  | 3 => some
      { powerUp := bit 3, bypassN := bit 11
        k1 := genmask 22 19, k1Shift := 19, k2 := genmask 18 16, k2Shift := 16 }
  | 4 => some
      { powerUp := bit 4, bypassN := bit 12
        k1 := genmask 30 27, k1Shift := 27, k2 := genmask 26 24, k2Shift := 24 }
  | _ => none

/-! ## The frequencies -/

def phaseFreq (pllFreq k1 k2 : Nat) : Checked Nat :=
  if pllFreq = 0 ∨ k1 = 0 ∨ k2 > 5 then return 0
  else do
    let sixfold ← Checked.mul k1 6
    let divider ← Checked.add sixfold k2
    let whole ← quotient pllFreq divider
    let whole ← Checked.mul whole 12
    let rest ← remainder pllFreq divider
    let rest ← Checked.mul rest 12
    let rest ← quotient rest divider
    Checked.add whole rest

def getPllCoreFreq (r : CguRegisters) : Checked Nat :=
  if r.osc &&& cguOscPllPowerUp = 0 ∨ r.stat &&& cguStatLock = 0 then return 0
  else do
    let ndiv := ((r.osc &&& cguOscNdiv) >>> cguOscNdivShift).toNat
    let mdiv := ((r.osc &&& cguOscMdiv) >>> cguOscMdivShift).toNat
    let factor ← Checked.add ndiv 1
    let product ← Checked.mul cpuOscFreq factor
    let divider ← Checked.add mdiv 1
    quotient product divider

def cpuGetPllFreq (r : CguRegisters) : Checked Nat :=
  if r.osc &&& cguOscPllBypassN = 0 then return cpuOscFreq else getPllCoreFreq r

def cpuGetPhaseFreq (r : CguRegisters) (phase : Nat) : Checked Nat :=
  match phaseMasks phase with
  | none => return 0
  | some masks => do
      let k1 := ((r.con0 &&& masks.k1) >>> masks.k1Shift).toNat
      let k2 := ((r.con0 &&& masks.k2) >>> masks.k2Shift).toNat
      if r.osc &&& masks.bypassN = 0 then cpuGetPllFreq r
      else if r.osc &&& masks.powerUp = 0 then return 0
      else do
        let pllFreq ← getPllCoreFreq r
        phaseFreq pllFreq k1 k2

/-! ## What the registers say -/

def ndivField : RegisterField := ⟨16, 6⟩
def mdivField : RegisterField := ⟨24, 4⟩

/-- `PHASEn_K2` -/
def k2Field (phase : Nat) : RegisterField := ⟨8 * (phase - 1), 3⟩

/-- `PHASEn_K1` -/
def k1Field (phase : Nat) : RegisterField := ⟨8 * (phase - 1) + 3, 4⟩

/-- The PLL is powered up and locked. -/
def CguRegisters.PllRuns (r : CguRegisters) : Prop :=
  r.osc.toNat.testBit 0 = true ∧ r.stat.toNat.testBit 13 = true

/-- The phase shifter is powered up. -/
def CguRegisters.PhasePowered (r : CguRegisters) (phase : Nat) : Prop :=
  r.osc.toNat.testBit phase = true

/-- The output of the phase shifter is not bypassed. -/
def CguRegisters.PhaseUsed (r : CguRegisters) (phase : Nat) : Prop :=
  r.osc.toNat.testBit (phase + 8) = true

/-- The frequency of the PLL, whether it is used or not. -/
def CguRegisters.pllCore (r : CguRegisters) : Nat :=
  cpuOscFreq * (ndivField.get r.osc + 1) / (mdivField.get r.osc + 1)

theorem RegisterField.get_lt (field : RegisterField) (register : UInt32) :
    field.get register < 2 ^ field.width :=
  Nat.mod_lt _ (Nat.two_pow_pos _)

/-! ## The arithmetic -/

/-- Multiplying the quotient and the remainder apart loses nothing. -/
theorem split_mul_div (n m : Nat) {d : Nat} (hd : 0 < d) :
    n / d * m + n % d * m / d = m * n / d := by
  have hsplit : m * n = n % d * m + d * (n / d * m) := by
    calc m * n = (d * (n / d) + n % d) * m := by rw [Nat.div_add_mod, Nat.mul_comm]
      _ = n % d * m + d * (n / d * m) := by ring
  rw [hsplit, Nat.add_mul_div_left _ _ hd, Nat.add_comm]

/-- `phase_freq` is the plain quotient, for every divider the fields can hold. -/
theorem phaseFreq_eq {pllFreq k1 k2 : Nat} (hpll : pllFreq ≤ cpuOscFreq * 64) (hpos : 0 < k1)
    (hk1 : k1 < 16) (hk2 : k2 ≤ 5) : phaseFreq pllFreq k1 k2 = .ok (12 * pllFreq / (6 * k1 + k2)) := by
  have hosc : cpuOscFreq = 26000000 := rfl
  have hdivider : k1 * 6 + k2 = 6 * k1 + k2 := by rw [Nat.mul_comm]
  have hd : 0 < 6 * k1 + k2 := by omega
  by_cases hzero : pllFreq = 0
  · rw [phaseFreq, if_pos (.inl hzero), hzero, Nat.mul_zero, Nat.zero_div]
    rfl
  · -- the quotient is at most a sixth of the PLL, the remainder is below the divider
    have hwhole : pllFreq / (6 * k1 + k2) ≤ pllFreq / 6 := Nat.div_le_div_left (by omega) (by decide)
    have hrest : pllFreq % (6 * k1 + k2) < 6 * k1 + k2 := Nat.mod_lt _ hd
    have hlast : pllFreq % (6 * k1 + k2) * 12 / (6 * k1 + k2) < 12 :=
      Nat.div_lt_of_lt_mul (by rw [Nat.mul_comm _ 12, Nat.mul_comm _ 12]; omega)
    rw [phaseFreq, if_neg (by omega), Checked.mul_of_lt (by omega), Checked.ok_bind,
      Checked.add_of_lt (by omega), Checked.ok_bind, hdivider, quotient_ok (by omega), Checked.ok_bind,
      Checked.mul_of_lt (by omega), Checked.ok_bind, remainder_ok (by omega), Checked.ok_bind,
      Checked.mul_of_lt (by omega), Checked.ok_bind, quotient_ok (by omega), Checked.ok_bind,
      Checked.add_of_lt (by omega), split_mul_div _ _ hd]

/-- A phase with another divider is off. -/
theorem phaseFreq_off {pllFreq k1 k2 : Nat} (h : k1 = 0 ∨ 5 < k2) : phaseFreq pllFreq k1 k2 = .ok 0 :=
  if_pos (.inr h)

section Registers

variable (r : CguRegisters)

theorem masked_ndiv :
    ((r.osc &&& cguOscNdiv) >>> cguOscNdivShift).toNat = ndivField.get r.osc :=
  masked_eq r.osc ndivField (by decide) (by decide)

theorem masked_mdiv :
    ((r.osc &&& cguOscMdiv) >>> cguOscMdivShift).toNat = mdivField.get r.osc :=
  masked_eq r.osc mdivField (by decide) (by decide)

/-- The masks of a phase shifter cover its fields. -/
theorem phaseMasks_eq {phase : Nat} {masks : PhaseMasks} (h : phaseMasks phase = some masks) :
    1 ≤ phase ∧ phase ≤ 4 ∧ masks.powerUp = bit phase ∧ masks.bypassN = bit (phase + 8) ∧
      ((r.con0 &&& masks.k1) >>> masks.k1Shift).toNat = (k1Field phase).get r.con0 ∧
      ((r.con0 &&& masks.k2) >>> masks.k2Shift).toNat = (k2Field phase).get r.con0 := by
  have hk1 : phase ≤ 4 →
      ((r.con0 &&& genmask ((k1Field phase).first + (k1Field phase).width - 1) (k1Field phase).first)
        >>> UInt32.ofNat (k1Field phase).first).toNat = (k1Field phase).get r.con0 := by
    intro hle
    apply masked_eq
    · exact Nat.succ_pos 3
    · simp only [k1Field]
      omega
  have hk2 : phase ≤ 4 →
      ((r.con0 &&& genmask ((k2Field phase).first + (k2Field phase).width - 1) (k2Field phase).first)
        >>> UInt32.ofNat (k2Field phase).first).toNat = (k2Field phase).get r.con0 := by
    intro hle
    apply masked_eq
    · exact Nat.succ_pos 2
    · simp only [k2Field]
      omega
  match phase, h with
  | 1, rfl => exact ⟨by decide, by decide, rfl, rfl, hk1 (by decide), hk2 (by decide)⟩
  | 2, rfl => exact ⟨by decide, by decide, rfl, rfl, hk1 (by decide), hk2 (by decide)⟩
  | 3, rfl => exact ⟨by decide, by decide, rfl, rfl, hk1 (by decide), hk2 (by decide)⟩
  | 4, rfl => exact ⟨by decide, by decide, rfl, rfl, hk1 (by decide), hk2 (by decide)⟩

/-- A bit test of `CGU_OSC` or `CGU_STAT`. -/
theorem pllRuns_iff : ¬ (r.osc &&& cguOscPllPowerUp = 0 ∨ r.stat &&& cguStatLock = 0) ↔ r.PllRuns := by
  rw [cguOscPllPowerUp, cguStatLock, and_bit_eq_zero_iff _ (by decide),
    and_bit_eq_zero_iff _ (by decide), CguRegisters.PllRuns, not_or, Bool.not_eq_false,
    Bool.not_eq_false]

theorem pllCore_le : r.pllCore ≤ cpuOscFreq * 64 := by
  have hndiv := ndivField.get_lt r.osc
  calc r.pllCore ≤ cpuOscFreq * (ndivField.get r.osc + 1) := Nat.div_le_self _ _
    _ ≤ cpuOscFreq * 64 := Nat.mul_le_mul_left _ hndiv

/-- The PLL, powered and locked. -/
theorem getPllCoreFreq_running (h : r.PllRuns) : getPllCoreFreq r = .ok r.pllCore := by
  have hosc : cpuOscFreq = 26000000 := rfl
  have hndiv : ndivField.get r.osc < 64 := ndivField.get_lt r.osc
  have hmdiv : mdivField.get r.osc < 16 := mdivField.get_lt r.osc
  rw [getPllCoreFreq, if_neg ((pllRuns_iff r).2 h), masked_ndiv, masked_mdiv]
  dsimp only
  rw [Checked.add_of_lt (by omega), Checked.ok_bind, Checked.mul_of_lt (by rw [hosc]; omega),
    Checked.ok_bind, Checked.add_of_lt (by omega), Checked.ok_bind, quotient_ok (by omega),
    CguRegisters.pllCore]

theorem getPllCoreFreq_stopped (h : ¬ r.PllRuns) : getPllCoreFreq r = .ok 0 :=
  if_pos (Classical.not_not.1 (mt (pllRuns_iff r).1 h))

/-- The PLL has a frequency in either case. -/
theorem exists_getPllCoreFreq : ∃ core, getPllCoreFreq r = .ok core ∧ core ≤ cpuOscFreq * 64 ∧
    (r.PllRuns → core = r.pllCore) := by
  by_cases h : r.PllRuns
  · exact ⟨r.pllCore, getPllCoreFreq_running r h, pllCore_le r, fun _ => rfl⟩
  · exact ⟨0, getPllCoreFreq_stopped r h, Nat.zero_le _, fun hruns => absurd hruns h⟩

/-- The bypass replaces the PLL by the oscillator. -/
theorem cpuGetPllFreq_eq {core : Nat} (hcore : getPllCoreFreq r = .ok core) :
    cpuGetPllFreq r = .ok (if r.osc.toNat.testBit 8 then core else cpuOscFreq) := by
  have hbypass : r.osc &&& cguOscPllBypassN = 0 ↔ r.osc.toNat.testBit 8 = false :=
    and_bit_eq_zero_iff _ (by decide)
  rw [cpuGetPllFreq]
  cases hbit : r.osc.toNat.testBit 8
  · rw [if_pos (hbypass.2 hbit)]
    rfl
  · rw [if_neg (by rw [hbypass, hbit]; decide), hcore]
    rfl

/-- A phase has a frequency in every case; where it divides the PLL the quotient is exact. -/
theorem exists_cpuGetPhaseFreq {core : Nat} (hcore : getPllCoreFreq r = .ok core)
    (hle : core ≤ cpuOscFreq * 64) (phase : Nat) :
    ∃ freq, cpuGetPhaseFreq r phase = .ok freq ∧
      (1 ≤ phase → phase ≤ 4 → r.PhaseUsed phase → r.PhasePowered phase →
        0 < (k1Field phase).get r.con0 → (k2Field phase).get r.con0 ≤ 5 →
        freq = 12 * core / (6 * (k1Field phase).get r.con0 + (k2Field phase).get r.con0)) := by
  rw [cpuGetPhaseFreq]
  cases hmasks : phaseMasks phase with
  | none =>
      refine ⟨0, rfl, fun hlow hhigh => ?_⟩
      interval_cases phase <;> cases hmasks
  | some masks =>
      obtain ⟨hlow, hhigh, hpower, hbypass, hk1, hk2⟩ := phaseMasks_eq r hmasks
      have hused : r.osc &&& masks.bypassN = 0 ↔ r.osc.toNat.testBit (phase + 8) = false := by
        rw [hbypass, and_bit_eq_zero_iff _ (by omega)]
      have hpowered : r.osc &&& masks.powerUp = 0 ↔ r.osc.toNat.testBit phase = false := by
        rw [hpower, and_bit_eq_zero_iff _ (by omega)]
      have hk1lt : (k1Field phase).get r.con0 < 16 := (k1Field phase).get_lt r.con0
      dsimp only
      rw [hk1, hk2]
      by_cases hbit : r.osc &&& masks.bypassN = 0
      · -- bypassed: the phase is not used
        rw [if_pos hbit, cpuGetPllFreq_eq r hcore]
        refine ⟨_, rfl, fun _ _ huse => ?_⟩
        rw [CguRegisters.PhaseUsed, hused.1 hbit] at huse
        cases huse
      · rw [if_neg hbit]
        by_cases hoff : r.osc &&& masks.powerUp = 0
        · rw [if_pos hoff]
          refine ⟨0, rfl, fun _ _ _ hon => ?_⟩
          rw [CguRegisters.PhasePowered, hpowered.1 hoff] at hon
          cases hon
        · rw [if_neg hoff, hcore, Checked.ok_bind]
          by_cases hrange : 0 < (k1Field phase).get r.con0 ∧ (k2Field phase).get r.con0 ≤ 5
          · exact ⟨_, phaseFreq_eq hle hrange.1 hk1lt hrange.2, fun _ _ _ _ _ _ => rfl⟩
          · refine ⟨0, phaseFreq_off (by omega), fun _ _ _ _ hpos hsmall => ?_⟩
            exact absurd ⟨hpos, hsmall⟩ hrange

end Registers

/-- **The clock tree is exact.** Whatever the registers hold, no division is by zero and nothing wraps; a PLL
that runs has exactly the quotient of its description, and so has a phase that is used, powered and has a
divider in its range, since the split multiplication is the plain one for every divider. -/
theorem cpuFrequencies_exact (r : CguRegisters) :
    ∃ core, getPllCoreFreq r = .ok core ∧
      (r.PllRuns → core = cpuOscFreq * (ndivField.get r.osc + 1) / (mdivField.get r.osc + 1)) ∧
      cpuGetPllFreq r = .ok (if r.osc.toNat.testBit 8 then core else cpuOscFreq) ∧
      (∀ k1 k2, 0 < k1 → k1 < 2 ^ 4 → k2 ≤ 5 →
        phaseFreq core k1 k2 = .ok (12 * core / (6 * k1 + k2))) ∧
      ∀ phase, ∃ freq, cpuGetPhaseFreq r phase = .ok freq ∧
        (1 ≤ phase → phase ≤ 4 → r.PhaseUsed phase → r.PhasePowered phase →
          0 < (k1Field phase).get r.con0 → (k2Field phase).get r.con0 ≤ 5 →
          freq = 12 * core / (6 * (k1Field phase).get r.con0 + (k2Field phase).get r.con0)) := by
  obtain ⟨core, hcore, hle, hruns⟩ := exists_getPllCoreFreq r
  exact ⟨core, hcore, hruns, cpuGetPllFreq_eq r hcore,
    fun k1 k2 hpos hk1 hk2 => phaseFreq_eq hle hpos hk1 hk2,
    fun phase => exists_cpuGetPhaseFreq r hcore hle phase⟩

/-- The PLL at 312 MHz: the phase with `K1 = 2`, `K2 = 1` has twelve thirteenths of it. -/
example : cpuGetPhaseFreq ⟨0x000B1F1F, 0x11, 0x2000⟩ 1 = .ok 288000000 := by decide

end Pmb887x.Lib
