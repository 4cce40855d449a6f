import Mathlib

set_option autoImplicit false

/-! # The baud rate of the serial port (`usart.c`)

`usart_set_speed` turns a rate into a divider and a fractional divider of the module clock. The rate comes
from the host without a check (`cmd_set_speed`), so every `uint32_t` can be one. -/

namespace Pmb887x.Lib

/-! ## Rounded division -/

/-- A quotient to the nearest is wrong by at most half the divisor. -/
theorem nearest_div_bounds {n d : Nat} (hd : 0 < d) :
    2 * (d * ((n + d / 2) / d)) ≤ 2 * n + d ∧ 2 * n ≤ 2 * (d * ((n + d / 2) / d)) + d := by
  have hdivision := Nat.div_add_mod (n + d / 2) d
  have hrest := Nat.mod_lt (n + d / 2) hd
  constructor
  · omega
  · omega

/-- A quotient to the nearest is zero below half the divisor. -/
theorem nearest_div_pos_iff {n d : Nat} (hd : 0 < d) : 0 < (n + d / 2) / d ↔ d ≤ 2 * n := by
  rw [Nat.div_pos_iff]
  omega

/-! ## The registers -/

/-- What is written to `USART_BG` and `USART_FDV`. -/
structure SpeedRegisters where
  bg : Nat
  fdv : Nat
  deriving DecidableEq

def usartBaudDividerMax : Nat := 8192
def usartFdvScale : Nat := 512

/-- `cpu_get_fpi1_freq() >> 4` -/
def maxBaudRate (fpi1Freq : UInt32) : Nat := fpi1Freq.toNat >>> 4

/-- `divider`, for a baud rate that is not zero -/
def baudDivider (fpi1Freq baudRate : UInt32) : Nat :=
  min (maxBaudRate fpi1Freq / baudRate.toNat) usartBaudDividerMax

/-- `(uint64_t) baud_rate * divider * USART_FDV_SCALE`, before it is a `uint64_t` -/
def scaledBaudRate (fpi1Freq baudRate : UInt32) : Nat :=
  baudRate.toNat * baudDivider fpi1Freq baudRate * usartFdvScale

/-- `fractional_divider`, for a module clock that is not zero -/
def fractionalDivider (fpi1Freq baudRate : UInt32) : Nat :=
  ((scaledBaudRate fpi1Freq baudRate % 2 ^ 64 + maxBaudRate fpi1Freq / 2) % 2 ^ 64 /
    maxBaudRate fpi1Freq) % 2 ^ 32

/-- The value of `USART_FDV` for a fractional divider: zero stands for 512. -/
def encodeFraction (fractionalDivider : Nat) : Nat :=
  if fractionalDivider = usartFdvScale then 0 else fractionalDivider

/-- `usart_set_speed`; a division by zero has no result. -/
def usartSetSpeed (fpi1Freq baudRate : UInt32) : Option SpeedRegisters :=
  if baudRate = 0 ∨ maxBaudRate fpi1Freq = 0 then none
  else
    some
      { bg := (baudDivider fpi1Freq baudRate + 2 ^ 32 - 1) % 2 ^ 32
        fdv := encodeFraction (fractionalDivider fpi1Freq baudRate) }

/-! ## The rate -/

/-- What a fractional divider stands for. -/
def SpeedRegisters.fraction (r : SpeedRegisters) : Nat := if r.fdv = 0 then usartFdvScale else r.fdv

/-- The rate that the registers make of the module clock. -/
def SpeedRegisters.rate (r : SpeedRegisters) (clock : Nat) : ℚ :=
  clock * r.fraction / (usartFdvScale * (r.bg + 1))

/-- Half a step of the fractional divider. -/
def SpeedRegisters.halfStep (r : SpeedRegisters) (clock : Nat) : ℚ := clock / (1024 * (r.bg + 1))

/-- The registers are in their ranges, and the rate is as close to the requested one as the fractional
divider allows, for a request that the clock can meet. -/
structure SpeedSet (fpi1Freq baudRate : UInt32) (r : SpeedRegisters) : Prop where
  bg_le : r.bg ≤ 8191
  fdv_le : r.fdv ≤ 511
  scaled_lt : scaledBaudRate fpi1Freq baudRate < 2 ^ 64
  rate_close : baudRate.toNat ≤ maxBaudRate fpi1Freq →
    |r.rate (maxBaudRate fpi1Freq) - baudRate.toNat| ≤ r.halfStep (maxBaudRate fpi1Freq)

/-- The division is defined, and its result is right. -/
def SetsSpeed (fpi1Freq baudRate : UInt32) : Prop :=
  ∃ r, usartSetSpeed fpi1Freq baudRate = some r ∧ SpeedSet fpi1Freq baudRate r

variable {fpi1Freq baudRate : UInt32}

theorem encodeFraction_le {n : Nat} (h : n ≤ 512) : encodeFraction n ≤ 511 := by
  rw [encodeFraction, usartFdvScale]
  split_ifs
  · exact Nat.zero_le _
  · omega

theorem fraction_encodeFraction {n : Nat} (h : 0 < n) (bg : Nat) :
    SpeedRegisters.fraction { bg := bg, fdv := encodeFraction n } = n := by
  dsimp only [SpeedRegisters.fraction, encodeFraction]
  split_ifs with hfull hzero hzero
  · exact hfull.symm
  · exact absurd rfl hzero
  · omega
  · rfl

/-- A rate is close if its numerator is. -/
theorem rate_close_iff {clock baud : Nat} (r : SpeedRegisters) :
    |r.rate clock - baud| ≤ r.halfStep clock ↔
      2 * (clock * r.fraction) ≤ 2 * (baud * (r.bg + 1) * 512) + clock ∧
      2 * (baud * (r.bg + 1) * 512) ≤ 2 * (clock * r.fraction) + clock := by
  have hpos : (0 : ℚ) < 1024 * (r.bg + 1) := by positivity
  have hrate : r.rate clock - baud
      = (2 * (clock * r.fraction) - 2 * (baud * (r.bg + 1) * 512)) / (1024 * (r.bg + 1)) := by
    rw [SpeedRegisters.rate, usartFdvScale]
    push_cast
    field_simp
    ring
  rw [hrate, SpeedRegisters.halfStep, abs_div, abs_of_pos hpos, div_le_div_iff_of_pos_right hpos,
    abs_le]
  constructor
  · rintro ⟨hlow, hhigh⟩
    constructor
    · have : (2 * (clock * r.fraction) : ℚ) ≤ 2 * (baud * (r.bg + 1) * 512) + clock := by linarith
      exact_mod_cast this
    · have : (2 * (baud * (r.bg + 1) * 512) : ℚ) ≤ 2 * (clock * r.fraction) + clock := by linarith
      exact_mod_cast this
  · rintro ⟨hhigh, hlow⟩
    have hhigh' : (2 * (clock * r.fraction) : ℚ) ≤ 2 * (baud * (r.bg + 1) * 512) + clock := by
      exact_mod_cast hhigh
    have hlow' : (2 * (baud * (r.bg + 1) * 512) : ℚ) ≤ 2 * (clock * r.fraction) + clock := by
      exact_mod_cast hlow
    constructor
    · linarith
    · linarith

/-! ## Rates up to the clock -/

theorem maxBaudRate_lt (fpi1Freq : UInt32) : maxBaudRate fpi1Freq < 2 ^ 28 := by
  have hfreq := fpi1Freq.toNat_lt
  rw [maxBaudRate, Nat.shiftRight_eq_div_pow]
  omega

theorem baudDivider_le (fpi1Freq baudRate : UInt32) : baudDivider fpi1Freq baudRate ≤ 8192 :=
  Nat.min_le_right _ _

theorem baudRate_mul_divider_le (fpi1Freq baudRate : UInt32) :
    baudRate.toNat * baudDivider fpi1Freq baudRate ≤ maxBaudRate fpi1Freq :=
  calc baudRate.toNat * baudDivider fpi1Freq baudRate
      ≤ baudRate.toNat * (maxBaudRate fpi1Freq / baudRate.toNat) :=
        Nat.mul_le_mul_left _ (Nat.min_le_left _ _)
    _ ≤ maxBaudRate fpi1Freq := Nat.mul_div_le _ _

/-- The scaled product of every request keeps all its bits. -/
theorem scaledBaudRate_le (fpi1Freq baudRate : UInt32) :
    scaledBaudRate fpi1Freq baudRate ≤ maxBaudRate fpi1Freq * 512 :=
  Nat.mul_le_mul_right 512 (baudRate_mul_divider_le fpi1Freq baudRate)

/-- The fractional divider is the scaled rate to the nearest. -/
theorem fractionalDivider_eq (hclock : 0 < maxBaudRate fpi1Freq) :
    fractionalDivider fpi1Freq baudRate
      = (scaledBaudRate fpi1Freq baudRate + maxBaudRate fpi1Freq / 2) / maxBaudRate fpi1Freq ∧
    fractionalDivider fpi1Freq baudRate ≤ 512 := by
  have hscaled := scaledBaudRate_le fpi1Freq baudRate
  have hlt := maxBaudRate_lt fpi1Freq
  have hquotient : (scaledBaudRate fpi1Freq baudRate + maxBaudRate fpi1Freq / 2) /
      maxBaudRate fpi1Freq < 513 := by
    rw [Nat.div_lt_iff_lt_mul hclock]
    omega
  have hsame : fractionalDivider fpi1Freq baudRate
      = (scaledBaudRate fpi1Freq baudRate + maxBaudRate fpi1Freq / 2) / maxBaudRate fpi1Freq := by
    have hfits : scaledBaudRate fpi1Freq baudRate + maxBaudRate fpi1Freq / 2 < 2 ^ 64 := by omega
    rw [fractionalDivider, Nat.mod_eq_of_lt (by omega : scaledBaudRate fpi1Freq baudRate < 2 ^ 64),
      Nat.mod_eq_of_lt hfits, Nat.mod_eq_of_lt (by omega)]
  exact ⟨hsame, by omega⟩

theorem baudDivider_pos (hbaud : 0 < baudRate.toNat)
    (hle : baudRate.toNat ≤ maxBaudRate fpi1Freq) : 0 < baudDivider fpi1Freq baudRate :=
  Nat.lt_min.mpr ⟨Nat.div_pos hle hbaud, by decide⟩

/-- The fractional divider is zero only for requests that are too slow for the largest divider. -/
theorem fractionalDivider_pos_iff (hbaud : 0 < baudRate.toNat)
    (hle : baudRate.toNat ≤ maxBaudRate fpi1Freq) :
    0 < fractionalDivider fpi1Freq baudRate ↔ maxBaudRate fpi1Freq ≤ 2 ^ 23 * baudRate.toNat := by
  have hclock := hbaud.trans_le hle
  have hpos := baudDivider_pos hbaud hle
  rw [(fractionalDivider_eq hclock).1, nearest_div_pos_iff hclock, scaledBaudRate, usartFdvScale]
  rcases Nat.lt_or_ge (maxBaudRate fpi1Freq / baudRate.toNat) 8192 with hsmall | hlarge
  · -- the divider is the quotient, and the rest is less than the rate
    have hdivider : baudDivider fpi1Freq baudRate = maxBaudRate fpi1Freq / baudRate.toNat :=
      Nat.min_eq_left hsmall.le
    have hrest : maxBaudRate fpi1Freq < baudRate.toNat * baudDivider fpi1Freq baudRate + baudRate.toNat := by
      rw [hdivider]
      exact Nat.lt_mul_div_succ _ hbaud
    have htwice : baudRate.toNat ≤ baudRate.toNat * baudDivider fpi1Freq baudRate :=
      Nat.le_mul_of_pos_right _ hpos
    have hslow : maxBaudRate fpi1Freq < 8192 * baudRate.toNat :=
      (Nat.div_lt_iff_lt_mul hbaud).mp hsmall
    constructor
    · intro _
      omega
    · intro _
      omega
  · have hdivider : baudDivider fpi1Freq baudRate = 8192 := Nat.min_eq_right hlarge
    rw [hdivider]
    constructor
    · intro h
      omega
    · intro h
      omega

theorem usartSetSpeed_eq (hbaud : 0 < baudRate.toNat)
    (hle : baudRate.toNat ≤ maxBaudRate fpi1Freq) : usartSetSpeed fpi1Freq baudRate = some
      { bg := baudDivider fpi1Freq baudRate - 1
        fdv := encodeFraction (fractionalDivider fpi1Freq baudRate) } := by
  have hpos := baudDivider_pos hbaud hle
  have hdivider := baudDivider_le fpi1Freq baudRate
  have hne : ¬(baudRate = 0 ∨ maxBaudRate fpi1Freq = 0) := by
    rintro (hzero | hzero)
    · rw [hzero] at hbaud
      exact absurd hbaud (by decide)
    · omega
  rw [usartSetSpeed, if_neg hne,
    show (baudDivider fpi1Freq baudRate + 2 ^ 32 - 1) % 2 ^ 32 = baudDivider fpi1Freq baudRate - 1 by omega]

/-- For requests up to the clock the ranges are kept, and the rate is close unless the fractional divider
is zero: a zero stands for 512. -/
theorem setsSpeed_iff_of_le (hbaud : 0 < baudRate.toNat)
    (hle : baudRate.toNat ≤ maxBaudRate fpi1Freq) :
    SetsSpeed fpi1Freq baudRate ↔ 0 < fractionalDivider fpi1Freq baudRate := by
  have hclock := hbaud.trans_le hle
  have hpos := baudDivider_pos hbaud hle
  have hdivider := baudDivider_le fpi1Freq baudRate
  have hscaled := scaledBaudRate_le fpi1Freq baudRate
  have hlt := maxBaudRate_lt fpi1Freq
  obtain ⟨hfraction, hle512⟩ := @fractionalDivider_eq fpi1Freq baudRate hclock
  have hbounds := nearest_div_bounds (n := scaledBaudRate fpi1Freq baudRate) hclock
  rw [← hfraction] at hbounds
  have hproduct : baudRate.toNat * (baudDivider fpi1Freq baudRate - 1 + 1) * 512
      = scaledBaudRate fpi1Freq baudRate := by
    rw [Nat.sub_add_cancel hpos]
    rfl
  rw [SetsSpeed, usartSetSpeed_eq hbaud hle]
  constructor
  · rintro ⟨r, hr, hset⟩
    obtain rfl := Option.some.inj hr
    by_contra hzero
    have hclose := (rate_close_iff _).mp (hset.rate_close hle)
    have hnone : fractionalDivider fpi1Freq baudRate = 0 := Nat.eq_zero_of_not_pos hzero
    have hstands : ∀ bg, SpeedRegisters.fraction { bg := bg, fdv := encodeFraction 0 } = 512 :=
      fun _ => rfl
    rw [hproduct, hnone, hstands] at hclose
    rw [hnone] at hbounds
    omega
  · intro hfpos
    refine ⟨_, rfl, ?_, encodeFraction_le hle512, by omega, fun _ => (rate_close_iff _).mpr ?_⟩
    · show baudDivider fpi1Freq baudRate - 1 ≤ 8191
      omega
    · rw [hproduct, fraction_encodeFraction hfpos]
      exact hbounds

/-- **When the speed is set right.** A request of zero divides by zero, one above the clock gives a divider
of zero, and one below the clock's 2²³rd part rounds to a fractional divider of zero. -/
theorem usartSetSpeed_iff (fpi1Freq baudRate : UInt32) :
    SetsSpeed fpi1Freq baudRate ↔
      0 < baudRate.toNat ∧ baudRate.toNat ≤ fpi1Freq.toNat / 16 ∧
        fpi1Freq.toNat / 16 ≤ 2 ^ 23 * baudRate.toNat := by
  have hmax : maxBaudRate fpi1Freq = fpi1Freq.toNat / 16 := Nat.shiftRight_eq_div_pow _ 4
  rw [← hmax]
  by_cases hbaud : 0 < baudRate.toNat
  · by_cases hle : baudRate.toNat ≤ maxBaudRate fpi1Freq
    · rw [setsSpeed_iff_of_le hbaud hle, fractionalDivider_pos_iff hbaud hle]
      simp only [hbaud, hle, true_and]
    · -- the divider is zero, so the register gets the largest `uint32_t`
      simp only [hle, false_and, and_false, iff_false]
      rintro ⟨r, hr, hset⟩
      rw [usartSetSpeed] at hr
      split_ifs at hr with hnone
      obtain rfl := Option.some.inj hr
      have hbg := hset.bg_le
      have hzero : baudDivider fpi1Freq baudRate = 0 := by
        rw [baudDivider, Nat.div_eq_of_lt (Nat.lt_of_not_le hle)]
        rfl
      simp only [hzero] at hbg
      omega
  · have hzero : baudRate = 0 := UInt32.toNat_inj.mp (Nat.eq_zero_of_not_pos hbaud)
    simp only [hbaud, false_and, iff_false]
    rintro ⟨r, hr, -⟩
    rw [usartSetSpeed, if_pos (.inl hzero)] at hr
    cases hr

/-- At 26 MHz a request of zero divides by zero, and one of 2 Mbaud writes `0xFFFFFFFF` to `USART_BG`. -/
theorem usartSetSpeed_out_of_range :
    usartSetSpeed 26000000 0 = none ∧ ¬ SetsSpeed 26000000 0 ∧
    usartSetSpeed 26000000 2000000 = some { bg := 0xFFFFFFFF, fdv := 0 } ∧
    ¬ SetsSpeed 26000000 2000000 := by
  have hzero : usartSetSpeed 26000000 0 = none := by decide
  have hfast : usartSetSpeed 26000000 2000000 = some { bg := 0xFFFFFFFF, fdv := 0 } := by
    decide +kernel
  refine ⟨hzero, ?_, hfast, ?_⟩
  · rintro ⟨r, hr, -⟩
    cases hzero.symm.trans hr
  · rintro ⟨r, hr, hset⟩
    obtain rfl := Option.some.inj (hfast.symm.trans hr)
    exact absurd hset.bg_le (by decide)

end Pmb887x.Lib
