import Pmb887x.Library.BitFields
import Pmb887x.Library.Checked
import Pmb887x.GsmL1.Calls

set_option autoImplicit false

/-! # The gain of the receiver (`siemens-x85.c`, `hd155153np.c`)

The gain state is one word: the range and the step the transceiver is set to, and a residual, what
the last step was rounded by. Each monitor value moves the state on. The calibration tables are read
with a check, so that a read outside one of them is a fault. -/

namespace Pmb887x.GsmL1

open Library

/-! ## The calibration -/

def gsmTrxGainRangeCount : Nat := 3
def gsmTrxGainStepCount : Nat := 46
def gsmBandCount : Nat := 4
def gsmChannelCount : Nat := 972
def monRawValuesPerDb : Int := 16
def rxPowerMaxX8 : Int := 1000
def agcInitialGainState : UInt16 := 0x004F

structure BandCalibration where
  bandOffset : Int16
  rangeOffsets : Vector Int16 gsmTrxGainRangeCount
  range0EnterThreshold : Int16
  range0LeaveThreshold : Int16
  range2LeaveThreshold : Int16
  range2EnterThreshold : Int16

/-- `struct receiver_calibration` without the AFC points. Nothing is assumed of the values: what the
loaders accept is among them. -/
structure ReceiverCalibration where
  rxPowerOffset : Int16
  bands : Vector BandCalibration gsmBandCount
  gainValuesX8 : Vector Int16 gsmTrxGainStepCount
  channelCorrections : Vector (Vector Int8 gsmChannelCount) gsmTrxGainRangeCount

/-- The number of a band in `enum gsm_band`. -/
def GsmBand.index : GsmBand → Nat
  | .gsm900 => 0
  | .dcs1800 => 1
  | .pcs1900 => 2
  | .gsm850 => 3

theorem GsmBand.index_lt (band : GsmBand) : band.index < gsmBandCount := by
  cases band <;> decide

/-- `table[i]` -/
def tableRead {α : Type} {n : Nat} (table : Vector α n) (i : Nat) : Checked α :=
  if h : i < n then .ok table[i] else .error (.read i)

theorem tableRead_of_lt {α : Type} {n i : Nat} (table : Vector α n) (h : i < n) :
    ∃ a, tableRead table i = .ok a :=
  ⟨table[i], dif_pos h⟩

/-! ## The word -/

def gsmTrxGetGainStateRange (gainState : UInt16) : Nat := gainState.toNat >>> 6 &&& 0x03

def gsmTrxGetGainStateStep (gainState : UInt16) : Nat := gainState.toNat &&& 0x3F

def gsmTrxGetMaxGainStep : Nat := 45

def gsmTrxEncodeGainState (residual : Int) (range step : Nat) : UInt16 :=
  UInt16.ofNat (((residual % 2 ^ 16).toNat <<< 8) ||| (range <<< 6) ||| step)

/-- `(int8_t) (gain_state >> 8)` -/
def gainStateResidual (gainState : UInt16) : Int := Int.bmod (gainState.toNat >>> 8 : Nat) 256

theorem gsmTrxGetGainStateRange_eq (gainState : UInt16) :
    gsmTrxGetGainStateRange gainState = gainState.toNat / 2 ^ 6 % 4 := by
  rw [gsmTrxGetGainStateRange, Nat.shiftRight_eq_div_pow]
  exact Nat.and_two_pow_sub_one_eq_mod _ 2

theorem gsmTrxGetGainStateStep_eq (gainState : UInt16) :
    gsmTrxGetGainStateStep gainState = gainState.toNat % 64 :=
  Nat.and_two_pow_sub_one_eq_mod _ 6

theorem bmod_byte (n : Nat) : Int.bmod n 256 = ((n : Int) + 128) % 256 - 128 := by
  rw [Int.bmod_def]
  push_cast
  split_ifs <;> omega

theorem gainStateResidual_eq (gainState : UInt16) :
    gainStateResidual gainState
      = ((gainState.toNat / 2 ^ 8 : Nat) + 128 : Int) % 256 - 128 := by
  show Int.bmod (gainState.toNat >>> 8 : Nat) 256 = _
  rw [bmod_byte, Nat.shiftRight_eq_div_pow]

theorem gsmTrxEncodeGainState_toNat (residual : Int) {range step : Nat} (hrange : range < 4)
    (hstep : step < 64) :
    (gsmTrxEncodeGainState residual range step).toNat
      = step + 2 ^ 6 * range + 2 ^ 8 * (residual % 2 ^ 8).toNat := by
  have hword : ((residual % 2 ^ 16).toNat <<< 8) ||| (range <<< 6) ||| step
      = step + 2 ^ 6 * range + 2 ^ 8 * (residual % 2 ^ 16).toNat := by
    rw [Nat.or_assoc, Nat.or_comm _ step, or_shiftLeft hstep, Nat.or_comm,
      or_shiftLeft (by omega)]
  rw [gsmTrxEncodeGainState, UInt16.toNat_ofNat', hword]
  show _ % 2 ^ 16 = _
  omega

/-- What every gain state of a run is. -/
structure ValidGainState (gainState : UInt16) : Prop where
  range : gsmTrxGetGainStateRange gainState ≤ 2
  step : gsmTrxGetGainStateStep gainState ≤ gsmTrxGetMaxGainStep
  residual_ge : -127 ≤ gainStateResidual gainState
  residual_le : gainStateResidual gainState ≤ 127
  encode_decode : gsmTrxEncodeGainState (gainStateResidual gainState)
    (gsmTrxGetGainStateRange gainState) (gsmTrxGetGainStateStep gainState) = gainState

/-- The fields that are put into a word come out of it again. -/
theorem decode_encode {residual : Int} {range step : Nat} (hlow : -127 ≤ residual)
    (hhigh : residual ≤ 127) (hrange : range ≤ 2) (hstep : step ≤ gsmTrxGetMaxGainStep) :
    gainStateResidual (gsmTrxEncodeGainState residual range step) = residual ∧
      gsmTrxGetGainStateRange (gsmTrxEncodeGainState residual range step) = range ∧
      gsmTrxGetGainStateStep (gsmTrxEncodeGainState residual range step) = step := by
  have hmax : gsmTrxGetMaxGainStep = 45 := rfl
  have hword := gsmTrxEncodeGainState_toNat residual (show range < 4 by omega)
    (show step < 64 by omega)
  refine ⟨?_, ?_, ?_⟩
  · have hhighByte : (step + 2 ^ 6 * range + 2 ^ 8 * (residual % 2 ^ 8).toNat) / 2 ^ 8
        = (residual % 2 ^ 8).toNat := by omega
    rw [gainStateResidual_eq, hword, hhighByte]
    omega
  · rw [gsmTrxGetGainStateRange_eq, hword]
    omega
  · rw [gsmTrxGetGainStateStep_eq, hword]
    omega

theorem validGainState_encode {residual : Int} {range step : Nat} (hlow : -127 ≤ residual)
    (hhigh : residual ≤ 127) (hrange : range ≤ 2) (hstep : step ≤ gsmTrxGetMaxGainStep) :
    ValidGainState (gsmTrxEncodeGainState residual range step) := by
  obtain ⟨hresidual, hrange', hstep'⟩ := decode_encode hlow hhigh hrange hstep
  constructor
  case range => rwa [hrange']
  case step => rwa [hstep']
  case residual_ge => rwa [hresidual]
  case residual_le => rwa [hresidual]
  case encode_decode => rw [hresidual, hrange', hstep']

theorem validGainState_initial : ValidGainState agcInitialGainState :=
  validGainState_encode (show -127 ≤ 0 by decide) (by decide) (show 1 ≤ 2 by decide)
    (show 15 ≤ gsmTrxGetMaxGainStep by decide)

end Pmb887x.GsmL1
