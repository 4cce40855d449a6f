import Pmb887x.GsmL1.GainState

set_option autoImplicit false

/-! # The gain control (`gsm_board_calculate_next_gain_state`)

A monitor value says how far the gain is off. The range follows the power with a hysteresis, the
step takes the rest, rounded to 16 units, and the residual keeps what the rounding leaves. In a run
the sum of step, range and residual therefore moves by the monitor values alone, unless a residual
does not fit and is clamped. -/

namespace Pmb887x.GsmL1

open Library

/-! ## The functions -/

def decodeMonitorValue (raw : UInt16) : Int :=
  let monitor : Int := raw.toInt16.toInt
  if raw = 0xFF80 then 0 else if monitor ≥ 0 then (raw.toNat >>> 2 : Nat) else monitor

def calculateRxGainX8 (calibration : ReceiverCalibration) (band : GsmBand) (channelIndex : Nat)
    (gainState : UInt16) : Checked Int := do
  let bandCalibration ← tableRead calibration.bands band.index
  let range := gsmTrxGetGainStateRange gainState
  let step := gsmTrxGetGainStateStep gainState
  let gainValue ← tableRead calibration.gainValuesX8 step
  let corrections ← tableRead calibration.channelCorrections range
  let correction ← tableRead corrections channelIndex
  let rangeOffset ← tableRead bandCalibration.rangeOffsets range
  return gainValue.toInt + correction.toInt + rangeOffset.toInt + bandCalibration.bandOffset.toInt +
    calibration.rxPowerOffset.toInt * 2

def calculateRxPowerX8 (calibration : ReceiverCalibration) (band : GsmBand) (channelIndex : Nat)
    (gainState raw : UInt16) : Checked Int := do
  let gainX8 ← calculateRxGainX8 calibration band channelIndex gainState
  let powerX8 := gainX8 - decodeMonitorValue raw * 2
  return if powerX8 < 0 then 0 else if powerX8 > rxPowerMaxX8 then rxPowerMaxX8 else powerX8

/-- `monitor_delta_x8` -/
def monitorDeltaX8 (calibration : ReceiverCalibration) (raw : UInt16) : Int :=
  (decodeMonitorValue raw - calibration.rxPowerOffset.toInt) * 2

/-- `next_range`: the thresholds, with a hysteresis on either side of range 1. -/
def nextGainRange (bandCalibration : BandCalibration) (range : Nat) (powerX8 : Int) : Nat :=
  if powerX8 < bandCalibration.range0LeaveThreshold.toInt then
    if powerX8 < bandCalibration.range0EnterThreshold.toInt then 0
    else if range > 1 then 1 else range
  else if powerX8 < bandCalibration.range2EnterThreshold.toInt then
    if powerX8 < bandCalibration.range2LeaveThreshold.toInt ∨ range = 0 then 1 else range
  else 2

/-- `next_step` and the change of the step, kept between 0 and the maximum. -/
def clampGainStep (nextStep stepDelta : Int) : Int × Int :=
  let maximumStep : Int := gsmTrxGetMaxGainStep
  let low := if nextStep < 0 then (0, stepDelta - nextStep) else (nextStep, stepDelta)
  if low.1 > maximumStep then (maximumStep, low.2 - (low.1 - maximumStep)) else low

/-- What the next gain state is made of; the residual is the one before its clamp. -/
structure NextGain where
  residual : Int
  range : Nat
  step : Int

/-- `gsm_board_calculate_next_gain_state` up to the clamp of the residual. -/
def calculateNextGain (calibration : ReceiverCalibration) (band : GsmBand) (channelIndex : Nat)
    (gainState raw : UInt16) : Checked NextGain := do
  let bandCalibration ← tableRead calibration.bands band.index
  let range := gsmTrxGetGainStateRange gainState
  let step := gsmTrxGetGainStateStep gainState
  let powerX8 ← calculateRxPowerX8 calibration band channelIndex gainState raw
  let nextRange := nextGainRange bandCalibration range powerX8
  let rangeOffset ← tableRead bandCalibration.rangeOffsets range
  let corrections ← tableRead calibration.channelCorrections range
  let correction ← tableRead corrections channelIndex
  let nextRangeOffset ← tableRead bandCalibration.rangeOffsets nextRange
  let nextCorrections ← tableRead calibration.channelCorrections nextRange
  let nextCorrection ← tableRead nextCorrections channelIndex
  let gainDeltaX8 := rangeOffset.toInt + correction.toInt - nextRangeOffset.toInt
    - nextCorrection.toInt + gainStateResidual gainState - monitorDeltaX8 calibration raw
  let stepDelta := (gainDeltaX8 + 4) >>> (4 : Nat)
  let clamped := clampGainStep (step + stepDelta) stepDelta
  return {
    residual := gainDeltaX8 - clamped.2 * monRawValuesPerDb
    range := nextRange
    step := clamped.1 }

def clampResidual (residual : Int) : Int :=
  let residual := if residual < -127 then -127 else residual
  if residual > 127 then 127 else residual

def gsmBoardCalculateNextGainState (calibration : ReceiverCalibration) (band : GsmBand)
    (channelIndex : Nat) (gainState raw : UInt16) : Checked UInt16 := do
  let next ← calculateNextGain calibration band channelIndex gainState raw
  return gsmTrxEncodeGainState (clampResidual next.residual) next.range next.step.toNat

def gsmBoardCalculateRxLevelDbmX16 (calibration : ReceiverCalibration) (band : GsmBand)
    (channelIndex : Nat) (gainState raw : UInt16) : Checked Int := do
  let powerX8 ← calculateRxPowerX8 calibration band channelIndex gainState raw
  return powerX8 * -2

/-! ## One measurement -/

theorem nextGainRange_le (bandCalibration : BandCalibration) {range : Nat} (powerX8 : Int)
    (hrange : range ≤ 2) : nextGainRange bandCalibration range powerX8 ≤ 2 := by
  unfold nextGainRange
  split_ifs <;> omega

theorem clampGainStep_bounds (nextStep stepDelta : Int) :
    0 ≤ (clampGainStep nextStep stepDelta).1 ∧
      (clampGainStep nextStep stepDelta).1 ≤ gsmTrxGetMaxGainStep := by
  have hmax : (gsmTrxGetMaxGainStep : Int) = 45 := rfl
  simp only [clampGainStep, hmax]
  split_ifs <;> constructor <;> (simp only at *; omega)

/-- The change of the step is what the clamps leave of it. -/
theorem clampGainStep_delta (step stepDelta : Int) :
    (clampGainStep (step + stepDelta) stepDelta).2
      = (clampGainStep (step + stepDelta) stepDelta).1 - step := by
  simp only [clampGainStep]
  split_ifs <;> simp only <;> omega

theorem clampResidual_bounds (residual : Int) :
    -127 ≤ clampResidual residual ∧ clampResidual residual ≤ 127 := by
  simp only [clampResidual]
  split_ifs <;> omega

theorem clampResidual_of_mem {residual : Int} (hlow : -127 ≤ residual) (hhigh : residual ≤ 127) :
    clampResidual residual = residual := by
  have hnot : ¬ residual < -127 := by omega
  simp only [clampResidual, if_neg hnot]
  exact if_neg (by omega)

/-- Range offset and channel correction, in x8 units. -/
def rangeTermX8 (calibration : ReceiverCalibration) (band : GsmBand) (channelIndex range : Nat) :
    Checked Int := do
  let bandCalibration ← tableRead calibration.bands band.index
  let rangeOffset ← tableRead bandCalibration.rangeOffsets range
  let corrections ← tableRead calibration.channelCorrections range
  let correction ← tableRead corrections channelIndex
  return rangeOffset.toInt + correction.toInt

/-- `16*step + range offset + channel correction + residual`. -/
def gainTotalX8 (calibration : ReceiverCalibration) (band : GsmBand) (channelIndex : Nat)
    (gainState : UInt16) : Checked Int := do
  let term ← rangeTermX8 calibration band channelIndex (gsmTrxGetGainStateRange gainState)
  return monRawValuesPerDb * gsmTrxGetGainStateStep gainState + term + gainStateResidual gainState

theorem calculateRxPowerX8_safe (calibration : ReceiverCalibration) (band : GsmBand)
    {channelIndex : Nat} {gainState : UInt16} (raw : UInt16)
    (hchannel : channelIndex < gsmChannelCount) (hgain : ValidGainState gainState) :
    ∃ powerX8, calculateRxPowerX8 calibration band channelIndex gainState raw = .ok powerX8 := by
  have hstep : gsmTrxGetGainStateStep gainState < gsmTrxGainStepCount :=
    Nat.lt_succ_of_le hgain.step
  have hrange : gsmTrxGetGainStateRange gainState < gsmTrxGainRangeCount :=
    Nat.lt_succ_of_le hgain.range
  obtain ⟨bandCalibration, hband⟩ := tableRead_of_lt calibration.bands band.index_lt
  obtain ⟨gainValue, hvalue⟩ := tableRead_of_lt calibration.gainValuesX8 hstep
  obtain ⟨corrections, hcorrections⟩ := tableRead_of_lt calibration.channelCorrections hrange
  obtain ⟨correction, hcorrection⟩ := tableRead_of_lt corrections hchannel
  obtain ⟨rangeOffset, hoffset⟩ := tableRead_of_lt bandCalibration.rangeOffsets hrange
  simp only [calculateRxPowerX8, calculateRxGainX8, hband, hvalue, hcorrections, hcorrection,
    hoffset, Checked.ok_bind, Checked.pure_eq]
  exact ⟨_, rfl⟩

/-- What one measurement computes: a range and a step within their bounds, and a residual with which
the total has moved by the monitor delta. -/
theorem calculateNextGain_spec (calibration : ReceiverCalibration) (band : GsmBand)
    {channelIndex : Nat} {gainState : UInt16} (raw : UInt16)
    (hchannel : channelIndex < gsmChannelCount) (hgain : ValidGainState gainState) :
    ∃ next total term, calculateNextGain calibration band channelIndex gainState raw = .ok next ∧
      next.range ≤ 2 ∧ 0 ≤ next.step ∧ next.step ≤ gsmTrxGetMaxGainStep ∧
      gainTotalX8 calibration band channelIndex gainState = .ok total ∧
      rangeTermX8 calibration band channelIndex next.range = .ok term ∧
      monRawValuesPerDb * next.step + term + next.residual
        = total - monitorDeltaX8 calibration raw := by
  obtain ⟨powerX8, hpower⟩ := calculateRxPowerX8_safe calibration band raw hchannel hgain
  have hrange : gsmTrxGetGainStateRange gainState < gsmTrxGainRangeCount :=
    Nat.lt_succ_of_le hgain.range
  obtain ⟨bandCalibration, hband⟩ := tableRead_of_lt calibration.bands band.index_lt
  have hnextRange := nextGainRange_le bandCalibration powerX8 hgain.range
  have hnext : nextGainRange bandCalibration (gsmTrxGetGainStateRange gainState) powerX8
      < gsmTrxGainRangeCount := Nat.lt_succ_of_le hnextRange
  obtain ⟨rangeOffset, hoffset⟩ := tableRead_of_lt bandCalibration.rangeOffsets hrange
  obtain ⟨corrections, hcorrections⟩ := tableRead_of_lt calibration.channelCorrections hrange
  obtain ⟨correction, hcorrection⟩ := tableRead_of_lt corrections hchannel
  obtain ⟨offset', hoffset'⟩ := tableRead_of_lt bandCalibration.rangeOffsets hnext
  obtain ⟨corrections', hcorrections'⟩ := tableRead_of_lt calibration.channelCorrections hnext
  obtain ⟨correction', hcorrection'⟩ := tableRead_of_lt corrections' hchannel
  simp only [calculateNextGain, gainTotalX8, rangeTermX8, hband, hpower, hoffset, hcorrections,
    hcorrection, hoffset', hcorrections', hcorrection', Checked.ok_bind, Checked.pure_eq]
  refine ⟨_, _, offset'.toInt + correction'.toInt, rfl, hnextRange, ?_, ?_, rfl, ?_, ?_⟩
  · exact (clampGainStep_bounds _ _).1
  · exact (clampGainStep_bounds _ _).2
  · simp only [hoffset', hcorrections', hcorrection', Checked.ok_bind]
  · simp only [clampGainStep_delta, monRawValuesPerDb]
    omega

/-- A monitor value of a channel of the table. -/
structure Measurement where
  band : GsmBand
  channelIndex : Nat
  raw : UInt16
  channel_lt : channelIndex < gsmChannelCount

def Measurement.next (calibration : ReceiverCalibration) (m : Measurement) (gainState : UInt16) :
    Checked UInt16 :=
  gsmBoardCalculateNextGainState calibration m.band m.channelIndex gainState m.raw

/-- The total, in the units of the band and the channel of the measurement. -/
def Measurement.total (calibration : ReceiverCalibration) (m : Measurement) (gainState : UInt16) :
    Checked Int :=
  gainTotalX8 calibration m.band m.channelIndex gainState

/-- The residual is not clamped. -/
def Measurement.ResidualFits (calibration : ReceiverCalibration) (m : Measurement)
    (gainState : UInt16) : Prop :=
  ∃ next, calculateNextGain calibration m.band m.channelIndex gainState m.raw = .ok next ∧
    -127 ≤ next.residual ∧ next.residual ≤ 127

/-- One measurement reads inside the tables, leaves a valid state, and moves the total by the
monitor delta if the residual fits. -/
theorem Measurement.next_spec (calibration : ReceiverCalibration) (m : Measurement)
    {gainState : UInt16} (hgain : ValidGainState gainState) :
    ∃ next total, m.next calibration gainState = .ok next ∧ ValidGainState next ∧
      m.total calibration gainState = .ok total ∧
      (m.ResidualFits calibration gainState →
        m.total calibration next = .ok (total - monitorDeltaX8 calibration m.raw)) := by
  obtain ⟨next, total, term, hnext, hrange, hstep, hmax, htotal, hterm, hmove⟩ :=
    calculateNextGain_spec calibration m.band m.raw m.channel_lt hgain
  obtain ⟨hlow, hhigh⟩ := clampResidual_bounds next.residual
  have hstepNat : next.step.toNat ≤ gsmTrxGetMaxGainStep := by omega
  obtain ⟨hresidual', hrange', hstep'⟩ := decode_encode hlow hhigh hrange hstepNat
  refine ⟨gsmTrxEncodeGainState (clampResidual next.residual) next.range next.step.toNat, total,
    ?_, validGainState_encode hlow hhigh hrange hstepNat, htotal, ?_⟩
  · simp only [Measurement.next, gsmBoardCalculateNextGainState, hnext, Checked.ok_bind,
      Checked.pure_eq]
  · rintro ⟨other, hother, hge, hle⟩
    obtain rfl : next = other := Except.ok.inj (hnext.symm.trans hother)
    have hstepInt : ((next.step.toNat : Nat) : Int) = next.step := Int.toNat_of_nonneg hstep
    simp only [Measurement.total, gainTotalX8, hrange', hterm, hstep', hresidual', hstepInt,
      Checked.ok_bind, Checked.pure_eq]
    rw [clampResidual_of_mem hge hle, hmove]

/-! ## Runs -/

/-- The gain state after a list of measurements. -/
def gainAfter (calibration : ReceiverCalibration) : UInt16 → List Measurement → Checked UInt16
  | gainState, [] => .ok gainState
  | gainState, m :: rest => do
      let next ← m.next calibration gainState
      gainAfter calibration next rest

/-- No residual of the run is clamped. -/
def ResidualsFit (calibration : ReceiverCalibration) : UInt16 → List Measurement → Prop
  | _, [] => True
  | gainState, m :: rest =>
      m.ResidualFits calibration gainState ∧
        ∀ next, m.next calibration gainState = .ok next → ResidualsFit calibration next rest

theorem gainAfter_safe (calibration : ReceiverCalibration) (measurements : List Measurement)
    {gainState : UInt16} (hgain : ValidGainState gainState) :
    Safe (gainAfter calibration gainState measurements) ValidGainState := by
  induction measurements generalizing gainState with
  | nil => exact Safe.ok hgain
  | cons m rest ih =>
      obtain ⟨next, total, hnext, hvalid, -, -⟩ := m.next_spec calibration hgain
      exact (Safe.of_eq hnext hvalid).bind fun _ h => ih h

/-- The residuals of a run carry over: in a run on one channel the total moves by the sum of the
monitor deltas. -/
theorem gainAfter_total (calibration : ReceiverCalibration) (band : GsmBand) (channelIndex : Nat)
    (measurements : List Measurement) :
    ∀ {gainState last : UInt16} {total : Int}, ValidGainState gainState →
      (∀ m ∈ measurements, m.band = band ∧ m.channelIndex = channelIndex) →
      ResidualsFit calibration gainState measurements →
      gainTotalX8 calibration band channelIndex gainState = .ok total →
      gainAfter calibration gainState measurements = .ok last →
      gainTotalX8 calibration band channelIndex last
        = .ok (total - (measurements.map fun m => monitorDeltaX8 calibration m.raw).sum) := by
  induction measurements with
  | nil =>
      intro gainState last total _ _ _ htotal hlast
      obtain rfl : gainState = last := Except.ok.inj hlast
      rw [List.map_nil, List.sum_nil, Int.sub_zero, htotal]
  | cons m rest ih =>
      intro gainState last total hgain hchannel hfit htotal hlast
      obtain ⟨next, total', hnext, hvalid, htotal', hmove⟩ := m.next_spec calibration hgain
      obtain ⟨rfl, rfl⟩ := hchannel m List.mem_cons_self
      obtain rfl : total' = total := Except.ok.inj (htotal'.symm.trans htotal)
      have hrest : gainAfter calibration next rest = .ok last := by
        rwa [gainAfter, hnext, Checked.ok_bind] at hlast
      have hsum := ih hvalid (fun m' hm' => hchannel m' (List.mem_cons_of_mem _ hm'))
        (hfit.2 next hnext) (hmove hfit.1) hrest
      rw [hsum, List.map_cons, List.sum_cons, Int.sub_sub]

/-- **The gain control is safe and loses nothing.** After any measurements from the initial state,
every further one reads inside the tables and leaves a valid state, which is encoded and decoded
without a loss; unless its residual is clamped, the total moves by exactly the monitor delta, and so
over a whole run on one channel by the sum of them. -/
theorem gain_control_conserves (calibration : ReceiverCalibration)
    (measurements : List Measurement) :
    ∃ gainState, gainAfter calibration agcInitialGainState measurements = .ok gainState ∧
      ValidGainState gainState ∧
      (∀ m : Measurement, ∃ next total, m.next calibration gainState = .ok next ∧
        ValidGainState next ∧ m.total calibration gainState = .ok total ∧
        (m.ResidualFits calibration gainState →
          m.total calibration next = .ok (total - monitorDeltaX8 calibration m.raw))) ∧
      (∀ band channelIndex total,
        (∀ m ∈ measurements, m.band = band ∧ m.channelIndex = channelIndex) →
        ResidualsFit calibration agcInitialGainState measurements →
        gainTotalX8 calibration band channelIndex agcInitialGainState = .ok total →
        gainTotalX8 calibration band channelIndex gainState
          = .ok (total - (measurements.map fun m => monitorDeltaX8 calibration m.raw).sum)) := by
  obtain ⟨gainState, hrun, hvalid⟩ :=
    gainAfter_safe calibration measurements validGainState_initial
  refine ⟨gainState, hrun, hvalid, fun m => m.next_spec calibration hvalid, ?_⟩
  intro band channelIndex total hchannel hfit htotal
  exact gainAfter_total calibration band channelIndex measurements validGainState_initial hchannel
    hfit htotal hrun

end Pmb887x.GsmL1
