import Pmb887x.Library.Bytes
import Pmb887x.Library.Slices
import Pmb887x.Library.Interpolation
import Pmb887x.Library.Signed
import Pmb887x.GsmL1.GainState

set_option autoImplicit false

/-! # The AFC calibration (`siemens-x85.c`)

The calibration is read from blocks of the EEPROM. `load_afc_calibration` takes six points, and
`gsm_board_set_frequency_correction_hz` puts the value between two of them into `AFC_AFCVAL`, together with
the flag that enables the output. -/

namespace Pmb887x.GsmL1.SiemensX85

open Library

/-! ## Blocks of the EEPROM -/

/-- What `eeprom_find_block` finds. -/
structure EeliteBlock where
  version : UInt16
  size : Nat
  data : List UInt8

inductive CalibrationError where
  /-- `# RF_CALIBRATION,error=read`, with the result of `eeprom_find_block` -/
  | read (block result : Nat)
  /-- `# RF_CALIBRATION,error=format` -/
  | format (block : Nat) (version : UInt16) (size : Nat)
  /-- `# RF_CALIBRATION,error=data_format` -/
  | dataFormat (block : Nat)
  /-- `# RF_CALIBRATION,error=data_format`, with a band and a range -/
  | channelRecord (block band range : Nat)
  /-- `# RF_CALIBRATION,error=afc_frequency` -/
  | afcFrequency (block index : Nat)
  /-- `# RF_CALIBRATION,error=afc_value` -/
  | afcValue (block index : Nat)
  deriving DecidableEq

def loadEeliteBlock (blockId : Nat) (version : UInt16) (size : Nat) (found : Except Nat EeliteBlock) :
    Except CalibrationError EeliteBlock :=
  match found with
  | .error result => .error (.read blockId result)
  | .ok block =>
      if block.version ≠ version then .error (.format blockId block.version block.size)
      else if block.size ≠ size then .error (.format blockId block.version block.size)
      else .ok block

/-- A `uint16_t` of a packed structure. -/
def u16At (data : List UInt8) (offset : Nat) : UInt16 := UInt16.ofNat (ofLeBytes (window data offset 2))

/-- An `int16_t` of a packed structure. -/
def i16At (data : List UInt8) (offset : Nat) : Int16 := (u16At data offset).toInt16

/-! ## The points -/

def afcEeliteBlock : Nat := 306
def afcEeliteVersion : UInt16 := 1
def afcEeliteSize : Nat := 220
def afcConfigurationFormat : UInt16 := 1
def afcPointCount : UInt16 := 6
def afcFrequencyScale : Int := 64

structure AfcCalibrationPoint where
  value : UInt16
  frequencyDiv64 : Int16
  deriving DecidableEq

/-- The frequency of a point in Hz. -/
def AfcCalibrationPoint.frequency (point : AfcCalibrationPoint) : Int :=
  point.frequencyDiv64.toInt * afcFrequencyScale

/-- A point that may follow another. -/
def AfcCalibrationPoint.Before (p q : AfcCalibrationPoint) : Prop :=
  p.frequencyDiv64 < q.frequencyDiv64 ∧ p.value < q.value

instance (p q : AfcCalibrationPoint) : Decidable (p.Before q) := inferInstanceAs (Decidable (_ ∧ _))

/-- `calibration.afc` once it is loaded. -/
structure AfcCalibration where
  first : AfcCalibrationPoint
  rest : List AfcCalibrationPoint
  length : rest.length = 5
  value_first : first.value = 0
  increasing : List.IsChain AfcCalibrationPoint.Before (first :: rest)

def AfcCalibration.points (afc : AfcCalibration) : List AfcCalibrationPoint := afc.first :: afc.rest

def AfcCalibration.last (afc : AfcCalibration) : AfcCalibrationPoint :=
  afc.points.getLast (List.cons_ne_nil _ _)

/-- The loop over the points that follow the first. -/
def checkAfcPoints : Nat → AfcCalibrationPoint → List AfcCalibrationPoint → Except CalibrationError Unit
  | _, _, [] => .ok ()
  | i, p, q :: rest =>
      if q.frequencyDiv64 ≤ p.frequencyDiv64 then .error (.afcFrequency afcEeliteBlock i)
      else if q.value ≤ p.value then .error (.afcValue afcEeliteBlock i)
      else checkAfcPoints (i + 1) q rest

theorem isChain_of_checkAfcPoints {i : Nat} {p : AfcCalibrationPoint} {rest : List AfcCalibrationPoint}
    (h : checkAfcPoints i p rest = .ok ()) : List.IsChain AfcCalibrationPoint.Before (p :: rest) := by
  induction rest generalizing i p with
  | nil => exact List.isChain_singleton p
  | cons q rest ih =>
      rw [checkAfcPoints] at h
      split_ifs at h with hfrequency hvalue
      exact List.isChain_cons_cons.mpr ⟨⟨Int16.not_le.mp hfrequency, UInt16.not_le.mp hvalue⟩, ih h⟩

/-- `remaining_points` -/
def remainingPoints (data : List UInt8) : List AfcCalibrationPoint :=
  (List.range 5).map fun i => ⟨u16At data (0x18 + 4 * i), i16At data (0x1A + 4 * i)⟩

def loadAfcCalibration (found : Except Nat EeliteBlock) : Except CalibrationError AfcCalibration :=
  match loadEeliteBlock afcEeliteBlock afcEeliteVersion afcEeliteSize found with
  | .error error => .error error
  | .ok block =>
      if u16At block.data 0 ≠ afcConfigurationFormat then .error (.dataFormat afcEeliteBlock)
      else if u16At block.data 0x12 ≠ afcPointCount then .error (.dataFormat afcEeliteBlock)
      else
        let first : AfcCalibrationPoint := ⟨0, i16At block.data 0x16⟩
        match h : checkAfcPoints 1 first (remainingPoints block.data) with
        | .error error => .error error
        | .ok () => .ok
            { first
              rest := remainingPoints block.data
              length := by rw [remainingPoints, List.length_map, List.length_range]
              value_first := rfl
              increasing := isChain_of_checkAfcPoints h }

/-- A block that passes the checks is loaded. -/
theorem exists_loadAfcCalibration {block : EeliteBlock} (hversion : block.version = afcEeliteVersion)
    (hsize : block.size = afcEeliteSize) (hformat : u16At block.data 0 = afcConfigurationFormat)
    (hcount : u16At block.data 0x12 = afcPointCount)
    (hpoints : checkAfcPoints 1 ⟨0, i16At block.data 0x16⟩ (remainingPoints block.data) = .ok ()) :
    ∃ afc, loadAfcCalibration (.ok block) = .ok afc ∧ afc.rest = remainingPoints block.data := by
  have hblock : loadEeliteBlock afcEeliteBlock afcEeliteVersion afcEeliteSize (.ok block) = .ok block := by
    simp only [loadEeliteBlock, hversion, hsize, ne_eq, not_true_eq_false, if_false]
  simp only [loadAfcCalibration, hblock, hformat, hcount, ne_eq, not_true_eq_false, if_false]
  split
  · rename_i error herror
    rw [hpoints] at herror
    cases herror
  · exact ⟨_, rfl, rfl⟩

/-! ## The value of a frequency -/

/-- The loop of `frequency_hz_to_afc_value`. -/
def searchAfcSegment (frequencyHz : Int) : AfcCalibrationPoint → List AfcCalibrationPoint → Checked UInt16
  | lower, [] => .ok lower.value
  | lower, upper :: rest => do
      let upperFrequency ← int32 upper.frequency
      if frequencyHz ≤ upperFrequency then
        let lowerFrequency ← int32 lower.frequency
        let frequencyRange ← int32 (upperFrequency - lowerFrequency)
        let frequencyOffset ← int32 (frequencyHz - lowerFrequency)
        let valueRange ← int32 (upper.value.toNat - lower.value.toNat)
        let product ← int64 (frequencyOffset * valueRange)
        let quotient ← divide product frequencyRange
        let value ← int64 (lower.value.toNat + quotient)
        return UInt16.ofInt value
      else searchAfcSegment frequencyHz upper rest

def frequencyHzToAfcValue (afc : AfcCalibration) (frequencyHz : Int) : Checked UInt16 := do
  let minimumFrequency ← int32 afc.first.frequency
  if frequencyHz ≤ minimumFrequency then return afc.first.value
  else searchAfcSegment frequencyHz afc.first afc.rest

/-- The registers of the board that the AFC has, and `frequency_correction_hz`. -/
structure AfcBoard where
  afcval : UInt32
  frequencyCorrectionHz : Int

/-- `AFC_AFCVAL_AFC` -/
def afcvalAfc : UInt32 := 0x7FFF

/-- `AFC_AFCVAL_ENAFC` -/
def afcvalEnafc : UInt32 := 0x8000

/-- `frequency_hz`, kept between two frequencies. -/
def clampFrequency (minimum maximum frequencyHz : Int) : Int :=
  let frequencyHz := if frequencyHz < minimum then minimum else frequencyHz
  if frequencyHz > maximum then maximum else frequencyHz

def gsmBoardSetFrequencyCorrectionHz (afc : AfcCalibration) (frequencyHz : Int32) : Checked AfcBoard := do
  let minimumFrequency ← int32 afc.first.frequency
  let maximumFrequency ← int32 afc.last.frequency
  let frequencyHz := clampFrequency minimumFrequency maximumFrequency frequencyHz.toInt
  let value ← frequencyHzToAfcValue afc frequencyHz
  return { afcval := value.toUInt32 ||| afcvalEnafc, frequencyCorrectionHz := frequencyHz }

def gsmBoardGetAfcValue (board : AfcBoard) : UInt16 := (board.afcval &&& afcvalAfc).toUInt16

end Pmb887x.GsmL1.SiemensX85
