import Mathlib.Data.List.Chain
import Pmb887x.GsmL1.Calibration

set_option autoImplicit false

/-! # The corrections of the channels (`siemens-x85.c`)

For each band and each range of the gain a record has corrections at some of the channels.
`load_agc_channel_record` takes records whose points rise from the first channel of the band to the last, and
fills in the channels between them. -/

namespace Pmb887x.GsmL1.SiemensX85

open Library

def agcChannelEeliteBlock : Nat := 56
def agcChannelEeliteVersion : UInt16 := 16
def agcChannelEeliteSize : Nat := 648
def agcChannelBandSize : Nat := 156
def agcChannelPointCountMax : Nat := 12
def agcRangeCount : Nat := 3

/-! ## Channels -/

def agcChannelPosition : GsmBand → Nat → Option Nat
  | .gsm900, arfcn =>
      if 975 ≤ arfcn ∧ arfcn ≤ 1023 then some (arfcn - 975)
      else if arfcn ≤ 124 then some (arfcn + 49)
      else none
  | .dcs1800, arfcn => if arfcn < 512 ∨ arfcn > 885 then none else some (arfcn - 512)
  | .pcs1900, arfcn => if arfcn < 512 ∨ arfcn > 810 then none else some (arfcn - 512)
  | .gsm850, arfcn => if arfcn < 128 ∨ arfcn > 251 then none else some (arfcn - 128)

def agcChannelIndex : GsmBand → Nat → Nat
  | .gsm900, position => if position < 49 then 126 + position else if position = 49 then 125 else position - 49
  | .dcs1800, position => 175 + position
  | .pcs1900, position => 549 + position
  | .gsm850, position => 848 + position

def agcBandLastPosition : GsmBand → Nat
  | .gsm900 => 173
  | .dcs1800 => 373
  | .pcs1900 => 298
  | .gsm850 => 123

theorem agcBandLastPosition_le (band : GsmBand) : agcBandLastPosition band ≤ 373 := by
  cases band <;> decide

/-- The entries of a band. -/
def agcBandFirstIndex : GsmBand → Nat
  | .gsm900 => 1
  | .dcs1800 => 175
  | .pcs1900 => 549
  | .gsm850 => 848

theorem agcChannelIndex_mem {band : GsmBand} {position : Nat} (h : position ≤ agcBandLastPosition band) :
    agcBandFirstIndex band ≤ agcChannelIndex band position ∧
      agcChannelIndex band position ≤ agcBandFirstIndex band + agcBandLastPosition band := by
  cases band with
  | gsm900 =>
      simp only [agcBandLastPosition, agcBandFirstIndex, agcChannelIndex] at h ⊢
      split_ifs <;> omega
  | dcs1800 => exact ⟨Nat.le_add_right _ _, Nat.add_le_add_left h _⟩
  | pcs1900 => exact ⟨Nat.le_add_right _ _, Nat.add_le_add_left h _⟩
  | gsm850 => exact ⟨Nat.le_add_right _ _, Nat.add_le_add_left h _⟩

theorem agcChannelIndex_lt {band : GsmBand} {position : Nat} (h : position ≤ agcBandLastPosition band) :
    agcChannelIndex band position < gsmChannelCount := by
  refine Nat.lt_of_le_of_lt (agcChannelIndex_mem h).2 ?_
  cases band <;> decide

/-- The bands do not overlap. -/
theorem agcBand_apart : ∀ band band' : GsmBand, band = band' ∨
    agcBandFirstIndex band + agcBandLastPosition band < agcBandFirstIndex band' ∨
    agcBandFirstIndex band' + agcBandLastPosition band' < agcBandFirstIndex band := by
  intro band band'
  cases band <;> cases band' <;> decide

/-- Two channels do not share an entry. -/
theorem agcChannelIndex_inj {band band' : GsmBand} {position position' : Nat}
    (h : position ≤ agcBandLastPosition band) (h' : position' ≤ agcBandLastPosition band')
    (hindex : agcChannelIndex band position = agcChannelIndex band' position') :
    band = band' ∧ position = position' := by
  have hmem := agcChannelIndex_mem h
  have hmem' := agcChannelIndex_mem h'
  have hband : band = band' := by
    rcases agcBand_apart band band' with heq | hlt | hlt
    · exact heq
    · omega
    · omega
  subst hband
  refine ⟨rfl, ?_⟩
  cases band with
  | gsm900 =>
      simp only [agcBandLastPosition, agcChannelIndex] at h h' hindex
      split_ifs at hindex <;> omega
  | dcs1800 => exact Nat.add_left_cancel hindex
  | pcs1900 => exact Nat.add_left_cancel hindex
  | gsm850 => exact Nat.add_left_cancel hindex

/-! ## Records -/

/-- `struct agc_channel_record` -/
structure AgcChannelRecord where
  pointCount : UInt16
  channels : Vector UInt16 agcChannelPointCountMax
  corrections : Vector Int16 agcChannelPointCountMax

/-- A record of a block, which has those of a band one behind the other. -/
def agcChannelRecord (data : List UInt8) (band : GsmBand) (range : Nat) : AgcChannelRecord :=
  let offset := band.index * agcChannelBandSize + 24 + range * 52
  { pointCount := u16At data offset
    channels := Vector.ofFn fun point => u16At data (offset + 4 + 2 * point)
    corrections := Vector.ofFn fun point => i16At data (offset + 28 + 2 * point) }

structure AgcPoint where
  position : Nat
  correction : Int16
  deriving DecidableEq

/-- The points of a band that `load_agc_channel_record` goes on with. -/
structure AgcPoints (band : GsmBand) where
  first : AgcPoint
  rest : List AgcPoint
  position_first : first.position = 0
  position_last : ((first :: rest).getLast (List.cons_ne_nil _ _)).position = agcBandLastPosition band
  increasing : List.IsChain (fun p q => p.position < q.position) (first :: rest)

def AgcPoints.all {band : GsmBand} (points : AgcPoints band) : List AgcPoint := points.first :: points.rest

/-- The loop that fills `point_positions`. -/
def agcPointPositions (band : GsmBand) (previous : Option Nat) : List UInt16 → Option (List Nat)
  | [] => some []
  | channel :: channels =>
      match agcChannelPosition band channel.toNat with
      | none => none
      | some position =>
          if previous.any (position ≤ ·) then none
          else (agcPointPositions band (some position) channels).map (position :: ·)

theorem isChain_agcPointPositions {band : GsmBand} {channels : List UInt16} {previous : Option Nat}
    {positions : List Nat} (h : agcPointPositions band previous channels = some positions) :
    List.IsChain (· < ·) (previous.toList ++ positions) := by
  induction channels generalizing previous positions with
  | nil =>
      cases h
      cases previous with
      | none => exact List.isChain_nil
      | some position => exact List.isChain_singleton position
  | cons channel channels ih =>
      rw [agcPointPositions] at h
      split at h
      · cases h
      · rename_i position _
        split_ifs at h with hle
        obtain ⟨positions, hrest, rfl⟩ := Option.map_eq_some_iff.mp h
        have hchain := ih hrest
        cases previous with
        | none => exact hchain
        | some before => exact List.isChain_cons_cons.mpr ⟨by simpa using hle, hchain⟩

theorem isChain_zipWith {positions : List Nat} (corrections : List Int16)
    (h : List.IsChain (· < ·) positions) :
    List.IsChain (fun p q : AgcPoint => p.position < q.position)
      (List.zipWith AgcPoint.mk positions corrections) := by
  have hprefix : (List.zipWith AgcPoint.mk positions corrections).map AgcPoint.position
      = positions.take corrections.length := by
    induction positions generalizing corrections with
    | nil => simp
    | cons position positions ih =>
        cases corrections with
        | nil => simp
        | cons correction corrections => simp [ih corrections h.tail]
  rw [← List.isChain_map (R := (· < ·)) AgcPoint.position, hprefix]
  exact h.take _

/-- The points of a record, if it is accepted. -/
def agcChannelPoints (band : GsmBand) (record : AgcChannelRecord) : Option (AgcPoints band) :=
  let pointCount := record.pointCount.toNat
  if pointCount < 2 ∨ pointCount > agcChannelPointCountMax then none
  else
    match hpositions : agcPointPositions band none (record.channels.toList.take pointCount) with
    | none => none
    | some positions =>
        match hpoints : List.zipWith AgcPoint.mk positions record.corrections.toList with
        | [] => none
        | first :: rest =>
            if hfirst : first.position = 0 then
              if hlast : ((first :: rest).getLast (List.cons_ne_nil _ _)).position
                  = agcBandLastPosition band then
                some
                  { first
                    rest
                    position_first := hfirst
                    position_last := hlast
                    increasing := hpoints ▸ isChain_zipWith _ (isChain_agcPointPositions hpositions) }
              else none
            else none

/-- A record that passes the checks has its points. -/
theorem exists_agcChannelPoints {band : GsmBand} {record : AgcChannelRecord} {positions : List Nat}
    {first : AgcPoint} {rest : List AgcPoint} (hcount : 2 ≤ record.pointCount.toNat ∧ record.pointCount.toNat ≤ 12)
    (hpositions : agcPointPositions band none (record.channels.toList.take record.pointCount.toNat)
      = some positions)
    (hzip : List.zipWith AgcPoint.mk positions record.corrections.toList = first :: rest)
    (hfirst : first.position = 0)
    (hlast : ((first :: rest).getLast (List.cons_ne_nil _ _)).position = agcBandLastPosition band) :
    ∃ points, agcChannelPoints band record = some points ∧ points.all = first :: rest := by
  have hrange : ¬ (record.pointCount.toNat < 2 ∨ record.pointCount.toNat > agcChannelPointCountMax) := by
    rw [agcChannelPointCountMax]
    omega
  simp only [agcChannelPoints, if_neg hrange]
  split
  · rename_i hnone
    rw [hpositions] at hnone
    cases hnone
  · rename_i positions' hsome
    obtain rfl := Option.some.inj (hpositions.symm.trans hsome)
    split
    · rename_i hnil
      rw [hzip] at hnil
      cases hnil
    · rename_i first' rest' hcons
      obtain ⟨rfl, rfl⟩ := List.cons.inj (hzip.symm.trans hcons)
      simp only [dif_pos hfirst, dif_pos hlast]
      exact ⟨_, rfl, rfl⟩

/-! ## The loop over the positions -/

def divideFloor (dividend divisor : Int) : Checked Int := do
  let quotient ← divide dividend divisor
  if dividend < 0 ∧ dividend.tmod divisor ≠ 0 then int32 (quotient - 1) else int32 quotient

/-- `while (…) lower++`, with the points from `lower` on. -/
def advanceLower (position : Nat) : AgcPoint → List AgcPoint → AgcPoint × List AgcPoint
  | lower, [] => (lower, [])
  | lower, upper :: rest =>
      if upper.position ≤ position then advanceLower position upper rest else (lower, upper :: rest)

/-- `correction_x16` between a point and the next. -/
def correctionBetween (position : Nat) (lower upper : AgcPoint) : Checked Int := do
  let correctionX16 ← int32 (lower.correction.toInt * 65536)
  let positionDelta ← int32 (position - lower.position)
  let correctionDelta ← int32 (upper.correction.toInt - lower.correction.toInt)
  let pointDistance ← int32 (upper.position - lower.position)
  let scaled ← int32 (correctionDelta * 65536)
  let correctionStepX16 ← divide scaled pointDistance
  let product ← int32 (positionDelta * correctionStepX16)
  int32 (correctionX16 + product)

/-- `correction_x16` of a position; behind the last point it stays. -/
def correctionX16 (position : Nat) (lower : AgcPoint) : List AgcPoint → Checked Int
  | [] => int32 (lower.correction.toInt * 65536)
  | upper :: _ => correctionBetween position lower upper

/-- What the loop stores, by entry. -/
def channelCorrections (band : GsmBand) : List Nat → AgcPoint → List AgcPoint → Checked (List (Nat × Int))
  | [], _, _ => .ok []
  | position :: positions, lower, rest => do
      let (lower, rest) := advanceLower position lower rest
      let scaled ← correctionX16 position lower rest
      let correction ← divideFloor scaled 65536
      let stored ← channelCorrections band positions lower rest
      return (agcChannelIndex band position, correction) :: stored

/-- `channel_corrections` of a range. -/
abbrev CorrectionRow := Vector Int8 gsmChannelCount

/-- The stores into a row, which has eight bits for a correction. -/
def storeCorrections (row : CorrectionRow) : List (Nat × Int) → Checked CorrectionRow
  | [] => .ok row
  | (index, correction) :: stored =>
      if h : index < gsmChannelCount then storeCorrections (row.set index (Int8.ofInt correction)) stored
      else .error (.write index)

def loadAgcChannelRecord (band : GsmBand) (record : AgcChannelRecord) (row : CorrectionRow) :
    Checked (Option CorrectionRow) :=
  match agcChannelPoints band record with
  | none => .ok none
  | some points => do
      let stored ← channelCorrections band (List.range (agcBandLastPosition band + 1)) points.first points.rest
      let row ← storeCorrections row stored
      return some row

end Pmb887x.GsmL1.SiemensX85
