import Pmb887x.GsmL1.Calibration

set_option autoImplicit false

/-! # The AFC value of a frequency

The values rise with the frequency from the first point to the last and go through all of them, and no
computation on the way leaves its type. The register has fifteen bits for the value: it is read back as long as
the last value of the calibration fits. -/

namespace Pmb887x.GsmL1.SiemensX85

open Library

/-! ## One segment -/

/-- A point with its frequency in Hz. -/
def AfcCalibrationPoint.knot (point : AfcCalibrationPoint) : Knot := ⟨point.frequency, point.value.toNat⟩

/-- The value between two points. -/
def afcSegment (p q : Knot) (x : Int) : Int := p.y + ((x - p.x) * (q.y - p.y)).tdiv (q.x - p.x)

variable {p q : AfcCalibrationPoint}

theorem frequency_bounds (p : AfcCalibrationPoint) : -2 ^ 21 ≤ p.frequency ∧ p.frequency < 2 ^ 21 := by
  have hlow := p.frequencyDiv64.le_toInt
  have hhigh := p.frequencyDiv64.toInt_lt
  simp only [AfcCalibrationPoint.frequency, afcFrequencyScale]
  omega

theorem int32_frequency (p : AfcCalibrationPoint) : int32 p.frequency = .ok p.frequency := by
  obtain ⟨hlow, hhigh⟩ := frequency_bounds p
  exact int32_ok (by omega) (by omega)

theorem AfcCalibrationPoint.Before.frequency_lt (h : p.Before q) : p.frequency < q.frequency := by
  have hlt := Int16.lt_iff_toInt_lt.mp h.1
  simp only [AfcCalibrationPoint.frequency, afcFrequencyScale]
  omega

theorem AfcCalibrationPoint.Before.value_lt (h : p.Before q) : p.value.toNat < q.value.toNat :=
  UInt16.lt_iff_toNat_lt.mp h.2

/-- The value rises on a segment. -/
theorem AfcCalibrationPoint.Before.rises (h : p.Before q) : Rises afcSegment p.knot q.knot := by
  have hx : p.knot.x < q.knot.x := h.frequency_lt
  have hy : p.knot.y < q.knot.y := Int.ofNat_lt.mpr h.value_lt
  have hdx : 0 < q.knot.x - p.knot.x := Int.sub_pos_of_lt hx
  have hdy : 0 ≤ q.knot.y - p.knot.y := Int.sub_nonneg_of_le (Int.le_of_lt hy)
  refine ⟨⟨hx, ?_, ?_⟩, fun x x' hleft hle _ => ?_⟩
  · rw [afcSegment, Int.sub_self, Int.zero_mul, Int.zero_tdiv, Int.add_zero]
  · rw [afcSegment, Int.mul_tdiv_cancel_left _ (Int.ne_of_gt hdx), add_sub_cancel]
  · have hoffset : 0 ≤ x - p.knot.x := Int.sub_nonneg_of_le hleft
    have hoffset' : x - p.knot.x ≤ x' - p.knot.x := Int.sub_le_sub_right hle _
    have hproduct := Int.mul_le_mul_of_nonneg_right hoffset' hdy
    rw [afcSegment, afcSegment, Int.tdiv_eq_ediv_of_nonneg (Int.mul_nonneg hoffset hdy),
      Int.tdiv_eq_ediv_of_nonneg (Int.mul_nonneg (Int.le_trans hoffset hoffset') hdy)]
    exact Int.add_le_add_left (Int.ediv_le_ediv hdx hproduct) _

/-- Between its ends a segment has a value of sixteen bits. -/
theorem AfcCalibrationPoint.Before.segment_mem {x : Int} (h : p.Before q) (hp : p.frequency ≤ x)
    (hq : x ≤ q.frequency) :
    p.value.toNat ≤ afcSegment p.knot q.knot x ∧ afcSegment p.knot q.knot x ≤ q.value.toNat := by
  have hleft := h.rises.mono p.knot.x x (Int.le_refl _) hp hq
  have hright := h.rises.mono x q.knot.x hp hq (Int.le_refl _)
  rw [h.rises.left] at hleft
  rw [h.rises.right] at hright
  exact ⟨hleft, hright⟩

/-- A value of sixteen bits is kept by the conversion. -/
theorem toNat_ofInt {y : Int} (h : 0 ≤ y) (h' : y < 2 ^ 16) : ((UInt16.ofInt y).toNat : Int) = y := by
  rw [UInt16.ofInt, UInt16.toNat_ofNat', Nat.mod_eq_of_lt (by omega)]
  omega

theorem ofInt_toNat (value : UInt16) : UInt16.ofInt value.toNat = value := by
  have hlt := value.toNat_lt
  exact UInt16.toNat_inj.mp (Int.ofNat.inj (toNat_ofInt (by omega) (by omega)))

/-! ## The search -/

theorem knots_rise {rest : List AfcCalibrationPoint}
    (h : List.IsChain AfcCalibrationPoint.Before (p :: rest)) :
    List.IsChain (Rises afcSegment) (p.knot :: rest.map AfcCalibrationPoint.knot) := by
  rw [← List.map_cons, List.isChain_map]
  exact h.imp fun _ _ hbefore => hbefore.rises

/-- The loop finds the segment of a frequency, and nothing on the way wraps. -/
theorem searchAfcSegment_ok {rest : List AfcCalibrationPoint} {x : Int}
    (h : List.IsChain AfcCalibrationPoint.Before (p :: rest)) (hx : p.frequency ≤ x) :
    searchAfcSegment x p rest
      = .ok (UInt16.ofInt (piecewise afcSegment p.knot (rest.map AfcCalibrationPoint.knot) x)) := by
  induction rest generalizing p with
  | nil => rw [searchAfcSegment, List.map_nil, piecewise, AfcCalibrationPoint.knot, ofInt_toNat]
  | cons q rest ih =>
      obtain ⟨hpq, hrest⟩ := List.isChain_cons_cons.mp h
      have hp := frequency_bounds p
      have hq := frequency_bounds q
      have hlt := hpq.frequency_lt
      have hvalue := hpq.value_lt
      have hvalue' := q.value.toNat_lt
      rw [searchAfcSegment, int32_frequency, Checked.ok_bind, List.map_cons, piecewise]
      by_cases hle : x ≤ q.frequency
      · have hbounds := hpq.segment_mem hx hle
        have hproduct : 0 ≤ (x - p.frequency) * (q.value.toNat - p.value.toNat) ∧
            (x - p.frequency) * (q.value.toNat - p.value.toNat) ≤ 2 ^ 22 * 2 ^ 16 := by
          constructor
          · exact Int.mul_nonneg (by omega) (by omega)
          · exact Int.mul_le_mul (by omega) (by omega) (by omega) (by omega)
        rw [if_pos hle, if_pos (show x ≤ q.knot.x from hle), int32_frequency, Checked.ok_bind,
          int32_ok (by omega) (by omega), Checked.ok_bind, int32_ok (by omega) (by omega), Checked.ok_bind,
          int32_ok (by omega) (by omega), Checked.ok_bind, int64_ok (by omega) (by omega), Checked.ok_bind,
          divide_ok (by omega), Checked.ok_bind]
        have hsegment : (p.value.toNat : Int)
            + ((x - p.frequency) * (q.value.toNat - p.value.toNat)).tdiv (q.frequency - p.frequency)
            = afcSegment p.knot q.knot x := rfl
        rw [hsegment, int64_ok (by omega) (by omega), Checked.ok_bind]
        rfl
      · rw [if_neg hle, if_neg (show ¬ x ≤ q.knot.x from hle)]
        exact ih hrest (by omega)

variable (afc : AfcCalibration)

/-- The value at a frequency, in ℤ. -/
def AfcCalibration.valueAt (frequency : Int) : Int :=
  piecewise afcSegment afc.first.knot (afc.rest.map AfcCalibrationPoint.knot) frequency

theorem frequencyHzToAfcValue_ok {x : Int} (hx : afc.first.frequency ≤ x) :
    frequencyHzToAfcValue afc x = .ok (UInt16.ofInt (afc.valueAt x)) := by
  have hrise := knots_rise afc.increasing
  rw [frequencyHzToAfcValue, int32_frequency, Checked.ok_bind]
  split_ifs with hle
  · have hfirst : x = afc.first.knot.x := Int.le_antisymm hle hx
    rw [hfirst, AfcCalibration.valueAt, piecewise_start (Rises.joins hrise)]
    exact congrArg _ (ofInt_toNat _).symm
  · exact searchAfcSegment_ok afc.increasing hx

theorem knots_last {rest : List AfcCalibrationPoint} :
    (p.knot :: rest.map AfcCalibrationPoint.knot).getLast (List.cons_ne_nil _ _)
      = ((p :: rest).getLast (List.cons_ne_nil _ _)).knot :=
  List.getLast_map (f := AfcCalibrationPoint.knot) (l := p :: rest) (List.cons_ne_nil _ _)

theorem valueAt_mono {x x' : Int} (hx : afc.first.frequency ≤ x) (hle : x ≤ x') :
    afc.valueAt x ≤ afc.valueAt x' :=
  piecewise_mono (knots_rise afc.increasing) hx hle

theorem valueAt_mem {x : Int} (hx : afc.first.frequency ≤ x) (hlast : x ≤ afc.last.frequency) :
    (afc.first.value.toNat : Int) ≤ afc.valueAt x ∧ afc.valueAt x ≤ afc.last.value.toNat := by
  have hmem := piecewise_mem_Icc (knots_rise afc.increasing) (x := x) hx
  rw [knots_last] at hmem
  exact hmem hlast

theorem valueAt_point : ∀ point ∈ afc.points, afc.valueAt point.frequency = point.value.toNat := by
  intro point hpoint
  have hmem : point.knot ∈ afc.first.knot :: afc.rest.map AfcCalibrationPoint.knot :=
    List.map_cons ▸ List.mem_map_of_mem hpoint
  exact piecewise_knot (Rises.joins (knots_rise afc.increasing)) point.knot hmem

/-- A point is between the first and the last. -/
theorem frequency_mem : ∀ point ∈ afc.points,
    afc.first.frequency ≤ point.frequency ∧ point.frequency ≤ afc.last.frequency := by
  have hpairwise : afc.points.Pairwise fun p q => p.frequency ≤ q.frequency := by
    refine List.IsChain.pairwise (afc.increasing.imp fun p q h => Int.le_of_lt h.frequency_lt)
  intro point hpoint
  refine ⟨?_, ?_⟩
  · rcases List.mem_cons.mp hpoint with rfl | hrest
    · exact Int.le_refl _
    · exact (List.pairwise_cons.mp hpairwise).1 point hrest
  · have hsplit := List.dropLast_append_getLast (List.cons_ne_nil afc.first afc.rest)
    rw [AfcCalibration.points, ← hsplit] at hpairwise hpoint
    rcases List.mem_append.mp hpoint with hfront | hlast
    · exact (List.pairwise_append.mp hpairwise).2.2 point hfront _ (List.mem_singleton_self _)
    · rw [List.mem_singleton.mp hlast]
      exact Int.le_refl _

/-! ## The register -/

variable {minimum maximum : Int}

theorem clampFrequency_mem (h : minimum ≤ maximum) (x : Int) :
    minimum ≤ clampFrequency minimum maximum x ∧ clampFrequency minimum maximum x ≤ maximum := by
  rw [clampFrequency]
  split_ifs <;> omega

theorem clampFrequency_mono (h : minimum ≤ maximum) {x x' : Int} (hle : x ≤ x') :
    clampFrequency minimum maximum x ≤ clampFrequency minimum maximum x' := by
  rw [clampFrequency, clampFrequency]
  split_ifs <;> omega

theorem clampFrequency_of_mem {x : Int} (h : minimum ≤ x) (h' : x ≤ maximum) :
    clampFrequency minimum maximum x = x := by
  rw [clampFrequency, if_neg (Int.not_lt.mpr h), if_neg (Int.not_lt.mpr h')]

/-- The frequency that is set for a requested one. -/
def AfcCalibration.clamp (frequencyHz : Int32) : Int :=
  clampFrequency afc.first.frequency afc.last.frequency frequencyHz.toInt

theorem first_le_last : afc.first.frequency ≤ afc.last.frequency :=
  (frequency_mem afc afc.first List.mem_cons_self).2

/-- **What is set**: the value between the points, with the flag. -/
theorem gsmBoardSetFrequencyCorrectionHz_ok (frequencyHz : Int32) :
    gsmBoardSetFrequencyCorrectionHz afc frequencyHz
      = .ok ⟨(UInt16.ofInt (afc.valueAt (afc.clamp frequencyHz))).toUInt32 ||| afcvalEnafc,
          afc.clamp frequencyHz⟩ := by
  have hmem := clampFrequency_mem (first_le_last afc) frequencyHz.toInt
  rw [gsmBoardSetFrequencyCorrectionHz, int32_frequency, Checked.ok_bind, int32_frequency, Checked.ok_bind]
  dsimp only
  rw [frequencyHzToAfcValue_ok afc hmem.1]
  rfl

/-- The register with a value and the flag, as bits. -/
theorem afcval_toNat (value : UInt16) : (value.toUInt32 ||| afcvalEnafc).toNat = value.toNat ||| 2 ^ 15 := by
  rw [UInt32.toNat_or, UInt16.toNat_toUInt32]
  rfl

theorem gsmBoardGetAfcValue_toNat (value : UInt16) (frequencyHz : Int) :
    (gsmBoardGetAfcValue ⟨value.toUInt32 ||| afcvalEnafc, frequencyHz⟩).toNat = value.toNat % 2 ^ 15 := by
  have hmask : afcvalAfc.toNat = 2 ^ 15 - 1 := rfl
  rw [gsmBoardGetAfcValue, UInt32.toNat_toUInt16, UInt32.toNat_and, afcval_toNat, hmask,
    Nat.and_two_pow_sub_one_eq_mod, Nat.or_mod_two_pow, Nat.mod_self, Nat.or_zero,
    Nat.mod_eq_of_lt (a := value.toNat % 2 ^ 15) (by omega)]

/-- Whatever the register has, fifteen bits of it are read. -/
theorem gsmBoardGetAfcValue_lt (board : AfcBoard) : (gsmBoardGetAfcValue board).toNat < 2 ^ 15 := by
  have hmask : board.afcval.toNat &&& afcvalAfc.toNat ≤ 2 ^ 15 - 1 := Nat.and_le_right
  rw [gsmBoardGetAfcValue, UInt32.toNat_toUInt16, UInt32.toNat_and]
  exact Nat.lt_of_le_of_lt (Nat.le_trans (Nat.mod_le _ _) hmask) (by decide)

/-- What a calibration is to make of the frequencies: each of them gives a value that is read back from the
register, with the flag and nothing else; the values go through the points, stay between the first and the last
and rise with the frequency. -/
structure Follows (afc : AfcCalibration) (value : Int32 → UInt16) : Prop where
  written : ∀ frequencyHz, ∃ board, gsmBoardSetFrequencyCorrectionHz afc frequencyHz = .ok board ∧
    frequencyHzToAfcValue afc board.frequencyCorrectionHz = .ok (value frequencyHz) ∧
    gsmBoardGetAfcValue board = value frequencyHz ∧ board.afcval.toNat / 2 ^ 15 = 1
  bounds : ∀ frequencyHz, afc.first.value ≤ value frequencyHz ∧ value frequencyHz ≤ afc.last.value
  points : ∀ point ∈ afc.points, ∀ frequencyHz : Int32, frequencyHz.toInt = point.frequency →
    value frequencyHz = point.value
  mono : ∀ frequencyHz frequencyHz' : Int32, frequencyHz ≤ frequencyHz' →
    value frequencyHz ≤ value frequencyHz'

theorem follows_of_lt (h : afc.last.value < 0x8000) :
    Follows afc fun frequencyHz => UInt16.ofInt (afc.valueAt (afc.clamp frequencyHz)) := by
  have hclamp := fun frequencyHz : Int32 => clampFrequency_mem (first_le_last afc) frequencyHz.toInt
  have hmem := fun frequencyHz => valueAt_mem afc (hclamp frequencyHz).1 (hclamp frequencyHz).2
  have hlast : afc.last.value.toNat < 2 ^ 15 := UInt16.lt_iff_toNat_lt.mp h
  have hnat : ∀ frequencyHz : Int32, ((UInt16.ofInt (afc.valueAt (afc.clamp frequencyHz))).toNat : Int)
      = afc.valueAt (afc.clamp frequencyHz) := by
    intro frequencyHz
    have hvalue := hmem frequencyHz
    exact toNat_ofInt (by unfold AfcCalibration.clamp; omega) (by unfold AfcCalibration.clamp; omega)
  constructor
  · intro frequencyHz
    have hvalue := hmem frequencyHz
    have hsmall : (UInt16.ofInt (afc.valueAt (afc.clamp frequencyHz))).toNat < 2 ^ 15 := by
      have := hnat frequencyHz
      unfold AfcCalibration.clamp at *
      omega
    refine ⟨_, gsmBoardSetFrequencyCorrectionHz_ok afc frequencyHz,
      frequencyHzToAfcValue_ok afc (hclamp frequencyHz).1, ?_, ?_⟩
    · refine UInt16.toNat_inj.mp ?_
      rw [gsmBoardGetAfcValue_toNat, Nat.mod_eq_of_lt hsmall]
    · rw [afcval_toNat, Nat.or_comm, ← Nat.mul_one (2 ^ 15), ← Nat.two_pow_add_eq_or_of_lt hsmall]
      omega
  · intro frequencyHz
    have hvalue := hmem frequencyHz
    have := hnat frequencyHz
    unfold AfcCalibration.clamp at *
    exact ⟨UInt16.le_iff_toNat_le.mpr (by omega), UInt16.le_iff_toNat_le.mpr (by omega)⟩
  · intro point hpoint frequencyHz heq
    have hrange := frequency_mem afc point hpoint
    have hat : afc.clamp frequencyHz = point.frequency := by
      rw [AfcCalibration.clamp, heq, clampFrequency_of_mem hrange.1 hrange.2]
    simp only [hat]
    rw [valueAt_point afc point hpoint, ofInt_toNat]
  · intro frequencyHz frequencyHz' hle
    have hmono := valueAt_mono afc (hclamp frequencyHz).1
      (clampFrequency_mono (first_le_last afc) (Int32.le_iff_toInt_le.mp hle))
    have hnat₁ := hnat frequencyHz
    have hnat₂ := hnat frequencyHz'
    unfold AfcCalibration.clamp at *
    exact UInt16.le_iff_toNat_le.mpr (by omega)

/-- **When the AFC follows its calibration**: the last value fits the fifteen bits of the register. -/
theorem follows_iff (afc : AfcCalibration) : (∃ value, Follows afc value) ↔ afc.last.value < 0x8000 := by
  constructor
  · rintro ⟨value, hvalue⟩
    have hmem : afc.last ∈ afc.points := List.getLast_mem _
    have hbounds := frequency_bounds afc.last
    have hto : (Int32.ofInt afc.last.frequency).toInt = afc.last.frequency :=
      Int32.toInt_ofInt_of_le (by omega) (by omega)
    obtain ⟨board, -, -, hread, -⟩ := hvalue.written (Int32.ofInt afc.last.frequency)
    rw [hvalue.points afc.last hmem _ hto] at hread
    have hlt := gsmBoardGetAfcValue_lt board
    rw [hread] at hlt
    exact UInt16.lt_iff_toNat_lt.mpr hlt
  · exact fun h => ⟨_, follows_of_lt afc h⟩

theorem last_of_rest {afc : AfcCalibration} {rest : List AfcCalibrationPoint} (hne : rest ≠ [])
    (hrest : afc.rest = rest) : afc.last = rest.getLast hne := by
  subst hrest
  exact List.getLast_cons hne

/-- A block whose last value has this high byte. -/
def afcBlock (high : UInt8) : EeliteBlock where
  version := afcEeliteVersion
  size := afcEeliteSize
  data := [1, 0] ++ List.replicate 16 0 ++ [6, 0, 0, 0, 0xCE, 0xFF] ++
    [0x00, 0x10, 0, 0, 0x00, 0x20, 50, 0, 0x00, 0x40, 100, 0, 0x00, 0x60, 150, 0, 0x00, high, 200, 0] ++
    List.replicate 176 0

/-- A block that meets the condition. -/
theorem afcBlock_follows :
    ∃ afc, loadAfcCalibration (.ok (afcBlock 0x70)) = .ok afc ∧ afc.last = ⟨0x7000, 200⟩ ∧
      ∃ value, Follows afc value := by
  obtain ⟨afc, hload, hrest⟩ := exists_loadAfcCalibration (show (afcBlock 0x70).version = _ from rfl) rfl
    (by decide) (by decide) (by decide)
  have hlast : afc.last = ⟨0x7000, 200⟩ := (last_of_rest (by decide) hrest).trans (by decide)
  refine ⟨afc, hload, hlast, (follows_iff afc).mpr ?_⟩
  rw [hlast]
  decide

/-- The last value `0x9000` has the bit of the flag. -/
def wideBlock : EeliteBlock := afcBlock 0x90

theorem wideBlock_not_follows :
    ∃ afc, loadAfcCalibration (.ok wideBlock) = .ok afc ∧ ¬ ∃ value, Follows afc value := by
  obtain ⟨afc, hload, hrest⟩ := exists_loadAfcCalibration (show wideBlock.version = _ from rfl) rfl
    (by decide) (by decide) (by decide)
  refine ⟨afc, hload, fun ⟨value, hvalue⟩ => ?_⟩
  have hlast : afc.last = ⟨0x9000, 200⟩ := (last_of_rest (by decide) hrest).trans (by decide)
  have hmem : afc.last ∈ afc.points := List.getLast_mem _
  obtain ⟨board, -, -, hread, -⟩ := hvalue.written 12800
  rw [hvalue.points afc.last hmem 12800 (by rw [hlast]; decide), hlast] at hread
  have hlt := gsmBoardGetAfcValue_lt board
  rw [hread] at hlt
  exact absurd hlt (by decide)

end Pmb887x.GsmL1.SiemensX85
