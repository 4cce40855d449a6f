import Pmb887x.Library.Signed
import Mathlib.Data.Nat.GCD.Basic
import Mathlib.Algebra.Order.Ring.Int
import Mathlib.Tactic.Ring
import Mathlib.Tactic.Linarith

set_option autoImplicit false

/-! # One period of a tone (`pcm.c`)

`pcm_waveform_generate` fills an array with the samples of a waveform. Called for `pcm_period_frame_count`
frames it leaves one period: `wave` is the waveform that goes on for ever, and the samples repeat it. -/

namespace Pmb887x.Audio

open Library

/-! ## The code -/

inductive PcmWaveform where
  | triangle
  | sawtooth
  | square
  deriving DecidableEq

def pcmCommonDivisor (first second : Nat) : Nat :=
  if second = 0 then first else pcmCommonDivisor second (first % second)
termination_by second
decreasing_by exact Nat.mod_lt first (Nat.pos_of_ne_zero ‹_›)

def pcmPeriodFrameCount (sampleRateHz toneHz : Nat) : Nat :=
  if sampleRateHz = 0 then 0
  else if toneHz = 0 then 0
  else sampleRateHz / pcmCommonDivisor sampleRateHz toneHz

/-- `amplitude * phase / sampleRateHz` in `int64_t` -/
def scaled (amplitude : Int) (phase sampleRateHz : Nat) : Checked Int := do
  let product ← int64 (amplitude * phase)
  divide product sampleRateHz

def pcmTriangleSample (phase sampleRateHz : Nat) (amplitude : Int) : Checked Int :=
  let falling := sampleRateHz * 3 % 2 ^ 32
  if phase < sampleRateHz then do
    let rise ← scaled amplitude phase sampleRateHz
    return toInt32 rise
  else if phase < falling then do
    let fall ← scaled amplitude (phase - sampleRateHz) sampleRateHz
    let sample ← int64 (amplitude - fall)
    return toInt32 sample
  else do
    -- `phase - sample_rate_hz * 3` is unsigned
    let rise ← scaled amplitude ((phase + 2 ^ 32 - falling) % 2 ^ 32) sampleRateHz
    let low ← int32 (-amplitude)
    let sample ← int64 (low + rise)
    return toInt32 sample

def sawtoothSample (phase phasePeriod : Nat) (amplitude : Int) : Checked Int := do
  let low ← int32 (-amplitude)
  let twice ← int64 (2 * amplitude)
  let rise ← scaled twice phase phasePeriod
  let sample ← int64 (low + rise)
  return toInt32 sample

def squareSample (phase sampleRateHz : Nat) (amplitude : Int) : Checked Int :=
  if phase < sampleRateHz * 2 % 2 ^ 32 then .ok amplitude else int32 (-amplitude)

/-- The sample of one `phase`. -/
def waveformSample (phase phasePeriod sampleRateHz : Nat) (amplitude : Int) : PcmWaveform → Checked Int
  | .triangle => pcmTriangleSample phase sampleRateHz amplitude
  | .sawtooth => sawtoothSample phase phasePeriod amplitude
  | .square => squareSample phase sampleRateHz amplitude

def pcmWaveformGenerate (sampleCount sampleRateHz toneHz : Nat) (amplitude : Int)
    (waveform : PcmWaveform) : Checked (List Int16) :=
  let phasePeriod := sampleRateHz * 4 % 2 ^ 32
  (List.range sampleCount).mapM fun i => do
    let phase ← remainder (i * toneHz % 2 ^ 64 * 4 % 2 ^ 64) phasePeriod
    let sample ← waveformSample phase phasePeriod sampleRateHz amplitude waveform
    return Int16.ofInt sample

/-! ## The infinite waveform -/

/-- The waveform at a phase from `0` to `4 * rate`. -/
def level (rate : Nat) (amplitude : Int) (phase : Nat) : PcmWaveform → Int
  | .triangle =>
      if phase < rate then amplitude * phase / rate
      else if phase < 3 * rate then amplitude - amplitude * (phase - rate) / rate
      else -amplitude + amplitude * (phase - 3 * rate) / rate
  | .sawtooth => -amplitude + 2 * amplitude * phase / (4 * rate)
  | .square => if phase < 2 * rate then amplitude else -amplitude

/-- Frame `j` of the waveform: in `rate` frames it goes through `tone` periods. -/
def wave (rate tone : Nat) (amplitude : Int) (waveform : PcmWaveform) (j : Nat) : Int :=
  level rate amplitude (j * tone * 4 % (4 * rate)) waveform

/-! ## The period -/

theorem pcmCommonDivisor_eq (first second : Nat) :
    pcmCommonDivisor first second = Nat.gcd first second := by
  fun_induction pcmCommonDivisor first second with
  | case1 first => rw [Nat.gcd_zero_right]
  | case2 first second h ih => rw [ih, Nat.gcd_comm second, ← Nat.gcd_rec, Nat.gcd_comm]

variable {rate tone : Nat} {amplitude : Int} {waveform : PcmWaveform}

theorem pcmPeriodFrameCount_eq (hrate : rate ≠ 0) (htone : tone ≠ 0) :
    pcmPeriodFrameCount rate tone = rate / Nat.gcd rate tone := by
  rw [pcmPeriodFrameCount, if_neg hrate, if_neg htone, pcmCommonDivisor_eq]

theorem pcmPeriodFrameCount_zero (tone : Nat) : pcmPeriodFrameCount 0 tone = 0 := by
  rw [pcmPeriodFrameCount, if_pos rfl]

theorem pcmPeriodFrameCount_le (rate tone : Nat) : pcmPeriodFrameCount rate tone ≤ rate := by
  rw [pcmPeriodFrameCount]
  split
  · exact Nat.zero_le rate
  · split
    · exact Nat.zero_le rate
    · exact Nat.div_le_self rate _

theorem pcmPeriodFrameCount_pos (hrate : rate ≠ 0) (htone : tone ≠ 0) :
    0 < pcmPeriodFrameCount rate tone := by
  rw [pcmPeriodFrameCount_eq hrate htone]
  have hgcd := Nat.gcd_pos_of_pos_left tone (Nat.pos_of_ne_zero hrate)
  exact Nat.div_pos (Nat.gcd_le_left tone (Nat.pos_of_ne_zero hrate)) hgcd

/-- In one period the tone goes through whole periods. -/
theorem dvd_period_mul (hrate : rate ≠ 0) (htone : tone ≠ 0) :
    rate ∣ pcmPeriodFrameCount rate tone * tone := by
  rw [pcmPeriodFrameCount_eq hrate htone]
  refine ⟨tone / Nat.gcd rate tone, ?_⟩
  rw [← Nat.mul_div_assoc rate (Nat.gcd_dvd_right rate tone),
    Nat.div_mul_right_comm (Nat.gcd_dvd_left rate tone)]

/-- The waveform repeats after one period. -/
theorem wave_mod_period (hrate : rate ≠ 0) (htone : tone ≠ 0) (j : Nat) :
    wave rate tone amplitude waveform (j % pcmPeriodFrameCount rate tone)
      = wave rate tone amplitude waveform j := by
  obtain ⟨turns, hturns⟩ := dvd_period_mul hrate htone
  have hsplit : j * tone * 4
      = j % pcmPeriodFrameCount rate tone * tone * 4
        + 4 * rate * (turns * (j / pcmPeriodFrameCount rate tone)) := by
    calc j * tone * 4
        = (j % pcmPeriodFrameCount rate tone
            + pcmPeriodFrameCount rate tone * (j / pcmPeriodFrameCount rate tone)) * tone * 4 := by
          rw [Nat.mod_add_div]
      _ = j % pcmPeriodFrameCount rate tone * tone * 4
            + 4 * (pcmPeriodFrameCount rate tone * tone) * (j / pcmPeriodFrameCount rate tone) := by
          ring
      _ = _ := by rw [hturns]; ring
  rw [wave, wave, hsplit, Nat.add_mul_mod_self_left]

/-! ## Bounds -/

/-- `n` steps climb by `a`, and `k` are at most `m` times as many. -/
theorem climb_bounds {a k n m : Int} (ha : 0 ≤ a) (hk : 0 ≤ k) (hkn : k ≤ m * n) (hn : 0 < n) :
    0 ≤ a * k / n ∧ a * k / n ≤ a * m := by
  refine ⟨Int.ediv_nonneg (Int.mul_nonneg ha hk) hn.le, Int.ediv_le_of_le_mul hn ?_⟩
  rw [Int.mul_assoc]
  exact Int.mul_le_mul_of_nonneg_left hkn ha

variable {phase : Nat}

theorem rise_bounds (hamp : 0 ≤ amplitude) (h : phase < rate) :
    0 ≤ amplitude * phase / rate ∧ amplitude * phase / rate ≤ amplitude := by
  have hclimb := climb_bounds (k := phase) (n := rate) (m := 1) hamp (by omega) (by omega) (by omega)
  rwa [Int.mul_one] at hclimb

theorem fall_bounds (hamp : 0 ≤ amplitude) (h : rate ≤ phase) (h' : phase < 3 * rate) :
    0 ≤ amplitude * (phase - rate) / rate ∧ amplitude * (phase - rate) / rate ≤ amplitude * 2 :=
  climb_bounds hamp (by omega) (by omega) (by omega)

theorem return_bounds (hamp : 0 ≤ amplitude) (h : 3 * rate ≤ phase) (h' : phase < 4 * rate) :
    0 ≤ amplitude * (phase - 3 * rate) / rate ∧ amplitude * (phase - 3 * rate) / rate ≤ amplitude := by
  have hclimb := climb_bounds (k := phase - 3 * rate) (n := rate) (m := 1) hamp (by omega)
    (by omega) (by omega)
  rwa [Int.mul_one] at hclimb

theorem sawtooth_bounds (hamp : 0 ≤ amplitude) (h : phase < 4 * rate) :
    0 ≤ 2 * amplitude * phase / (4 * rate) ∧ 2 * amplitude * phase / (4 * rate) ≤ 2 * amplitude := by
  have hclimb := climb_bounds (a := 2 * amplitude) (k := phase) (n := 4 * rate) (m := 1)
    (by omega) (by omega) (by omega) (by omega)
  rwa [Int.mul_one] at hclimb

theorem level_bounds (hamp : 0 ≤ amplitude) (hphase : phase < 4 * rate) :
    -amplitude ≤ level rate amplitude phase waveform ∧ level rate amplitude phase waveform ≤ amplitude := by
  cases waveform with
  | triangle =>
      simp only [level]
      split_ifs with hrise hfall
      · have hbounds := rise_bounds hamp hrise
        constructor <;> omega
      · have hbounds := fall_bounds hamp (Nat.le_of_not_lt hrise) hfall
        constructor <;> omega
      · have hbounds := return_bounds hamp (Nat.le_of_not_lt hfall) hphase
        constructor <;> omega
  | sawtooth =>
      have hbounds := sawtooth_bounds hamp hphase
      simp only [level]
      constructor <;> omega
  | square =>
      simp only [level]
      split_ifs
      · exact ⟨by omega, le_rfl⟩
      · exact ⟨le_rfl, by omega⟩

theorem wave_bounds (hrate : rate ≠ 0) (hamp : 0 ≤ amplitude) (j : Nat) :
    -amplitude ≤ wave rate tone amplitude waveform j ∧ wave rate tone amplitude waveform j ≤ amplitude :=
  level_bounds hamp (Nat.mod_lt _ (by omega))

/-! ## The code computes it -/

/-- A product of `int64_t` and its quotient. -/
theorem scaled_ok {n : Nat} (hamp : 0 ≤ amplitude) (hamp' : amplitude < 2 ^ 31) (hphase : phase < 2 ^ 32)
    (hn : n ≠ 0) : scaled amplitude phase n = .ok (amplitude * phase / n) := by
  have hnonneg : 0 ≤ amplitude * phase := Int.mul_nonneg hamp (Int.natCast_nonneg phase)
  have hsmall : amplitude * phase ≤ (2 ^ 31 - 1) * (2 ^ 32 - 1) :=
    Int.mul_le_mul (by omega) (by omega) (by omega) (by decide)
  rw [scaled, int64_ok (by omega) (by omega), Checked.ok_bind, divide_ok (by omega),
    Int.tdiv_eq_ediv_of_nonneg hnonneg]

theorem squareSample_ok (hrate : 4 * rate < 2 ^ 32) (hamp : 0 ≤ amplitude) (hamp' : amplitude ≤ 32767) :
    squareSample phase rate amplitude = .ok (level rate amplitude phase .square) := by
  have hhalf : rate * 2 % 2 ^ 32 = 2 * rate := by
    rw [Nat.mul_comm, Nat.mod_eq_of_lt (by omega)]
  rw [squareSample, hhalf, level, int32_ok (by omega) (by omega)]
  split_ifs <;> rfl

section

variable (hrate : 4 * rate < 2 ^ 32) (hamp : 0 ≤ amplitude) (hamp' : amplitude ≤ 32767)
  (hphase : phase < 4 * rate)

include hrate hamp hamp' hphase

theorem pcmTriangleSample_ok :
    pcmTriangleSample phase rate amplitude = .ok (level rate amplitude phase .triangle) := by
  have hfalling : rate * 3 % 2 ^ 32 = 3 * rate := by
    rw [Nat.mul_comm, Nat.mod_eq_of_lt (by omega)]
  simp only [pcmTriangleSample, level, hfalling]
  split_ifs with hrise hfall
  · have hbounds := rise_bounds hamp hrise
    rw [scaled_ok hamp (by omega) (by omega) (by omega), Checked.ok_bind,
      toInt32_eq (by omega) (by omega), Checked.pure_eq]
  · have hbounds := fall_bounds hamp (Nat.le_of_not_lt hrise) hfall
    rw [scaled_ok hamp (by omega) (by omega) (by omega), Checked.ok_bind,
      Int.ofNat_sub (Nat.le_of_not_lt hrise), int64_ok (by omega) (by omega), Checked.ok_bind,
      toInt32_eq (by omega) (by omega), Checked.pure_eq]
  · have hbounds := return_bounds hamp (Nat.le_of_not_lt hfall) hphase
    have hback : (phase + 2 ^ 32 - 3 * rate) % 2 ^ 32 = phase - 3 * rate := by omega
    rw [hback, scaled_ok hamp (by omega) (by omega) (by omega), Checked.ok_bind,
      int32_ok (by omega) (by omega), Checked.ok_bind, Int.ofNat_sub (Nat.le_of_not_lt hfall)]
    push_cast
    rw [int64_ok (by omega) (by omega), Checked.ok_bind, toInt32_eq (by omega) (by omega), Checked.pure_eq]

theorem sawtoothSample_ok :
    sawtoothSample phase (4 * rate) amplitude = .ok (level rate amplitude phase .sawtooth) := by
  have hbounds := sawtooth_bounds hamp hphase
  rw [sawtoothSample, int32_ok (by omega) (by omega), Checked.ok_bind, int64_ok (by omega) (by omega),
    Checked.ok_bind, scaled_ok (by omega) (by omega) (by omega) (by omega), Checked.ok_bind]
  push_cast
  rw [int64_ok (by omega) (by omega), Checked.ok_bind, toInt32_eq (by omega) (by omega), Checked.pure_eq,
    level]

theorem waveformSample_ok :
    waveformSample phase (4 * rate) rate amplitude waveform = .ok (level rate amplitude phase waveform) := by
  cases waveform with
  | triangle => exact pcmTriangleSample_ok hrate hamp hamp' hphase
  | sawtooth => exact sawtoothSample_ok hrate hamp hamp' hphase
  | square => exact squareSample_ok hrate hamp hamp'

end

/-- `i * tone * 4` fits `uint64_t` within one period. -/
theorem period_mul_lt {i : Nat} (hrate : 4 * rate < 2 ^ 32) (htone : tone < 2 ^ 32)
    (hi : i < pcmPeriodFrameCount rate tone) : i * tone * 4 < 2 ^ 64 := by
  have hle : i ≤ rate := hi.le.trans (pcmPeriodFrameCount_le rate tone)
  have hmul : i * tone ≤ rate * 2 ^ 32 := Nat.mul_le_mul hle htone.le
  omega

/-- **One period of samples repeats the waveform.** -/
theorem pcmWaveformGenerate_ok (hrate : 4 * rate < 2 ^ 32) (htone : tone < 2 ^ 32) (hamp : 0 ≤ amplitude)
    (hamp' : amplitude ≤ 32767) (waveform : PcmWaveform) :
    pcmWaveformGenerate (pcmPeriodFrameCount rate tone) rate tone amplitude waveform
      = .ok ((List.range (pcmPeriodFrameCount rate tone)).map fun i =>
          Int16.ofInt (wave rate tone amplitude waveform i)) := by
  refine mapM_eq_ok _ fun i hmem => ?_
  have hi : i < pcmPeriodFrameCount rate tone := List.mem_range.mp hmem
  have hrate' : 0 < rate := Nat.lt_of_lt_of_le (Nat.zero_lt_of_lt hi) (pcmPeriodFrameCount_le rate tone)
  have hperiod : rate * 4 % 2 ^ 32 = 4 * rate := by
    rw [Nat.mul_comm, Nat.mod_eq_of_lt hrate]
  have hfit := period_mul_lt hrate htone hi
  rw [hperiod, Nat.mod_eq_of_lt (a := i * tone) (by omega), Nat.mod_eq_of_lt hfit,
    remainder_ok (by omega), Checked.ok_bind, waveformSample_ok hrate hamp hamp' (Nat.mod_lt _ (by omega)),
    Checked.ok_bind, Checked.pure_eq, wave]

end Pmb887x.Audio
