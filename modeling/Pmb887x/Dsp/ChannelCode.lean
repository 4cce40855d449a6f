import Mathlib
import Pmb887x.Library.Checked
import Pmb887x.Library.Trellis

set_option autoImplicit false

/-! # The codes of the channel decoder (`channel-decoder-vectors.c`)

Two convolutional codes of rate 1/3: a shift register of four or six bits, and three parities of it
and the new bit. `encoderTrellis` is the trellis of `channel_decoder_encode`, and a path's metric in it
is the correlation of the encoded bits with what is received. -/

namespace Pmb887x.Dsp

open Library

/-! ## The codes -/

/-- `struct decoder_input`: the soft values of one timestamp. -/
structure DecoderInput where
  sin0 : Int8
  sin1 : Int8
  sin2 : Int8
  deriving DecidableEq

/-- The two codes of the decoding vectors. -/
inductive ChannelCode where
  | k5
  | k7
  deriving DecidableEq

namespace ChannelCode

/-- `METRIC_COUNT_16` and `PHYSICAL_METRIC_COUNT` -/
def metricCount : ChannelCode → Nat
  | k5 => 16
  | k7 => 64

/-- `tail_bits` of `run_decoding_vector` -/
def tailBits : ChannelCode → Nat
  | k5 => 4
  | k7 => 6

/-- `polynomial_generators_16` and `polynomial_generators_64` -/
def generators : ChannelCode → Nat × Nat × Nat
  | k5 => (0x17, 0x1D, 0x1B)
  | k7 => (0x79, 0x5B, 0x75)

theorem metricCount_eq (code : ChannelCode) : code.metricCount = 2 ^ code.tailBits := by
  cases code <;> rfl

/-- The number of states is 16 or 64. -/
theorem metricCount_cases (code : ChannelCode) : code.metricCount = 16 ∨ code.metricCount = 64 := by
  cases code
  · exact .inl rfl
  · exact .inr rfl

end ChannelCode

def maxDecodeTimestamps : Nat := 32

/-- The loop of `channel_decoder_parity`. -/
def channelDecoderParityLoop (parity value : Nat) : Nat :=
  if value = 0 then parity else channelDecoderParityLoop (parity ^^^ (value &&& 1)) (value >>> 1)
termination_by value
decreasing_by
  rw [Nat.shiftRight_eq_div_pow]
  omega

def channelDecoderParity (value : Nat) : Nat := channelDecoderParityLoop 0 value

/-! ## The encoder -/

/-- The soft values of one timestamp, from the register with the new bit in it. -/
def encodeTimestamp (code : ChannelCode) (amplitude : Int8) (encoderState : Nat) : DecoderInput where
  sin0 := if channelDecoderParity (encoderState &&& code.generators.1) ≠ 0 then amplitude
    else -amplitude
  sin1 := if channelDecoderParity (encoderState &&& code.generators.2.1) ≠ 0 then amplitude
    else -amplitude
  sin2 := if channelDecoderParity (encoderState &&& code.generators.2.2) ≠ 0 then amplitude
    else -amplitude

def encoderInput (code : ChannelCode) (state : Nat) (bit : Bool) : Nat :=
  state ||| if bit then code.metricCount else 0

def encoderNext (code : ChannelCode) (state : Nat) (bit : Bool) : Nat :=
  state / 2 + if bit then code.metricCount / 2 else 0

/-- `channel_decoder_encode`, from any state on. -/
def channelDecoderEncodeFrom (code : ChannelCode) (amplitude : Int8) :
    Nat → List Bool → List DecoderInput
  | _, [] => []
  | state, bit :: bits =>
      encodeTimestamp code amplitude (encoderInput code state bit) ::
        channelDecoderEncodeFrom code amplitude (encoderNext code state bit) bits

def channelDecoderEncode (code : ChannelCode) (amplitude : Int8) (bits : List Bool) :
    List DecoderInput :=
  channelDecoderEncodeFrom code amplitude 0 bits

/-- The state of the encoder after some bits. -/
def encoderState (code : ChannelCode) (bits : List Bool) : Nat := bits.foldl (encoderNext code) 0

/-! ## The references -/

/-- `reference` of `channel_decoder_generate_references`: the complements of the three parities of
the branch from the even state on a one. -/
def butterflyReference (code : ChannelCode) (butterfly : Nat) : Nat :=
  let encoderState := code.metricCount ||| butterfly * 2
  ((channelDecoderParity (encoderState &&& code.generators.1) ^^^ 1) <<< 3) |||
    ((channelDecoderParity (encoderState &&& code.generators.2.1) ^^^ 1) <<< 2) |||
    ((channelDecoderParity (encoderState &&& code.generators.2.2) ^^^ 1) <<< 1)

def channelDecoderGenerateReferences (code : ChannelCode) : List Nat :=
  (List.range (code.metricCount / 2)).foldl (fun references butterfly =>
    references.set (butterfly / 4) ((references.getD (butterfly / 4) 0 |||
      butterflyReference code butterfly <<< (butterfly % 4 * 4)) % 2 ^ 16)) (List.replicate 8 0)

/-- The nibble `channel_decoder_model_decisions` takes from the registers. -/
def butterflyNibble (references : List Nat) (butterfly : Nat) : Nat :=
  references.getD (butterfly / 4) 0 >>> (butterfly % 4 * 4) &&& 0xF

/-- `polynomial_references_16` and `polynomial_references_64` -/
def polynomialReferences : ChannelCode → List Nat
  | .k5 => [0x6CA0, 0x0AC6, 0, 0, 0, 0, 0, 0]
  | .k7 => [0x6240, 0xAE8C, 0x8CAE, 0x4062, 0xC8EA, 0x0426, 0x2604, 0xEAC8]

/-- `validate_generated_reference_tables` -/
theorem channelDecoderGenerateReferences_eq (code : ChannelCode) :
    channelDecoderGenerateReferences code = polynomialReferences code := by
  cases code <;> decide +kernel

/-! ## The four branches of a butterfly -/

/-- The parities of a register, as the encoder tests them. -/
def encodedBits (code : ChannelCode) (encoderState : Nat) : Bool × Bool × Bool :=
  (channelDecoderParity (encoderState &&& code.generators.1) != 0,
    channelDecoderParity (encoderState &&& code.generators.2.1) != 0,
    channelDecoderParity (encoderState &&& code.generators.2.2) != 0)

def complement (bits : Bool × Bool × Bool) : Bool × Bool × Bool := (!bits.1, !bits.2.1, !bits.2.2)

/-- The bits a nibble of the references stands for: bit 0 is not used. -/
def referenceBits (reference : Nat) : Bool × Bool × Bool :=
  (reference &&& 8 == 0, reference &&& 4 == 0, reference &&& 2 == 0)

/-- The reference of a butterfly has the branch from its even state on a one. As each generator has
its lowest and its highest bit, the odd state and the input zero turn over all three bits. -/
theorem butterfly_branches (code : ChannelCode) :
    ∀ butterfly < code.metricCount / 2,
      referenceBits (butterflyNibble (channelDecoderGenerateReferences code) butterfly)
        = encodedBits code (encoderInput code (butterfly * 2) true) ∧
      encodedBits code (encoderInput code (butterfly * 2 + 1) true)
        = complement (encodedBits code (encoderInput code (butterfly * 2) true)) ∧
      encodedBits code (encoderInput code (butterfly * 2) false)
        = complement (encodedBits code (encoderInput code (butterfly * 2) true)) ∧
      encodedBits code (encoderInput code (butterfly * 2 + 1) false)
        = encodedBits code (encoderInput code (butterfly * 2) true) := by
  rw [channelDecoderGenerateReferences_eq]
  cases code <;> decide +kernel

/-! ## The trellis -/

/-- What one encoded bit gains against a soft value. -/
def signed (bit : Bool) (value : Int8) : Int := if bit then value.toInt else -value.toInt

def DecoderInput.gain (input : DecoderInput) (bits : Bool × Bool × Bool) : Int :=
  signed bits.1 input.sin0 + signed bits.2.1 input.sin1 + signed bits.2.2 input.sin2

/-- The branches of the encoder, and their gain against what is received. -/
def encoderTrellis (code : ChannelCode) : Trellis Nat Bool DecoderInput Int where
  next := encoderNext code
  gain input state bit := input.gain (encodedBits code (encoderInput code state bit))

theorem signed_bounds (bit : Bool) (value : Int8) :
    -128 ≤ signed bit value ∧ signed bit value ≤ 128 := by
  have hlow := value.le_toInt
  have hhigh := value.toInt_lt
  cases bit <;> simp only [signed, if_true, if_false, Bool.false_eq_true] <;> omega

theorem DecoderInput.gain_bounds (input : DecoderInput) (bits : Bool × Bool × Bool) :
    -384 ≤ input.gain bits ∧ input.gain bits ≤ 384 := by
  have h0 := signed_bounds bits.1 input.sin0
  have h1 := signed_bounds bits.2.1 input.sin1
  have h2 := signed_bounds bits.2.2 input.sin2
  unfold DecoderInput.gain
  omega

theorem signed_not (bit : Bool) (value : Int8) : signed (!bit) value = -signed bit value := by
  cases bit
  · exact (Int.neg_neg _).symm
  · rfl

theorem DecoderInput.gain_complement (input : DecoderInput) (bits : Bool × Bool × Bool) :
    input.gain (complement bits) = -input.gain bits := by
  simp only [DecoderInput.gain, complement, signed_not]
  omega

/-- The sum of the products of the components. -/
def correlation : List DecoderInput → List DecoderInput → Int
  | x :: xs, y :: ys =>
      x.sin0.toInt * y.sin0.toInt + x.sin1.toInt * y.sin1.toInt + x.sin2.toInt * y.sin2.toInt +
        correlation xs ys
  | _, _ => 0

/-- The metric of a path is the correlation of the encoded bits, at amplitude one, with what is
received. -/
theorem correlation_encodeFrom (code : ChannelCode) (state : Nat) (inputs : List DecoderInput)
    (bits : List Bool) :
    correlation (channelDecoderEncodeFrom code 1 state bits) inputs
      = (encoderTrellis code).pathMetric state inputs bits := by
  induction bits generalizing state inputs with
  | nil => cases inputs <;> rfl
  | cons bit bits ih =>
      cases inputs with
      | nil => rfl
      | cons input inputs =>
          have hsigned : ∀ (parity : Nat) (value : Int8),
              (if parity ≠ 0 then (1 : Int8) else -1).toInt * value.toInt
                = signed (parity != 0) value := by
            intro parity value
            by_cases h : parity = 0
            · subst h
              simp [signed]
            · simp [signed, h]
          simp only [channelDecoderEncodeFrom, correlation, encodeTimestamp, hsigned, ih,
            Trellis.pathMetric]
          rfl

/-! ## Paths -/

theorem encoderNext_lt (code : ChannelCode) {state : Nat} (bit : Bool)
    (h : state < code.metricCount) : encoderNext code state bit < code.metricCount := by
  have hcount := code.metricCount_cases
  unfold encoderNext
  split_ifs <;> omega

/-- The even or the odd state from which a state can be reached, as the traceback computes it. -/
def predecessor (code : ChannelCode) (state odd : Nat) : Nat :=
  state % (code.metricCount / 2) * 2 + odd

/-- The input on the way there. -/
def lastInput (code : ChannelCode) (state : Nat) : Bool := decide (state ≥ code.metricCount / 2)

theorem predecessor_lt (code : ChannelCode) (state : Nat) {odd : Nat} (h : odd ≤ 1) :
    predecessor code state odd < code.metricCount := by
  unfold predecessor
  rcases code.metricCount_cases with hcount | hcount <;> rw [hcount] <;> omega

theorem encoderNext_predecessor (code : ChannelCode) {state odd : Nat}
    (hstate : state < code.metricCount) (hodd : odd ≤ 1) :
    encoderNext code (predecessor code state odd) (lastInput code state) = state := by
  simp only [encoderNext, predecessor, lastInput, decide_eq_true_eq]
  rcases code.metricCount_cases with hcount | hcount <;> rw [hcount] at hstate ⊢ <;>
    split_ifs <;> omega

theorem predecessor_encoderNext (code : ChannelCode) {state : Nat} (bit : Bool)
    (hstate : state < code.metricCount) :
    predecessor code (encoderNext code state bit) (state % 2) = state := by
  simp only [encoderNext, predecessor]
  rcases code.metricCount_cases with hcount | hcount <;> rw [hcount] at hstate ⊢ <;>
    split_ifs <;> omega

theorem lastInput_encoderNext (code : ChannelCode) {state : Nat} (bit : Bool)
    (hstate : state < code.metricCount) : lastInput code (encoderNext code state bit) = bit := by
  have hcount := code.metricCount_cases
  simp only [lastInput, encoderNext]
  cases bit
  · exact decide_eq_false (by simp only [Bool.false_eq_true, if_false]; omega)
  · exact decide_eq_true (by simp only [if_true]; omega)

theorem encoderNext_mono (code : ChannelCode) {s t : Nat} (bit : Bool) (h : s ≤ t) :
    encoderNext code s bit ≤ encoderNext code t bit :=
  Nat.add_le_add_right (Nat.div_le_div_right h) _

/-- A path that ends in state 0 also does so from state 0. -/
theorem endState_mono (code : ChannelCode) (bits : List Bool) :
    ∀ {s t : Nat}, s ≤ t →
      (encoderTrellis code).endState s bits ≤ (encoderTrellis code).endState t bits := by
  induction bits with
  | nil => exact fun h => h
  | cons bit bits ih => exact fun h => ih (encoderNext_mono code bit h)

/-- The register without its `k` lowest bits. -/
def dropLow (k state : Nat) : Nat := state / 2 ^ k * 2 ^ k

theorem encoderNext_dropLow (code : ChannelCode) {k : Nat} (hk : k + 1 ≤ code.tailBits)
    (state : Nat) (bit : Bool) :
    encoderNext code (dropLow (k + 1) state) bit = dropLow k (encoderNext code state bit) := by
  -- the bit goes in above those that are dropped
  obtain ⟨c, hc⟩ : 2 ^ k ∣ if bit then code.metricCount / 2 else 0 := by
    cases bit
    · exact dvd_zero _
    · rw [if_pos rfl, code.metricCount_eq]
      obtain ⟨j, hj⟩ := Nat.exists_eq_add_of_le hk
      refine ⟨2 ^ j, ?_⟩
      rw [hj, Nat.add_right_comm, Nat.pow_succ, Nat.mul_div_cancel _ Nat.two_pos, Nat.pow_add]
  simp only [encoderNext, dropLow, hc]
  have hhalf : state / 2 ^ (k + 1) * 2 ^ (k + 1) / 2 = state / 2 / 2 ^ k * 2 ^ k := by
    rw [Nat.pow_succ, Nat.div_div_eq_div_mul, Nat.mul_comm 2 (2 ^ k), ← Nat.mul_assoc,
      Nat.mul_div_cancel _ Nat.two_pos]
  rw [hhalf, Nat.add_mul_div_left _ _ (Nat.two_pow_pos k), Nat.add_mul, Nat.mul_comm c]

/-- Paths with the same inputs meet when the register has been filled. Until then each timestamp
costs at most twice the greatest gain. -/
theorem pathMetric_dropLow (code : ChannelCode) (inputs : List DecoderInput) :
    ∀ {k : Nat} (state : Nat) (bits : List Bool), k ≤ code.tailBits →
      (encoderTrellis code).pathMetric state inputs bits
        ≤ (encoderTrellis code).pathMetric (dropLow k state) inputs bits + 768 * k := by
  induction inputs with
  | nil =>
      intro k state bits _
      simp only [Trellis.pathMetric]
      omega
  | cons input inputs ih =>
      intro k state bits hk
      cases bits with
      | nil =>
          simp only [Trellis.pathMetric]
          omega
      | cons bit bits =>
          cases k with
          | zero =>
              have hsame : dropLow 0 state = state := by simp [dropLow]
              rw [hsame]
              omega
          | succ k =>
              have hrest := ih (encoderNext code state bit) bits (Nat.le_of_succ_le hk)
              rw [← encoderNext_dropLow code hk] at hrest
              have hupper := (input.gain_bounds
                (encodedBits code (encoderInput code state bit))).2
              have hlower := (input.gain_bounds
                (encodedBits code (encoderInput code (dropLow (k + 1) state) bit))).1
              have hcost : (768 : Int) * ((k + 1 : Nat) : Int) = 768 * k + 768 := by omega
              simp only [Trellis.pathMetric, hcost]
              simp only [encoderTrellis] at hrest ⊢
              omega

end Pmb887x.Dsp
