import Pmb887x.Library.BitFields
import Pmb887x.Dsp.ChannelCode

set_option autoImplicit false

/-! # The model of the channel decoder (`channel_decoder_model_decisions`)

Each timestamp adds a branch metric to the metrics of two states, compares and selects, a butterfly
at a time; the decision bit of a state says which of its two predecessors it came from. All of it is
`int16_t` arithmetic, here with a fault for a value that does not fit. -/

namespace Pmb887x.Dsp

open Library

/-! ## The functions -/

/-- A value stored in an `int16_t`. -/
def int16 (value : Int) : Checked Int :=
  if -2 ^ 15 ≤ value ∧ value < 2 ^ 15 then .ok value else .error .wrap

def channelDecoderBranchMetric (reference : Nat) (input : DecoderInput) : Checked Int := do
  let metric ← int16 (if reference &&& 8 ≠ 0 then -input.sin0.toInt else input.sin0.toInt)
  let metric ← int16
    (metric + if reference &&& 4 ≠ 0 then -input.sin1.toInt else input.sin1.toInt)
  int16 (metric + if reference &&& 2 ≠ 0 then -input.sin2.toInt else input.sin2.toInt)

/-- The new metrics of the states `butterfly` and `butterfly + metric_count / 2`, and whether they
came from the even state. -/
structure Butterfly where
  lower : Int
  upper : Int
  lowerFirst : Bool
  upperFirst : Bool

/-- One turn of the loop of `channel_decoder_model_decisions`. -/
def channelDecoderButterfly (references : List Nat) (metrics : List Int) (input : DecoderInput)
    (butterfly : Nat) : Checked Butterfly := do
  let branchMetric ← channelDecoderBranchMetric (butterflyNibble references butterfly) input
  let evenMetric := metrics.getD (butterfly * 2) 0
  let oddMetric := metrics.getD (butterfly * 2 + 1) 0
  let lowerFirst ← int16 (evenMetric - branchMetric)
  let lowerSecond ← int16 (oddMetric + branchMetric)
  let upperFirst ← int16 (evenMetric + branchMetric)
  let upperSecond ← int16 (oddMetric - branchMetric)
  return {
    lower := if lowerFirst ≥ lowerSecond then lowerFirst else lowerSecond
    upper := if upperFirst ≥ upperSecond then upperFirst else upperSecond
    lowerFirst := decide (lowerFirst ≥ lowerSecond)
    upperFirst := decide (upperFirst ≥ upperSecond) }

/-- The new metrics and the decisions. -/
def channelDecoderModelDecisions (code : ChannelCode) (references : List Nat) (metrics : List Int)
    (input : DecoderInput) : Checked (List Int × Nat) := do
  let butterflies ← (List.range (code.metricCount / 2)).mapM
    (channelDecoderButterfly references metrics input)
  let firsts := butterflies.map Butterfly.lowerFirst ++ butterflies.map Butterfly.upperFirst
  return (butterflies.map Butterfly.lower ++ butterflies.map Butterfly.upper,
    setBits (fun state => firsts.getD state false) code.metricCount)

/-- The metrics and the decisions of all timestamps. -/
def channelDecoderModelSeries (code : ChannelCode) (references : List Nat) :
    List Int → List DecoderInput → Checked (List Int × List Nat)
  | metrics, [] => .ok (metrics, [])
  | metrics, input :: inputs => do
      let step ← channelDecoderModelDecisions code references metrics input
      let rest ← channelDecoderModelSeries code references step.1 inputs
      return (rest.1, step.2 :: rest.2)

/-- `model_metrics` before the first timestamp. -/
def initialMetrics (code : ChannelCode) : List Int :=
  (List.range code.metricCount).map fun state => if state = 0 then 0 else -12000

/-- The start state and the decoded bits; the last timestamp is taken first. -/
def channelDecoderTraceback (code : ChannelCode) : List Nat → Nat × List Bool
  | [] => (0, [])
  | decisions :: later =>
      let path := channelDecoderTraceback code later
      let firstPredecessor := decisions >>> path.1 &&& 1 ≠ 0
      (path.1 % (code.metricCount / 2) * 2 + if firstPredecessor then 0 else 1,
        decide (path.1 ≥ code.metricCount / 2) :: path.2)

/-! ## One timestamp -/

theorem int16_of_bounds {value : Int} (hlow : -2 ^ 15 ≤ value) (hhigh : value < 2 ^ 15) :
    int16 value = .ok value :=
  if_pos ⟨hlow, hhigh⟩

theorem channelDecoderBranchMetric_eq (reference : Nat) (input : DecoderInput) :
    channelDecoderBranchMetric reference input = .ok (input.gain (referenceBits reference)) := by
  have hterm : ∀ (mask : Nat) (value : Int8),
      (if reference &&& mask ≠ 0 then -value.toInt else value.toInt)
        = signed (reference &&& mask == 0) value := by
    intro mask value
    by_cases h : reference &&& mask = 0
    · simp [signed, h]
    · simp [signed, h]
  have h0 := signed_bounds (reference &&& 8 == 0) input.sin0
  have h1 := signed_bounds (reference &&& 4 == 0) input.sin1
  have h2 := signed_bounds (reference &&& 2 == 0) input.sin2
  rw [channelDecoderBranchMetric, hterm, hterm, hterm, int16_of_bounds (by omega) (by omega),
    Checked.ok_bind, int16_of_bounds (by omega) (by omega), Checked.ok_bind]
  exact int16_of_bounds (by omega) (by omega)

/-- The metric a state gets from its even or its odd predecessor. -/
def candidateMetric (code : ChannelCode) (metric : Nat → Int) (input : DecoderInput)
    (state odd : Nat) : Int :=
  metric (predecessor code state odd) +
    (encoderTrellis code).gain input (predecessor code state odd) (lastInput code state)

/-- Metrics that grow by no more than a timestamp can add. -/
def MetricsWithin (code : ChannelCode) (timestamps : Nat) (metrics : List Int) : Prop :=
  ∀ state < code.metricCount,
    -12000 - 384 * (timestamps : Int) ≤ metrics.getD state 0 ∧
      metrics.getD state 0 ≤ 384 * (timestamps : Int)

theorem channelDecoderButterfly_eq (code : ChannelCode) {metrics : List Int} {timestamps : Nat}
    (input : DecoderInput) {butterfly : Nat} (hwithin : MetricsWithin code timestamps metrics)
    (htime : timestamps < maxDecodeTimestamps) (hbutterfly : butterfly < code.metricCount / 2) :
    channelDecoderButterfly (channelDecoderGenerateReferences code) metrics input butterfly
      = .ok (
        let candidate := candidateMetric code (fun state => metrics.getD state 0) input
        let upper := butterfly + code.metricCount / 2
        { lower := if candidate butterfly 0 ≥ candidate butterfly 1 then candidate butterfly 0
            else candidate butterfly 1
          upper := if candidate upper 0 ≥ candidate upper 1 then candidate upper 0
            else candidate upper 1
          lowerFirst := decide (candidate butterfly 0 ≥ candidate butterfly 1)
          upperFirst := decide (candidate upper 0 ≥ candidate upper 1) }) := by
  obtain ⟨hreference, hodd, hzero, hboth⟩ := butterfly_branches code butterfly hbutterfly
  have hcount := code.metricCount_cases
  have hmax : maxDecodeTimestamps = 32 := rfl
  have heven := hwithin (butterfly * 2) (by omega)
  have hoddMetric := hwithin (butterfly * 2 + 1) (by omega)
  have hgain := input.gain_bounds (encodedBits code (encoderInput code (butterfly * 2) true))
  have hmetric := channelDecoderBranchMetric_eq
    (butterflyNibble (channelDecoderGenerateReferences code) butterfly) input
  rw [hreference] at hmetric
  -- the two states of the butterfly have the same two predecessors
  have hlower : ∀ odd, predecessor code butterfly odd = butterfly * 2 + odd := fun odd => by
    rw [predecessor, Nat.mod_eq_of_lt hbutterfly]
  have hupper : ∀ odd, predecessor code (butterfly + code.metricCount / 2) odd
      = butterfly * 2 + odd := fun odd => by
    rw [predecessor, Nat.add_mod_right, Nat.mod_eq_of_lt hbutterfly]
  have hbitLower : lastInput code butterfly = false :=
    decide_eq_false (Nat.not_le.mpr hbutterfly)
  have hbitUpper : lastInput code (butterfly + code.metricCount / 2) = true :=
    decide_eq_true (Nat.le_add_left _ _)
  simp only [candidateMetric, hlower, hupper, hbitLower, hbitUpper, encoderTrellis, hzero, hboth,
    hodd, Nat.add_zero, DecoderInput.gain_complement]
  generalize input.gain (encodedBits code (encoderInput code (butterfly * 2) true)) = gain
    at hgain hmetric ⊢
  have hlowerFirst : int16 (metrics.getD (butterfly * 2) 0 - gain)
      = .ok (metrics.getD (butterfly * 2) 0 + -gain) := int16_of_bounds (by omega) (by omega)
  have hlowerSecond : int16 (metrics.getD (butterfly * 2 + 1) 0 + gain)
      = .ok (metrics.getD (butterfly * 2 + 1) 0 + gain) := int16_of_bounds (by omega) (by omega)
  have hupperFirst : int16 (metrics.getD (butterfly * 2) 0 + gain)
      = .ok (metrics.getD (butterfly * 2) 0 + gain) := int16_of_bounds (by omega) (by omega)
  have hupperSecond : int16 (metrics.getD (butterfly * 2 + 1) 0 - gain)
      = .ok (metrics.getD (butterfly * 2 + 1) 0 + -gain) := int16_of_bounds (by omega) (by omega)
  simp only [channelDecoderButterfly, hmetric, Checked.ok_bind, hlowerFirst, hlowerSecond,
    hupperFirst, hupperSecond, Checked.pure_eq]

/-- A table put together from the lower and the upper states of the butterflies. -/
theorem getD_halves {α : Type} (f : Nat → α) (d : α) {n i : Nat} (h : i < n + n) :
    ((List.range n).map f ++ (List.range n).map fun j => f (j + n)).getD i d = f i := by
  rw [List.getD_eq_getElem?_getD]
  by_cases hi : i < n
  · rw [List.getElem?_append_left (by simpa using hi), List.getElem?_map, List.getElem?_range hi]
    rfl
  · have hsub : i - n + n = i := Nat.sub_add_cancel (Nat.not_lt.mp hi)
    rw [List.getElem?_append_right (by simpa using hi), List.length_map, List.length_range,
      List.getElem?_map, List.getElem?_range (by omega)]
    simp [hsub]

/-- The metrics and the decision bits of one timestamp, state by state. -/
theorem channelDecoderModelDecisions_spec (code : ChannelCode) {metrics : List Int}
    {timestamps : Nat} (input : DecoderInput) (hwithin : MetricsWithin code timestamps metrics)
    (htime : timestamps < maxDecodeTimestamps) :
    ∃ next decisions,
      channelDecoderModelDecisions code (channelDecoderGenerateReferences code) metrics input
        = .ok (next, decisions) ∧
      decisions < 2 ^ code.metricCount ∧
      ∀ state < code.metricCount,
        let candidate := candidateMetric code (fun state => metrics.getD state 0) input state
        next.getD state 0 = (if candidate 0 ≥ candidate 1 then candidate 0 else candidate 1) ∧
          decisions.testBit state = decide (candidate 0 ≥ candidate 1) := by
  have hcount := code.metricCount_cases
  have hbutterflies := mapM_eq_ok (List.range (code.metricCount / 2)) fun butterfly hmem =>
    channelDecoderButterfly_eq code input hwithin htime (List.mem_range.mp hmem)
  refine ⟨_, _, by rw [channelDecoderModelDecisions, hbutterflies, Checked.ok_bind]; rfl,
    setBits_lt _ _, ?_⟩
  intro state hstate
  have hhalves : state < code.metricCount / 2 + code.metricCount / 2 := by omega
  simp only [List.map_map, setBits_testBit, decide_eq_true hstate, Bool.true_and]
  constructor
  · exact getD_halves (fun state =>
      let candidate := candidateMetric code (fun state => metrics.getD state 0) input state
      if candidate 0 ≥ candidate 1 then candidate 0 else candidate 1) 0 hhalves
  · exact getD_halves (fun state =>
      let candidate := candidateMetric code (fun state => metrics.getD state 0) input state
      decide (candidate 0 ≥ candidate 1)) false hhalves

/-- The predecessor and the input that a decision bit stands for. -/
def survivorOf (code : ChannelCode) (decisions state : Nat) : Nat × Bool :=
  (predecessor code state (if decisions.testBit state then 0 else 1), lastInput code state)

/-- A timestamp is a step of the Viterbi algorithm in the encoder's trellis, and no value of it
overflows. -/
theorem channelDecoderModelDecisions_selects (code : ChannelCode) {metrics : List Int}
    {timestamps : Nat} (input : DecoderInput) (hwithin : MetricsWithin code timestamps metrics)
    (htime : timestamps < maxDecodeTimestamps) :
    ∃ next decisions,
      channelDecoderModelDecisions code (channelDecoderGenerateReferences code) metrics input
        = .ok (next, decisions) ∧
      decisions < 2 ^ code.metricCount ∧ MetricsWithin code (timestamps + 1) next ∧
      (encoderTrellis code).Selects (fun state => state < code.metricCount) input
        (fun state => metrics.getD state 0) (fun state => next.getD state 0)
        (survivorOf code decisions) := by
  obtain ⟨next, decisions, hok, hlt, hnext⟩ :=
    channelDecoderModelDecisions_spec code input hwithin htime
  have hodd : ∀ decision : Bool, (if decision then 0 else 1) ≤ 1 := by decide
  refine ⟨next, decisions, hok, hlt, ?_, ?_⟩
  · intro state hstate
    have hfirst := hwithin _ (predecessor_lt code state (Nat.zero_le 1))
    have hsecond := hwithin _ (predecessor_lt code state (Nat.le_refl 1))
    have hgain := fun odd => input.gain_bounds
      (encodedBits code (encoderInput code (predecessor code state odd) (lastInput code state)))
    have hgainFirst := hgain 0
    have hgainSecond := hgain 1
    rw [(hnext state hstate).1]
    simp only [candidateMetric, encoderTrellis]
    split_ifs <;> omega
  · constructor
    case valid_next => exact fun state bit h => encoderNext_lt code bit h
    case valid_survivor => exact fun state _ => predecessor_lt code state (hodd _)
    case arrives => exact fun state hstate => encoderNext_predecessor code hstate (hodd _)
    case metric_eq =>
        intro state hstate
        obtain ⟨hmetric, hbit⟩ := hnext state hstate
        rw [hmetric]
        simp only [survivorOf, hbit, decide_eq_true_eq]
        split_ifs <;> rfl
    case best =>
        intro state bit hstate
        -- the state is the even or the odd predecessor of the one the branch leads to
        have hcandidate : candidateMetric code (fun state => metrics.getD state 0) input
            (encoderNext code state bit) (state % 2)
            = metrics.getD state 0 + (encoderTrellis code).gain input state bit := by
          simp only [candidateMetric, predecessor_encoderNext code bit hstate,
            lastInput_encoderNext code bit hstate]
        rw [← hcandidate]
        show _ ≤ next.getD (encoderNext code state bit) 0
        rw [(hnext _ (encoderNext_lt code bit hstate)).1]
        rcases Nat.mod_two_eq_zero_or_one state with hparity | hparity <;> rw [hparity] <;>
          split_ifs <;> omega

/-! ## All timestamps -/

theorem initialMetrics_getD (code : ChannelCode) {state : Nat} (h : state < code.metricCount) :
    (initialMetrics code).getD state 0 = if state = 0 then 0 else -12000 := by
  rw [List.getD_eq_getElem?_getD, initialMetrics, List.getElem?_map, List.getElem?_range h]
  rfl

theorem metricsWithin_initial (code : ChannelCode) : MetricsWithin code 0 (initialMetrics code) := by
  intro state hstate
  rw [initialMetrics_getD code hstate]
  split_ifs <;> omega

/-- The series is a run of the Viterbi algorithm. -/
theorem channelDecoderModelSeries_survivors (code : ChannelCode) (inputs : List DecoderInput) :
    ∀ {metrics : List Int} {timestamps : Nat}, MetricsWithin code timestamps metrics →
      timestamps + inputs.length ≤ maxDecodeTimestamps →
      ∃ last decisions,
        channelDecoderModelSeries code (channelDecoderGenerateReferences code) metrics inputs
          = .ok (last, decisions) ∧
        (∀ word ∈ decisions, word < 2 ^ code.metricCount) ∧
        (encoderTrellis code).Survivors (fun state => state < code.metricCount) inputs
          (fun state => metrics.getD state 0) (decisions.map (survivorOf code))
          (fun state => last.getD state 0) := by
  induction inputs with
  | nil =>
      intro metrics timestamps _ _
      exact ⟨metrics, [], rfl, fun _ h => absurd h List.not_mem_nil, .nil _⟩
  | cons input inputs ih =>
      intro metrics timestamps hwithin htime
      rw [List.length_cons] at htime
      obtain ⟨next, word, hstep, hword, hnext, hselects⟩ :=
        channelDecoderModelDecisions_selects code input hwithin (by omega)
      obtain ⟨last, decisions, hrest, hwords, hsurvivors⟩ := ih hnext (by omega)
      refine ⟨last, word :: decisions, ?_, ?_, .cons hselects hsurvivors⟩
      · rw [channelDecoderModelSeries, hstep, Checked.ok_bind, hrest, Checked.ok_bind]
        rfl
      · intro w hw
        rcases List.mem_cons.mp hw with rfl | hw
        · exact hword
        · exact hwords w hw

theorem firstPredecessor_iff (decisions state : Nat) :
    decisions >>> state &&& 1 ≠ 0 ↔ decisions.testBit state = true := by
  rw [shiftRight_and_one, Nat.testBit_eq_decide_div_mod_eq, decide_eq_true_iff]
  omega

theorem channelDecoderTraceback_eq (code : ChannelCode) (decisions : List Nat) :
    channelDecoderTraceback code decisions
      = Trellis.traceback (decisions.map (survivorOf code)) 0 := by
  induction decisions with
  | nil => rfl
  | cons word later ih =>
      rw [channelDecoderTraceback, ih, List.map_cons, Trellis.traceback]
      simp only [survivorOf, predecessor, lastInput, firstPredecessor_iff]

/-- Following the survivors back from state 0 ends in state 0. A path from another state would be
12000 behind, and gains at most 768 in each timestamp until it meets the path from state 0 with the
same inputs, after at most six of them. -/
theorem traceback_start (code : ChannelCode) {inputs : List DecoderInput} {last : List Int}
    {decisions : List Nat}
    (h : (encoderTrellis code).Survivors (fun state => state < code.metricCount) inputs
      (fun state => (initialMetrics code).getD state 0) (decisions.map (survivorOf code))
      (fun state => last.getD state 0)) :
    (Trellis.traceback (decisions.map (survivorOf code)) 0).1 = 0 := by
  have hpos : 0 < code.metricCount := by
    rw [code.metricCount_eq]
    exact Nat.two_pow_pos _
  obtain ⟨hvalid, hlength, hend, -⟩ := h.traceback_spec hpos
  generalize hpath : Trellis.traceback (decisions.map (survivorOf code)) 0 = path at *
  by_contra hstart
  have hend0 : (encoderTrellis code).endState 0 path.2 = 0 :=
    Nat.eq_zero_of_le_zero
      ((endState_mono code path.2 (Nat.zero_le path.1)).trans (Nat.le_of_eq hend))
  have hbest := h.traceback_best hpos hpos hlength hend0
  rw [hpath] at hbest
  have hdrop : dropLow code.tailBits path.1 = 0 := by
    rw [dropLow, ← code.metricCount_eq, Nat.div_eq_of_lt hvalid, Nat.zero_mul]
  have hmeet := pathMetric_dropLow code inputs path.1 path.2 (Nat.le_refl code.tailBits)
  have htail : code.tailBits ≤ 6 := by cases code <;> decide
  simp only [initialMetrics_getD code hpos, initialMetrics_getD code hvalid, if_pos, if_neg hstart]
    at hbest
  rw [hdrop] at hmeet
  omega

/-- What the series and the traceback give: words of the decisions, and a path from state 0 to state 0
that no other has a greater metric than. -/
theorem channelDecoderModelSeries_best (code : ChannelCode) {inputs : List DecoderInput}
    (hlength : inputs.length ≤ maxDecodeTimestamps) :
    ∃ last decisions,
      channelDecoderModelSeries code (channelDecoderGenerateReferences code) (initialMetrics code)
        inputs = .ok (last, decisions) ∧
      (∀ word ∈ decisions, word < 2 ^ code.metricCount) ∧ decisions.length = inputs.length ∧
      ∃ decoded, channelDecoderTraceback code decisions = (0, decoded) ∧
        decoded.length = inputs.length ∧ encoderState code decoded = 0 ∧
        ∀ bits : List Bool, bits.length = inputs.length → encoderState code bits = 0 →
          correlation (channelDecoderEncode code 1 bits) inputs
            ≤ correlation (channelDecoderEncode code 1 decoded) inputs := by
  obtain ⟨last, decisions, hok, hwords, hsurvivors⟩ := channelDecoderModelSeries_survivors code
    inputs (metricsWithin_initial code) (by omega)
  have hpos : 0 < code.metricCount := by
    rw [code.metricCount_eq]
    exact Nat.two_pow_pos _
  have hstart := traceback_start code hsurvivors
  obtain ⟨-, hdecoded, hend, -⟩ := hsurvivors.traceback_spec hpos
  have hcount : decisions.length = inputs.length := by
    simpa using hsurvivors.length_eq
  refine ⟨last, decisions, hok, hwords, hcount, _, ?_, hdecoded, ?_, ?_⟩
  · rw [channelDecoderTraceback_eq]
    exact Prod.ext hstart rfl
  · rwa [hstart] at hend
  · intro bits hbits hzero
    have hbest := hsurvivors.traceback_best hpos hpos hbits hzero
    rw [hstart] at hbest
    simp only [channelDecoderEncode, correlation_encodeFrom]
    omega

/-- **The decoder is a maximum likelihood decoder.** For both codes and every input of up to 32
timestamps no value overflows, the traceback from state 0 ends in state 0, and of all paths of the
encoder from state 0 to state 0 none has a greater correlation with the input than the decoded
one. -/
theorem channelDecoder_optimal (code : ChannelCode) (inputs : List DecoderInput)
    (hlength : inputs.length ≤ maxDecodeTimestamps) :
    ∃ last decisions,
      channelDecoderModelSeries code (channelDecoderGenerateReferences code) (initialMetrics code)
        inputs = .ok (last, decisions) ∧
      (channelDecoderTraceback code decisions).1 = 0 ∧
      let decoded := (channelDecoderTraceback code decisions).2
      decoded.length = inputs.length ∧ encoderState code decoded = 0 ∧
      ∀ bits : List Bool, bits.length = inputs.length → encoderState code bits = 0 →
        correlation (channelDecoderEncode code 1 bits) inputs
          ≤ correlation (channelDecoderEncode code 1 decoded) inputs := by
  obtain ⟨last, decisions, hok, -, -, decoded, htraceback, hbest⟩ :=
    channelDecoderModelSeries_best code hlength
  refine ⟨last, decisions, hok, ?_⟩
  rw [htraceback]
  exact ⟨rfl, hbest⟩

theorem channelDecoder_optimal_example : ∃ last decisions,
    channelDecoderModelSeries .k7 (channelDecoderGenerateReferences .k7) (initialMetrics .k7)
      [⟨5, -3, 127⟩, ⟨-128, 0, 16⟩] = .ok (last, decisions) ∧
    (channelDecoderTraceback .k7 decisions).1 = 0 :=
  (channelDecoder_optimal .k7 [⟨5, -3, 127⟩, ⟨-128, 0, 16⟩] (by decide)).imp fun _ h =>
    h.imp fun _ h => ⟨h.1, h.2.1⟩

end Pmb887x.Dsp
