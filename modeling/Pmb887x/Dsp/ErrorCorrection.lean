import Pmb887x.Dsp.ChannelDecoder

set_option autoImplicit false

/-! # What the channel decoder corrects

A decoding vector is encoded, some of its components are inverted or erased, and the decoder's
decisions go through the words of the trace. With fewer errors than half the minimum distance, an
erasure counting half, the transmitted path has the greatest correlation of all, so that it is the
one that is decoded. -/

namespace Pmb887x.Dsp

open Library

/-! ## Mutations -/

/-- `struct input_mutation` -/
structure InputMutation where
  timestamp : Nat
  invertMask : Nat
  eraseMask : Nat

def sin0Mask : Nat := 0x01
def sin1Mask : Nat := 0x02
def sin2Mask : Nat := 0x04

def InputMutation.component (m : InputMutation) (mask : Nat) (value : Int8) : Int8 :=
  let value := if m.invertMask &&& mask ≠ 0 then -value else value
  if m.eraseMask &&& mask ≠ 0 then 0 else value

/-- One turn of the loop over the mutations of `run_decoding_vector`. -/
def InputMutation.apply (m : InputMutation) (inputs : List DecoderInput) : List DecoderInput :=
  inputs.modify m.timestamp fun input =>
    { sin0 := m.component sin0Mask input.sin0
      sin1 := m.component sin1Mask input.sin1
      sin2 := m.component sin2Mask input.sin2 }

def applyMutations (mutations : List InputMutation) (inputs : List DecoderInput) :
    List DecoderInput :=
  mutations.foldl (fun inputs m => m.apply inputs) inputs

/-! ## The words of the trace -/

/-- `(uint16_t) ~n` -/
def not16 (n : Nat) : Nat := 2 ^ 16 - 1 - n % 2 ^ 16

def channelDecoderModelTrace64 (decisions : Nat) : List Nat :=
  (List.range 4).map fun group => not16 (decisions >>> ((3 - group) * 16))

def channelDecoderModelTrace (code : ChannelCode) (decisions : Nat) : List Nat :=
  match code with
  | .k5 =>
      let decisionWord := decisions % 2 ^ 16
      let packed := not16 (decisionWord <<< 8 ||| decisionWord >>> 8)
      [packed &&& 0xFF, packed >>> 8]
  | .k7 => channelDecoderModelTrace64 decisions

/-- `trace_words_per_timestamp` -/
def traceWords : ChannelCode → Nat
  | .k5 => 2
  | .k7 => 4

def channelDecoderUnpackTrace (code : ChannelCode) (trace : List Nat) : Nat :=
  match code with
  | .k5 =>
      let packed := (trace.getD 0 0 ||| trace.getD 1 0 <<< 8) % 2 ^ 16
      not16 (packed <<< 8 ||| packed >>> 8)
  | .k7 => (List.range 4).foldl (fun decisions group =>
      decisions ||| not16 (trace.getD group 0) <<< ((3 - group) * 16)) 0

/-- The decisions of all timestamps, each from its words of the trace. -/
def unpackSeries (code : ChannelCode) : Nat → List Nat → List Nat
  | 0, _ => []
  | timestamps + 1, trace =>
      channelDecoderUnpackTrace code trace ::
        unpackSeries code timestamps (trace.drop (traceWords code))

/-- The model's way through `run_decoding_vector`, with its own trace for that of the hardware. -/
def runDecodingVector (code : ChannelCode) (inputs : List DecoderInput) :
    Checked (Nat × List Bool) := do
  let series ← channelDecoderModelSeries code (channelDecoderGenerateReferences code)
    (initialMetrics code) inputs
  let trace := series.2.flatMap (channelDecoderModelTrace code)
  return channelDecoderTraceback code (unpackSeries code inputs.length trace)

theorem swapBytes {n : Nat} (h : n < 2 ^ 16) :
    (n <<< 8 ||| n >>> 8) % 2 ^ 16 = n / 2 ^ 8 + 2 ^ 8 * (n % 2 ^ 8) := by
  rw [Nat.shiftRight_eq_div_pow, Nat.or_comm, or_shiftLeft (by omega)]
  omega

theorem unpackTrace_modelTrace16 {word : Nat} (h : word < 2 ^ 16) (rest : List Nat) :
    channelDecoderUnpackTrace .k5 (channelDecoderModelTrace .k5 word ++ rest) = word := by
  have hnot : ∀ n, not16 n = 2 ^ 16 - 1 - n % 2 ^ 16 := fun n => rfl
  simp only [channelDecoderUnpackTrace, channelDecoderModelTrace, Nat.mod_eq_of_lt h]
  obtain ⟨packed, hpacked⟩ : ∃ packed, packed = not16 (word <<< 8 ||| word >>> 8) := ⟨_, rfl⟩
  have hvalue : packed = 2 ^ 16 - 1 - (word / 2 ^ 8 + 2 ^ 8 * (word % 2 ^ 8)) := by
    rw [hpacked, hnot, swapBytes h]
  have hlow : packed &&& 0xFF = packed % 2 ^ 8 := Nat.and_two_pow_sub_one_eq_mod packed 8
  have hword : ((packed &&& 0xFF) ||| (packed >>> 8) <<< 8) % 2 ^ 16 = packed := by
    rw [hlow, or_shiftLeft (Nat.mod_lt _ (by decide)), Nat.shiftRight_eq_div_pow]
    omega
  rw [← hpacked]
  show not16 ((((packed &&& 0xFF) ||| (packed >>> 8) <<< 8) % 2 ^ 16) <<< 8 |||
    (((packed &&& 0xFF) ||| (packed >>> 8) <<< 8) % 2 ^ 16) >>> 8) = word
  rw [hword, hnot, swapBytes (by omega)]
  omega

/-- Four words put together, the first one on top. -/
theorem or_words {a b c d : Nat} (hb : b < 2 ^ 16) (hc : c < 2 ^ 16) (hd : d < 2 ^ 16) :
    ((a <<< 48 ||| b <<< 32) ||| c <<< 16) ||| d
      = d + 2 ^ 16 * c + 2 ^ 32 * b + 2 ^ 48 * a := by
  have hdc : c <<< 16 ||| d = d + 2 ^ 16 * c := by rw [Nat.or_comm, or_shiftLeft hd]
  have hdcb : b <<< 32 ||| (d + 2 ^ 16 * c) = d + 2 ^ 16 * c + 2 ^ 32 * b := by
    rw [Nat.or_comm, or_shiftLeft (by omega)]
  rw [Nat.or_assoc, Nat.or_assoc, hdc, hdcb, Nat.or_comm, or_shiftLeft (by omega)]

theorem unpackTrace_modelTrace64 {word : Nat} (h : word < 2 ^ 64) (rest : List Nat) :
    channelDecoderUnpackTrace .k7 (channelDecoderModelTrace .k7 word ++ rest) = word := by
  have hgroup : ∀ shift, not16 (not16 (word >>> shift)) = word / 2 ^ shift % 2 ^ 16 := by
    intro shift
    rw [Nat.shiftRight_eq_div_pow]
    unfold not16
    omega
  show (((0 ||| not16 (not16 (word >>> 48)) <<< 48) ||| not16 (not16 (word >>> 32)) <<< 32) |||
    not16 (not16 (word >>> 16)) <<< 16) ||| not16 (not16 (word >>> 0)) <<< 0 = word
  simp only [hgroup, Nat.zero_or, Nat.shiftLeft_zero, Nat.pow_zero, Nat.div_one]
  rw [or_words (Nat.mod_lt _ (by decide)) (Nat.mod_lt _ (by decide)) (Nat.mod_lt _ (by decide))]
  omega

theorem unpackTrace_modelTrace (code : ChannelCode) {word : Nat} (h : word < 2 ^ code.metricCount)
    (rest : List Nat) :
    channelDecoderUnpackTrace code (channelDecoderModelTrace code word ++ rest) = word := by
  cases code with
  | k5 => exact unpackTrace_modelTrace16 h rest
  | k7 => exact unpackTrace_modelTrace64 h rest

/-- Packing the decisions of a series loses nothing. -/
theorem unpackSeries_modelTrace (code : ChannelCode) (decisions : List Nat)
    (h : ∀ word ∈ decisions, word < 2 ^ code.metricCount) :
    unpackSeries code decisions.length (decisions.flatMap (channelDecoderModelTrace code))
      = decisions := by
  induction decisions with
  | nil => rfl
  | cons word decisions ih =>
      have hdrop : (channelDecoderModelTrace code word ++
          decisions.flatMap (channelDecoderModelTrace code)).drop (traceWords code)
          = decisions.flatMap (channelDecoderModelTrace code) := by
        cases code <;> rfl
      rw [List.length_cons, unpackSeries, List.flatMap_cons, hdrop,
        unpackTrace_modelTrace code (h word List.mem_cons_self),
        ih fun w hw => h w (List.mem_cons_of_mem word hw)]

/-! ## Components -/

/-- The number of components of two series that are in a relation. -/
def componentCount (p : Int8 → Int8 → Bool) : List DecoderInput → List DecoderInput → Nat
  | x :: xs, y :: ys =>
      (p x.sin0 y.sin0).toNat + (p x.sin1 y.sin1).toNat + (p x.sin2 y.sin2).toNat +
        componentCount p xs ys
  | _, _ => 0

/-- The components in which two series differ. -/
def differingComponents (xs ys : List DecoderInput) : Nat := componentCount (fun x y => x != y) xs ys

/-- The components that are received as the negative of what was sent. -/
def invertedComponents (sent received : List DecoderInput) : Nat :=
  componentCount (fun s r => r == -s) sent received

/-- The components that are received as zero. -/
def erasedComponents (sent received : List DecoderInput) : Nat :=
  componentCount (fun _ r => r == 0) sent received

/-- The soft value of an encoded bit. -/
def modulate (amplitude : Int8) (bit : Bool) : Int8 := if bit then amplitude else -amplitude

/-- The soft values of three encoded bits. -/
def modulated (amplitude : Int8) (bits : Bool × Bool × Bool) : DecoderInput :=
  ⟨modulate amplitude bits.1, modulate amplitude bits.2.1, modulate amplitude bits.2.2⟩

/-- A component as it can come out of the mutations. -/
def Mutated (sent received : Int8) : Prop := received = sent ∨ received = -sent ∨ received = 0

/-- Three components as they can come out of the mutations. -/
structure MutatedInput (sent received : DecoderInput) : Prop where
  sin0 : Mutated sent.sin0 received.sin0
  sin1 : Mutated sent.sin1 received.sin1
  sin2 : Mutated sent.sin2 received.sin2

theorem Mutated.component (m : InputMutation) (mask : Nat) {sent received : Int8}
    (h : Mutated sent received) : Mutated sent (m.component mask received) := by
  unfold InputMutation.component
  split_ifs
  · exact .inr (.inr rfl)
  · rcases h with rfl | rfl | rfl
    · exact .inr (.inl rfl)
    · exact .inl Int8.neg_neg
    · exact .inr (.inr rfl)
  · exact .inr (.inr rfl)
  · exact h

theorem forall₂_modify {α β : Type} {R : α → β → Prop} {f : β → β} (hf : ∀ a b, R a b → R a (f b))
    {as : List α} {bs : List β} (h : List.Forall₂ R as bs) (i : Nat) :
    List.Forall₂ R as (bs.modify i f) := by
  induction h generalizing i with
  | nil => cases i <;> exact .nil
  | @cons a b as bs hab hrest ih =>
      cases i with
      | zero => exact .cons (hf a b hab) hrest
      | succ i => exact .cons hab (ih i)

theorem mutatedInput_applyMutations (mutations : List InputMutation)
    {sent received : List DecoderInput} (h : List.Forall₂ MutatedInput sent received) :
    List.Forall₂ MutatedInput sent (applyMutations mutations received) := by
  induction mutations generalizing received with
  | nil => exact h
  | cons m mutations ih =>
      exact ih (forall₂_modify (fun _ _ h =>
        ⟨h.sin0.component m _, h.sin1.component m _, h.sin2.component m _⟩) h m.timestamp)

theorem toInt_neg_of_pos {a : Int8} (h : 1 ≤ a.toInt) : (-a).toInt = -a.toInt := by
  have hlt := a.toInt_lt
  have hbmod : Int.bmod (-a.toInt) (2 ^ 8) = -a.toInt := Int.bmod_eq_of_le (by omega) (by omega)
  rw [Int8.toInt_neg, hbmod]

/-- What a component gains for the bit that was sent over another bit. -/
theorem component_margin {amplitude received : Int8} (hamplitude : 1 ≤ amplitude.toInt)
    (sent other : Bool) (h : Mutated (modulate amplitude sent) received) :
    2 * amplitude.toInt * ((modulate 1 sent != modulate 1 other).toNat
        - 2 * (received == -modulate amplitude sent).toNat - (received == 0).toNat : Int)
      ≤ (modulate 1 sent).toInt * received.toInt - (modulate 1 other).toInt * received.toInt := by
  have hneg := toInt_neg_of_pos hamplitude
  have hone : (-1 : Int8).toInt = -1 := rfl
  have hbeq : ∀ x y : Int8, (x == y) = decide (x.toInt = y.toInt) := fun x y => by
    rw [Bool.eq_iff_iff, beq_iff_eq, decide_eq_true_iff, Int8.toInt_inj]
  have hzero : (0 : Int8).toInt = 0 := rfl
  have hunit : (1 : Int8).toInt = 1 := rfl
  have hdiffer : (modulate 1 sent != modulate 1 other).toNat = if sent = other then 0 else 1 := by
    cases sent <;> cases other <;> rfl
  have hsent : (modulate amplitude sent).toInt = (modulate 1 sent).toInt * amplitude.toInt := by
    cases sent
    · simp only [modulate, Bool.false_eq_true, if_false, hneg, hone]
      omega
    · simp only [modulate, if_true, hunit]
      omega
  have hsentNeg : (-modulate amplitude sent).toInt = -(modulate amplitude sent).toInt := by
    cases sent
    · simp only [modulate, Bool.false_eq_true, if_false, Int8.neg_neg, hneg]
      omega
    · exact hneg
  rw [hdiffer, hbeq, hbeq, hsentNeg, hzero]
  have hreceived : received.toInt = (modulate amplitude sent).toInt ∨
      received.toInt = -(modulate amplitude sent).toInt ∨ received.toInt = 0 := by
    rcases h with rfl | rfl | rfl
    · exact .inl rfl
    · exact .inr (.inl hsentNeg)
    · exact .inr (.inr rfl)
  rw [hsent] at hreceived ⊢
  generalize received.toInt = r at hreceived ⊢
  generalize amplitude.toInt = a at hamplitude hreceived ⊢
  have htoNat : ∀ (p : Prop) [Decidable p], ((decide p).toNat : Int) = if p then 1 else 0 := by
    intro p _
    by_cases hp : p <;> simp [hp]
  simp only [htoNat]
  cases sent <;> cases other <;>
    simp only [modulate, Bool.false_eq_true, Bool.true_eq_false, if_true, if_false, hunit, hone]
      at hreceived ⊢ <;>
    rcases hreceived with rfl | rfl | rfl <;> split_ifs <;> omega

/-- **The margin of what was sent.** Against what is received, the encoded bits that were sent have a
correlation above that of any others by twice the amplitude for each component in which the two
differ, less twice that for an inverted and once for an erased component. -/
theorem correlation_margin {amplitude : Int8} (hamplitude : 1 ≤ amplitude.toInt)
    {sent : List (Bool × Bool × Bool)} {received : List DecoderInput}
    (h : List.Forall₂ (fun bits r => MutatedInput (modulated amplitude bits) r) sent received) :
    ∀ {other : List (Bool × Bool × Bool)}, other.length = sent.length →
      2 * amplitude.toInt *
          (differingComponents (sent.map (modulated 1)) (other.map (modulated 1))
            - 2 * invertedComponents (sent.map (modulated amplitude)) received
            - erasedComponents (sent.map (modulated amplitude)) received : Int)
        ≤ correlation (sent.map (modulated 1)) received
          - correlation (other.map (modulated 1)) received := by
  induction h with
  | nil =>
      intro other hlength
      obtain rfl := List.eq_nil_of_length_eq_zero hlength
      simp [differingComponents, invertedComponents, erasedComponents, componentCount, correlation]
  | @cons bits r sent received hr hrest ih =>
      intro other hlength
      cases other with
      | nil => cases hlength
      | cons bits' other =>
          have hmargin := ih (Nat.succ.inj hlength)
          have h0 := component_margin hamplitude bits.1 bits'.1 hr.sin0
          have h1 := component_margin hamplitude bits.2.1 bits'.2.1 hr.sin1
          have h2 := component_margin hamplitude bits.2.2 bits'.2.2 hr.sin2
          simp only [differingComponents, invertedComponents, erasedComponents, List.map_cons,
            componentCount, correlation, modulated] at hmargin ⊢
          push_cast
          linarith

/-! ## The encoder and its tail -/

/-- The bits of `channel_decoder_encode`, before they become soft values. -/
def encodedSeries (code : ChannelCode) : Nat → List Bool → List (Bool × Bool × Bool)
  | _, [] => []
  | state, bit :: bits =>
      encodedBits code (encoderInput code state bit) ::
        encodedSeries code (encoderNext code state bit) bits

theorem channelDecoderEncodeFrom_eq (code : ChannelCode) (amplitude : Int8) (bits : List Bool) :
    ∀ state, channelDecoderEncodeFrom code amplitude state bits
      = (encodedSeries code state bits).map (modulated amplitude) := by
  induction bits with
  | nil => exact fun _ => rfl
  | cons bit bits ih =>
      intro state
      rw [channelDecoderEncodeFrom, encodedSeries, List.map_cons, ih]
      congr 1
      simp only [encodeTimestamp, modulated, modulate, encodedBits, bne_iff_ne]

theorem encodedSeries_length (code : ChannelCode) (bits : List Bool) :
    ∀ state, (encodedSeries code state bits).length = bits.length := by
  induction bits with
  | nil => exact fun _ => rfl
  | cons bit bits ih => exact fun state => congrArg Nat.succ (ih _)

/-- `transmitted`: a payload and the zero tail. -/
def transmitted (code : ChannelCode) (payload : List Bool) : List Bool :=
  payload ++ List.replicate code.tailBits false

theorem foldl_encoderNext_zeros (code : ChannelCode) (k : Nat) :
    ∀ {state : Nat}, state < 2 ^ k →
      (List.replicate k false).foldl (encoderNext code) state = 0 := by
  induction k with
  | zero =>
      intro state h
      exact Nat.lt_one_iff.mp h
  | succ k ih =>
      intro state h
      have hnext : encoderNext code state false = state / 2 := rfl
      rw [List.replicate_succ, List.foldl_cons, hnext]
      exact ih (by omega)

/-- The tail empties the register. -/
theorem encoderState_transmitted (code : ChannelCode) (payload : List Bool) :
    encoderState code (transmitted code payload) = 0 := by
  have hlt : ∀ (bits : List Bool) {state : Nat}, state < code.metricCount →
      bits.foldl (encoderNext code) state < code.metricCount := by
    intro bits
    induction bits with
    | nil => exact fun h => h
    | cons bit bits ih => exact fun h => ih (encoderNext_lt code bit h)
  have hpos : 0 < code.metricCount := by
    rw [code.metricCount_eq]
    exact Nat.two_pow_pos _
  rw [encoderState, transmitted, List.foldl_append]
  exact foldl_encoderNext_zeros code _ (code.metricCount_eq ▸ hlt payload hpos)

/-- A one takes as many timestamps to leave the register as there are bits above it. -/
theorem foldl_encoderNext_pos (code : ChannelCode) (bits : List Bool) :
    ∀ {state : Nat}, 2 ^ bits.length ≤ state → 0 < bits.foldl (encoderNext code) state := by
  induction bits with
  | nil => exact fun h => h
  | cons bit bits ih =>
      intro state h
      refine ih (Nat.le_trans ?_ (Nat.le_add_right (state / 2) _))
      rw [List.length_cons, Nat.pow_succ] at h
      omega

/-- So a register that is empty at the end has had nothing but zeros put in. -/
theorem eq_zeros_of_foldl (code : ChannelCode) (bits : List Bool) :
    ∀ {state : Nat}, bits.length ≤ code.tailBits → bits.foldl (encoderNext code) state = 0 →
      bits = List.replicate bits.length false := by
  induction bits with
  | nil => exact fun _ _ => rfl
  | cons bit bits ih =>
      intro state hlength hzero
      rw [List.length_cons] at hlength
      cases bit with
      | true =>
          -- the one would still be in the register
          have hhigh : 2 ^ bits.length ≤ encoderNext code state true := by
            refine Nat.le_trans ?_ (Nat.le_add_left _ (state / 2))
            obtain ⟨k, hk⟩ := Nat.exists_eq_add_of_le hlength
            rw [if_pos rfl, code.metricCount_eq, hk, Nat.add_right_comm, Nat.pow_succ,
              Nat.mul_div_cancel _ Nat.two_pos]
            exact Nat.pow_le_pow_right Nat.two_pos (Nat.le_add_right _ _)
          have hpos := foldl_encoderNext_pos code bits hhigh
          rw [List.foldl_cons] at hzero
          omega
      | false =>
          rw [List.length_cons, List.replicate_succ, ← ih (Nat.le_of_succ_le hlength) hzero]

/-- A path from state 0 to state 0 is a payload and its tail. -/
theorem eq_transmitted_of_encoderState (code : ChannelCode) {bits : List Bool} {payloadBits : Nat}
    (hlength : bits.length = payloadBits + code.tailBits) (hzero : encoderState code bits = 0) :
    ∃ payload : List Bool, payload.length = payloadBits ∧ bits = transmitted code payload := by
  have htail : (bits.drop payloadBits).length = code.tailBits := by
    rw [List.length_drop, hlength, Nat.add_sub_cancel_left]
  have hsplit := List.take_append_drop payloadBits bits
  rw [encoderState, ← hsplit, List.foldl_append] at hzero
  have hzeros := eq_zeros_of_foldl code _ (Nat.le_of_eq htail) hzero
  rw [htail] at hzeros
  refine ⟨bits.take payloadBits, ?_, ?_⟩
  · rw [List.length_take, hlength, Nat.min_eq_left (Nat.le_add_right _ _)]
  · rw [transmitted, ← hzeros, hsplit]

/-! ## Correction -/

/-- The least number of components in which the encodings of two payloads of a length differ;
infinite where there are no two. -/
noncomputable def minimumDistance (code : ChannelCode) (payloadBits : Nat) : ℕ∞ :=
  ⨅ (p : List Bool) (q : List Bool)
    (_ : p.length = payloadBits ∧ q.length = payloadBits ∧ p ≠ q),
    (differingComponents (channelDecoderEncode code 1 (transmitted code p))
      (channelDecoderEncode code 1 (transmitted code q)) : ℕ∞)

theorem minimumDistance_le (code : ChannelCode) {p q : List Bool} (hlength : q.length = p.length)
    (hne : p ≠ q) :
    minimumDistance code p.length ≤
      differingComponents (channelDecoderEncode code 1 (transmitted code p))
        (channelDecoderEncode code 1 (transmitted code q)) :=
  iInf_le_of_le p (iInf_le_of_le q (iInf_le _ ⟨rfl, hlength, hne⟩))

/-- What the errors of a series count for: an inverted component twice, an erased one once. -/
def errorWeight (sent received : List DecoderInput) : Nat :=
  2 * invertedComponents sent received + erasedComponents sent received

/-- The path with the greatest correlation is the one that was sent. -/
theorem sent_of_best (code : ChannelCode) {amplitude : Int8} (hamplitude : 1 ≤ amplitude.toInt)
    {payload decoded : List Bool} {received : List DecoderInput}
    (hreceived : List.Forall₂ MutatedInput
      (channelDecoderEncode code amplitude (transmitted code payload)) received)
    (herrors : (errorWeight (channelDecoderEncode code amplitude (transmitted code payload))
      received : ℕ∞) < minimumDistance code payload.length)
    (hlength : decoded.length = (transmitted code payload).length)
    (hzero : encoderState code decoded = 0)
    (hbest : correlation (channelDecoderEncode code 1 (transmitted code payload)) received
      ≤ correlation (channelDecoderEncode code 1 decoded) received) :
    decoded = transmitted code payload := by
  have htotal : (transmitted code payload).length = payload.length + code.tailBits := by
    rw [transmitted, List.length_append, List.length_replicate]
  obtain ⟨other, hother, rfl⟩ :=
    eq_transmitted_of_encoderState code (hlength.trans htotal) hzero
  by_contra hne
  have hpayload : payload ≠ other := fun h => hne (h ▸ rfl)
  have hdistance := Nat.cast_lt.mp (herrors.trans_le (minimumDistance_le code hother hpayload))
  simp only [errorWeight, channelDecoderEncode, channelDecoderEncodeFrom_eq]
    at hreceived hbest hdistance
  have hmargin := correlation_margin hamplitude (List.forall₂_map_left_iff.mp hreceived)
    (show (encodedSeries code 0 (transmitted code other)).length = _ by
      rw [encodedSeries_length, encodedSeries_length, hlength])
  have hpositive : (1 : Int) ≤
      differingComponents ((encodedSeries code 0 (transmitted code payload)).map (modulated 1))
          ((encodedSeries code 0 (transmitted code other)).map (modulated 1))
        - 2 * invertedComponents ((encodedSeries code 0 (transmitted code payload)).map
            (modulated amplitude)) received
        - erasedComponents ((encodedSeries code 0 (transmitted code payload)).map
            (modulated amplitude)) received := by
    omega
  nlinarith [hmargin, hbest, mul_le_mul_of_nonneg_left hpositive (show 0 ≤ 2 * amplitude.toInt by
    omega)]

theorem mutatedInput_refl (inputs : List DecoderInput) :
    List.Forall₂ MutatedInput inputs inputs :=
  List.forall₂_same.mpr fun _ _ => ⟨.inl rfl, .inl rfl, .inl rfl⟩

/-- **Errors and erasures are corrected up to the minimum distance.** For both codes, every payload
that fits with its tail, every amplitude and every list of mutations: if twice the components that
come out inverted and those that come out erased are fewer than the minimum distance, then encoding,
mutating, deciding, packing, unpacking and tracing back give the payload and its tail. -/
theorem runDecodingVector_corrects (code : ChannelCode) (payload : List Bool)
    (hfits : payload.length + code.tailBits ≤ maxDecodeTimestamps) {amplitude : Int8}
    (hamplitude : 1 ≤ amplitude.toInt) (mutations : List InputMutation)
    (herrors : (errorWeight (channelDecoderEncode code amplitude (transmitted code payload))
      (applyMutations mutations (channelDecoderEncode code amplitude (transmitted code payload)))
      : ℕ∞) < minimumDistance code payload.length) :
    runDecodingVector code (applyMutations mutations
        (channelDecoderEncode code amplitude (transmitted code payload)))
      = .ok (0, transmitted code payload) := by
  have hreceived := mutatedInput_applyMutations mutations
    (mutatedInput_refl (channelDecoderEncode code amplitude (transmitted code payload)))
  generalize applyMutations mutations
    (channelDecoderEncode code amplitude (transmitted code payload)) = received at *
  have hcount : received.length = (transmitted code payload).length := by
    rw [← hreceived.length_eq, channelDecoderEncode, channelDecoderEncodeFrom_eq, List.length_map,
      encodedSeries_length]
  have htotal : (transmitted code payload).length = payload.length + code.tailBits := by
    rw [transmitted, List.length_append, List.length_replicate]
  obtain ⟨last, decisions, hok, hwords, hdecisions, decoded, htraceback, hlength, hzero, hbest⟩ :=
    channelDecoderModelSeries_best code (show received.length ≤ maxDecodeTimestamps by omega)
  have hdecoded := sent_of_best code hamplitude hreceived herrors (hlength.trans hcount) hzero
    (hbest _ hcount.symm (encoderState_transmitted code payload))
  rw [runDecodingVector, hok, Checked.ok_bind, ← hdecisions]
  show Except.ok (channelDecoderTraceback code (unpackSeries code decisions.length
    (decisions.flatMap (channelDecoderModelTrace code)))) = _
  rw [unpackSeries_modelTrace code decisions hwords, htraceback, hdecoded]

/-- One payload bit, and two of its first three components inverted. -/
theorem runDecodingVector_corrects_example :
    runDecodingVector .k5 (applyMutations [⟨0, 3, 0⟩]
        (channelDecoderEncode .k5 48 (transmitted .k5 [true])))
      = .ok (0, transmitted .k5 [true]) := by
  have hdistance : ((5 : ℕ) : ℕ∞) ≤ minimumDistance .k5 1 := by
    refine le_iInf fun p => le_iInf fun q => le_iInf fun h => ?_
    obtain ⟨hp, hq, hne⟩ := h
    obtain ⟨a, rfl⟩ := List.length_eq_one_iff.mp hp
    obtain ⟨b, rfl⟩ := List.length_eq_one_iff.mp hq
    cases a <;> cases b
    · exact absurd rfl hne
    · exact Nat.cast_le.mpr (by decide +kernel)
    · exact Nat.cast_le.mpr (by decide +kernel)
    · exact absurd rfl hne
  refine runDecodingVector_corrects .k5 [true] (by decide) (by decide) [⟨0, 3, 0⟩] ?_
  exact lt_of_lt_of_le (Nat.cast_lt.mpr (by decide +kernel)) hdistance

end Pmb887x.Dsp
