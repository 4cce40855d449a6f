import Pmb887x.Audio.SharedRing

set_option autoImplicit false

/-! # A tone on the shared ring

A playback that returns `true` has published the frames of the infinite waveform, cut into blocks, and then
silence. The blocks are built up along the loop: each iteration accounts for the block that is in the buffer
and fills in the next one. -/

namespace Pmb887x.Audio

open Library Driver

/-- The blocks of the frames up to `k`, as they are filled. -/
inductive Blocks (ring : PcmSharedRing) (wave : Nat → Int) : Nat → List (Nat × List UInt16) → Prop where
  | nil : Blocks ring wave 0 []
  | snoc {k : Nat} {blocks : List (Nat × List UInt16)} (h : Blocks ring wave k blocks) (count : Nat)
      (hcount : count * ring.channelCount ≤ ring.bufferWordCount) :
      Blocks ring wave (k + count) (blocks ++ [(count, block ring wave k count)])

section

variable {ring : PcmSharedRing} {pcm : DspAudioPcm} {wave : Nat → Int} {total : Nat}

/-! ## What the blocks hold -/

theorem sampleValue_sampleWord {x : Int} (h : -32767 ≤ x) (h' : x ≤ 32767) :
    sampleValue (sampleWord x) = x := by
  rw [sampleValue, sampleWord, Int16.toInt16_toUInt16, Int16.toInt_ofInt_of_le (by omega) (by omega)]

/-- The part of a block that is cut out, as the DSP reads it. -/
theorem map_sampleValue_take (hwave : ∀ j, -32767 ≤ wave j ∧ wave j ≤ 32767) (k count : Nat) :
    ((block ring wave k count).take (count * ring.channelCount)).map sampleValue
      = (List.range' k count).flatMap fun k =>
          List.replicate ring.channelCount (wave (k * ring.sourceFrameStep)) := by
  rw [block, List.take_left' (length_frameWords _ _ _ _ _), frameWords, List.map_flatMap]
  congr 1
  funext k
  obtain ⟨hlow, hhigh⟩ := hwave (k * ring.sourceFrameStep)
  rw [List.map_replicate, sampleValue_sampleWord hlow hhigh]

theorem Blocks.holds (hwave : ∀ j, -32767 ≤ wave j ∧ wave j ≤ 32767) {blocks : List (Nat × List UInt16)}
    (h : Blocks ring wave total blocks) : Holds ring wave total blocks := by
  induction h with
  | nil => exact ⟨rfl, rfl, (fun _ hmem => nomatch hmem), (fun _ hmem => nomatch hmem)⟩
  | @snoc k blocks _ count hcount ih =>
      constructor
      case counts => rw [List.map_append, List.sum_append, ih.counts]; rfl
      case frames =>
        rw [List.flatMap_append, ih.frames, List.flatMap_singleton, map_sampleValue_take hwave,
          ← List.flatMap_append, List.range_eq_range', List.range_eq_range', ← List.range'_append_1,
          Nat.zero_add]
      case length =>
        intro b hmem
        rcases List.mem_append.mp hmem with hmem | hmem
        · exact ih.length b hmem
        · rw [List.mem_singleton.mp hmem]
          exact length_block hcount wave k
      case rest =>
        intro b hmem
        rcases List.mem_append.mp hmem with hmem | hmem
        · exact ih.rest b hmem
        · rw [List.mem_singleton.mp hmem, block, List.drop_left' (length_frameWords _ _ _ _ _)]
          exact fun w hw => List.eq_of_mem_replicate hw

/-! ## The loops -/

theorem blockFrameCount_le (blockFrames remaining : Nat) : blockFrameCount blockFrames remaining ≤ remaining := by
  rw [blockFrameCount]
  split_ifs <;> omega

theorem blockFrameCount_le_block (blockFrames remaining : Nat) :
    blockFrameCount blockFrames remaining ≤ blockFrames := by
  rw [blockFrameCount]
  split_ifs <;> omega

section

variable (h : Repeats pcm wave) (hfits : total * ring.sourceFrameStep < 2 ^ 32)

include h hfits

/-- The next block, behind the ones published before. -/
theorem Repeats.fillAndPublish_next {k count : Nat} {blocks : List (Nat × List UInt16)}
    (hblocks : Blocks ring wave k blocks) {s : RingState} (hsent : Sent ring (blocks.map Prod.snd) false s)
    (htotal : k + count ≤ total) (hcount : count * ring.channelCount ≤ ring.bufferWordCount) :
    ∃ s' blocks', fillAndPublish ring pcm k count s = (.done (), s') ∧ Blocks ring wave (k + count) blocks' ∧
      Sent ring (blocks'.map Prod.snd) true s' := by
  refine ⟨_, _, h.fillAndPublish_run hfits htotal hcount hsent.length, hblocks.snoc count hcount, ?_⟩
  rw [List.map_append]
  exact hsent.refilled (length_block hcount wave k)

theorem Repeats.playFrames_blocks {blockFrames : Nat}
    (hblock : blockFrames * ring.channelCount ≤ ring.bufferWordCount) (fuel : Nat) :
    ∀ (submitted : Nat) (blocks : List (Nat × List UInt16)) (pending : Bool) (s : RingState),
      submitted ≤ total →
      Blocks ring wave (submitted + blockFrameCount blockFrames (total - submitted)) blocks →
      Sent ring (blocks.map Prod.snd) pending s →
      Meets (fun ok s' => ok = true → ∃ blocks' pending', Blocks ring wave total blocks' ∧
          Sent ring (blocks'.map Prod.snd) pending' s') (fun _ => False)
        (playFrames ring pcm total blockFrames fuel submitted s) := by
  induction fuel with
  | zero => intro submitted blocks pending s _ _ _; trivial
  | succ fuel ih =>
      intro submitted blocks pending s hle hblocks hsent
      have hremaining := blockFrameCount_le blockFrames (total - submitted)
      rw [playFrames]
      by_cases hlt : submitted < total
      · rw [if_pos hlt]
        refine Meets.bind (hsent.pollConsumed s.polls) fun ok s₁ hok => ?_
        cases ok with
        | false => exact fun htrue => nomatch htrue
        | true =>
            have hsent₁ := hok rfl
            simp only [if_true]
            split_ifs with hnext
            · have hcount := blockFrameCount_le_block blockFrames
                (total - (submitted + blockFrameCount blockFrames (total - submitted)))
              have hrest := blockFrameCount_le blockFrames
                (total - (submitted + blockFrameCount blockFrames (total - submitted)))
              obtain ⟨s₂, blocks₂, hfill, hblocks₂, hsent₂⟩ := h.fillAndPublish_next hfits hblocks hsent₁
                (by omega) ((Nat.mul_le_mul_right ring.channelCount hcount).trans hblock)
              rw [bind_done hfill]
              exact ih _ blocks₂ true s₂ hnext.le hblocks₂ hsent₂
            · -- the last block is in the buffer: the loop ends at its next test
              refine ih _ blocks false s₁ (by omega) ?_ hsent₁
              have hall : submitted + blockFrameCount blockFrames (total - submitted) = total := by omega
              rw [hall] at hblocks ⊢
              rw [Nat.sub_self]
              exact (Nat.le_zero.mp (blockFrameCount_le blockFrames 0)).symm ▸ hblocks
      · rw [if_neg hlt]
        intro _
        have hall : submitted + blockFrameCount blockFrames (total - submitted) = total := by omega
        exact ⟨blocks, pending, hall ▸ hblocks, hsent⟩

theorem Repeats.playSilence_sent (count : Nat) :
    ∀ (buffers : List (List UInt16)) (pending : Bool) (s : RingState), Sent ring buffers pending s →
      Meets (fun ok s' => ok = true → ∃ silence, Sent ring (buffers ++ silence) false s' ∧
          ∀ buffer ∈ silence, buffer = List.replicate ring.bufferWordCount 0) (fun _ => False)
        (playSilence ring pcm count s) := by
  induction count with
  | zero =>
      intro buffers pending s hsent
      refine (hsent.pollConsumed s.polls).mono fun ok s' hok htrue => ⟨[], ?_, fun _ hmem => nomatch hmem⟩
      rw [List.append_nil]
      exact hok htrue
  | succ count ih =>
      intro buffers pending s hsent
      rw [playSilence]
      refine Meets.bind (hsent.pollConsumed s.polls) fun ok s₁ hok => ?_
      cases ok with
      | false => exact fun htrue => nomatch htrue
      | true =>
          have hsent₁ := hok rfl
          have hzero : (0 : Nat) * ring.channelCount ≤ ring.bufferWordCount := by
            rw [Nat.zero_mul]
            exact Nat.zero_le _
          have hfill : fillAndPublish ring pcm 0 0 s₁ = (.done (), s₁.refilled (block ring wave 0 0)) :=
            h.fillAndPublish_run hfits (Nat.zero_le _) hzero hsent₁.length
          simp only [if_true]
          rw [bind_done hfill]
          refine (ih _ true _ (hsent₁.refilled (length_block hzero wave 0))).mono fun ok s' hrest htrue => ?_
          obtain ⟨silence, hsent', hsilent⟩ := hrest htrue
          refine ⟨block ring wave 0 0 :: silence, ?_, ?_⟩
          · rwa [List.append_assoc, List.singleton_append] at hsent'
          · intro buffer hmem
            rcases List.mem_cons.mp hmem with rfl | hmem
            · rw [block, Nat.zero_mul]
              rfl
            · exact hsilent buffer hmem

end

/-! ## The playback -/

theorem checked_ok {α : Type} (a : α) (s : RingState) : checked (.ok a) s = (.done a, s) := rfl

/-- A playback of one period that returns `true` has played the frames of the waveform. -/
theorem Repeats.pcmSharedRingPlay_played (h : Repeats pcm wave)
    (hwave : ∀ j, -32767 ≤ wave j ∧ wave j ≤ 32767) (hfits : total * ring.sourceFrameStep < 2 ^ 32)
    (hchannels : 0 < ring.channelCount) (hchannels' : ring.channelCount ≤ ring.bufferWordCount)
    {s : RingState} (hs : s.buffer.length = ring.bufferWordCount) (htrace : s.trace = []) :
    Meets (fun ok s' => ok = true → Played ring wave total s'.trace) (fun _ => False)
      (pcmSharedRingPlay ring pcm total s) := by
  have hblock : ring.bufferWordCount / ring.channelCount * ring.channelCount ≤ ring.bufferWordCount :=
    Nat.div_mul_le_self _ _
  have hpos : 0 < ring.bufferWordCount / ring.channelCount := Nat.div_pos hchannels' hchannels
  have hsent : Sent ring [] false s := by
    refine ⟨hs, ?_, ?_, ?_⟩
    · rw [htrace]
      rfl
    · rw [htrace]
      rfl
    · rw [htrace]
      exact fun _ _ hmem => nomatch hmem
  rw [pcmSharedRingPlay, if_neg (by omega), if_neg (by omega)]
  -- the first block is filled before the loop
  have hcount := blockFrameCount_le_block (ring.bufferWordCount / ring.channelCount) total
  have htotal := blockFrameCount_le (ring.bufferWordCount / ring.channelCount) total
  obtain ⟨s₁, blocks, hfill, hblocks, hsent₁⟩ := h.fillAndPublish_next hfits Blocks.nil hsent
    (by omega) ((Nat.mul_le_mul_right ring.channelCount hcount).trans hblock)
  rw [bind_done hfill, get_bind]
  split_ifs with hstart
  · refine Meets.bind (h.playFrames_blocks hfits hblock _ 0 blocks true s₁ (Nat.zero_le total) hblocks hsent₁)
      fun ok s₂ hok => ?_
    cases ok with
    | false => exact fun htrue => nomatch htrue
    | true =>
        obtain ⟨blocks₂, pending, hblocks₂, hsent₂⟩ := hok rfl
        simp only [if_true]
        rw [silenceBlocks, if_neg (Nat.pos_iff_ne_zero.mp hpos), bind_done (checked_ok _ _)]
        refine (h.playSilence_sent hfits _ _ _ _ hsent₂).mono fun ok s₃ hrest htrue => ?_
        obtain ⟨silence, hsent₃, hsilent⟩ := hrest htrue
        exact ⟨⟨blocks₂, silence, hsent₃.published, hblocks₂.holds hwave, hsilent⟩, hsent₃.order, hsent₃.inside⟩
  · exact fun htrue => nomatch htrue

/-- No samples: the first index is a division by zero. -/
theorem pcmSharedRingPlay_empty (hcount : pcm.sampleCount = 0) (s s' : RingState) :
    pcmSharedRingPlay ring pcm total s ≠ (.done true, s') := by
  intro hplay
  rw [pcmSharedRingPlay] at hplay
  split_ifs at hplay with hwords hchannels
  · cases hplay
  · cases hplay
  · have hdivision : ∀ first, remainder first pcm.sampleCount = .error .wrap := fun first => if_pos hcount
    have hfill : ∀ count, fillAndPublish ring pcm 0 count s = (.fault .wrap, s) := by
      intro count
      refine bind_fault (bind_fault ?_)
      rw [hdivision]
      rfl
    rw [bind_fault (hfill _)] at hplay
    cases hplay

/-- What was published stays where the waveform does. -/
theorem Played.within {trace : List RingEvent} (h : Played ring wave total trace) {low high : Int}
    (hwave : ∀ j, low ≤ wave j ∧ wave j ≤ high) (hlow : low ≤ 0) (hhigh : 0 ≤ high) :
    ∀ buffer ∈ published trace, ∀ w ∈ buffer, low ≤ sampleValue w ∧ sampleValue w ≤ high := by
  have hzero : low ≤ sampleValue 0 ∧ sampleValue 0 ≤ high := ⟨hlow, hhigh⟩
  obtain ⟨blocks, silence, hpublished, hholds, hsilent⟩ := h.blocks
  intro buffer hbuffer w hw
  rw [hpublished] at hbuffer
  rcases List.mem_append.mp hbuffer with hbuffer | hbuffer
  · obtain ⟨b, hb, rfl⟩ := List.mem_map.mp hbuffer
    rw [← List.take_append_drop (b.1 * ring.channelCount) b.2] at hw
    rcases List.mem_append.mp hw with hw | hw
    · have hmem : sampleValue w ∈ blocks.flatMap fun b =>
          (b.2.take (b.1 * ring.channelCount)).map sampleValue :=
        List.mem_flatMap.mpr ⟨b, hb, List.mem_map_of_mem hw⟩
      rw [hholds.frames] at hmem
      obtain ⟨k, -, hk⟩ := List.mem_flatMap.mp hmem
      rw [List.eq_of_mem_replicate hk]
      exact hwave _
    · rw [hholds.rest b hb w hw]
      exact hzero
  · rw [hsilent buffer hbuffer] at hw
    rw [List.eq_of_mem_replicate hw]
    exact hzero

end

/-! ## Tones -/

variable {rate tone : Nat} {amplitude : Int} {waveform : PcmWaveform}

/-- One period as `pcm_waveform_generate` leaves it. -/
def periodPcm (rate tone : Nat) (samples : List Int16) : DspAudioPcm where
  samples := samples
  sampleCount := pcmPeriodFrameCount rate tone
  sampleRateHz := rate

theorem repeats_periodPcm (hrate : rate ≠ 0) (hrate' : 4 * rate < 2 ^ 32) (htone : tone ≠ 0) :
    Repeats (periodPcm rate tone ((List.range (pcmPeriodFrameCount rate tone)).map fun i =>
      Int16.ofInt (wave rate tone amplitude waveform i))) (wave rate tone amplitude waveform) where
  count_pos := pcmPeriodFrameCount_pos hrate htone
  count_le := (pcmPeriodFrameCount_le rate tone).trans (by omega)
  sample := by
    intro i hi
    have hi' : i < pcmPeriodFrameCount rate tone := hi
    rw [periodPcm, List.getElem?_map, List.getElem?_range hi']
    rfl
  periodic := wave_mod_period hrate htone

/-- **A tone is played as it is.** One period of samples comes without a fault and within the amplitude.
When `pcm_shared_ring_play` returns `true` for it, the blocks are the frames of the infinite waveform, each
once, in order and on every channel, with zeros behind them and silence at the end; none was written before
the one in front of it was consumed. -/
theorem pcmSharedRingPlay_tone (waveform : PcmWaveform) (hrate : 4 * rate < 2 ^ 32) (htone : tone ≠ 0)
    (htone' : tone < 2 ^ 32) (hamp : 0 ≤ amplitude) (hamp' : amplitude ≤ 32767) :
    ∃ samples, pcmWaveformGenerate (pcmPeriodFrameCount rate tone) rate tone amplitude waveform = .ok samples ∧
      (∀ x ∈ samples, -amplitude ≤ x.toInt ∧ x.toInt ≤ amplitude) ∧
      ∀ (ring : PcmSharedRing) (total : Nat) (s s' : RingState),
        1 ≤ ring.channelCount → ring.channelCount ≤ ring.bufferWordCount →
        total * ring.sourceFrameStep < 2 ^ 32 → s.buffer.length = ring.bufferWordCount → s.trace = [] →
        pcmSharedRingPlay ring (periodPcm rate tone samples) total s = (.done true, s') →
        Played ring (wave rate tone amplitude waveform) total s'.trace ∧
          ∀ buffer ∈ published s'.trace, ∀ w ∈ buffer,
            -amplitude ≤ sampleValue w ∧ sampleValue w ≤ amplitude := by
  refine ⟨_, pcmWaveformGenerate_ok hrate htone' hamp hamp' waveform, ?_, ?_⟩
  · intro x hx
    obtain ⟨i, hi, rfl⟩ := List.mem_map.mp hx
    have hrate' : rate ≠ 0 := by
      have hle := pcmPeriodFrameCount_le rate tone
      have hlt := List.mem_range.mp hi
      omega
    have hbounds : -amplitude ≤ wave rate tone amplitude waveform i ∧
        wave rate tone amplitude waveform i ≤ amplitude := wave_bounds hrate' hamp i
    rwa [Int16.toInt_ofInt_of_le (by omega) (by omega)]
  · intro ring total s s' hchannels hchannels' hfits hs htrace hplay
    by_cases hrate' : rate = 0
    · subst hrate'
      exact absurd hplay (pcmSharedRingPlay_empty (pcmPeriodFrameCount_zero tone) s s')
    · have hbounds : ∀ j, -amplitude ≤ wave rate tone amplitude waveform j ∧
          wave rate tone amplitude waveform j ≤ amplitude := wave_bounds hrate' hamp
      have hwave : ∀ j, -32767 ≤ wave rate tone amplitude waveform j ∧
          wave rate tone amplitude waveform j ≤ 32767 := by
        intro j
        obtain ⟨hlow, hhigh⟩ := hbounds j
        constructor <;> omega
      have hmeets := (repeats_periodPcm hrate' hrate htone).pcmSharedRingPlay_played hwave hfits hchannels
        hchannels' hs htrace
      rw [hplay] at hmeets
      have hplayed := hmeets rfl
      exact ⟨hplayed, hplayed.within hbounds (by omega) hamp⟩

/-- Two channels in a buffer of five words, which plays every third frame of the source. -/
def sampleRing : PcmSharedRing where
  bufferWordCount := 5
  channelCount := 2
  sourceFrameStep := 3
  responseFlag := 1
  requestTimeoutMs := 100
  start := fun _ => true

/-- The DSP is late once. -/
def sampleState : RingState where
  buffer := [7, 7, 7, 7, 7]
  polls := [⟨1, 0⟩, ⟨0, 5⟩, ⟨0, 0⟩, ⟨0, 0⟩, ⟨0, 0⟩]
  trace := []

/-- Three frames of a square wave, in blocks of two and one, and a block of silence. -/
theorem pcmSharedRingPlay_tone_square :
    ∃ s', pcmSharedRingPlay sampleRing (periodPcm 8 2 [100, 100, -100, -100]) 3 sampleState
        = (.done true, s') ∧
      Played sampleRing (wave 8 2 100 .square) 3 s'.trace := by
  have hperiod : pcmPeriodFrameCount 8 2 = 4 := by
    rw [pcmPeriodFrameCount_eq (by decide) (by decide)]
    decide
  have hgenerate : pcmWaveformGenerate 4 8 2 100 .square = .ok [100, 100, -100, -100] := by decide
  obtain ⟨samples, hsamples, -, hplayed⟩ := pcmSharedRingPlay_tone .square
    (show 4 * 8 < 2 ^ 32 by decide) (show 2 ≠ 0 by decide) (by decide) (show (0 : Int) ≤ 100 by decide)
    (by decide)
  rw [hperiod, hgenerate] at hsamples
  cases hsamples
  have hplay : pcmSharedRingPlay sampleRing ⟨[100, 100, -100, -100], 4, 8⟩ 3 sampleState
      = (.done true, (pcmSharedRingPlay sampleRing ⟨[100, 100, -100, -100], 4, 8⟩ 3 sampleState).2) := by
    rfl
  rw [periodPcm, hperiod] at *
  exact ⟨_, hplay, (hplayed sampleRing 3 sampleState _ (by decide) (by decide) (by decide) rfl rfl hplay).1⟩

end Pmb887x.Audio
