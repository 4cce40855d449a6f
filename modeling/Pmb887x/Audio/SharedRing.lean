import Pmb887x.Library.Checked
import Pmb887x.Library.Driver
import Pmb887x.Audio.Waveform

set_option autoImplicit false

/-! # The ring shared with the DSP (`pcm.c`)

The CPU fills one buffer at a time, sets a flag and waits until the DSP has cleared it. A wait polls the flag
and the stopwatch: what the polls to come see is part of the state, as is the record of what the CPU did. -/

namespace Pmb887x.Audio

open Library Driver

/-! ## Ring and state -/

structure DspAudioPcm where
  samples : List Int16
  sampleCount : Nat
  sampleRateHz : Nat

/-- One look at `DSP_COM_STATUS`, and the milliseconds since the wait began. -/
structure Poll where
  status : UInt32
  elapsedMs : Nat

inductive RingEvent where
  /-- `buffer[index] = value` -/
  | write (index : Nat) (value : UInt16)
  /-- `DSP_COM_SET = response_flag`, and the buffer at that moment -/
  | publish (buffer : List UInt16)
  /-- the flag was seen clear -/
  | consumed
  deriving DecidableEq

structure RingState where
  buffer : List UInt16
  polls : List Poll
  trace : List RingEvent

abbrev RingDriver := Driver RingState Fault

/-- `start` is the answer of the callback, which leaves the buffer alone. -/
structure PcmSharedRing where
  bufferWordCount : Nat
  channelCount : Nat
  sourceFrameStep : Nat
  responseFlag : UInt16
  requestTimeoutMs : Nat
  start : RingState → Bool

namespace RingState

/-- `buffer[index] = value`: behind the buffer it changes other memory. -/
def writeWord (index : Nat) (value : UInt16) (s : RingState) : RingState :=
  { s with buffer := s.buffer.set index value, trace := s.trace ++ [.write index value] }

def publish (s : RingState) : RingState := { s with trace := s.trace ++ [.publish s.buffer] }

/-- The words written one after the other. -/
def writeWords : Nat → List UInt16 → RingState → RingState
  | _, [], s => s
  | index, w :: words, s => writeWords (index + 1) words (s.writeWord index w)

end RingState

/-- A checked value as a step of the driver. -/
def checked {α : Type} : Checked α → RingDriver α
  | .ok a => pure a
  | .error e => fault e

/-! ## `pcm_buffer_fill` -/

def readSample (pcm : DspAudioPcm) (index : Nat) : Checked Int16 :=
  match pcm.samples[index]? with
  | some sample => .ok sample
  | none => .error (.read index)

/-- `for (channel ...) buffer[word_index++] = sample`: the channels left and the next index -/
def writeChannels (sample : UInt16) : Nat → Nat → RingDriver Nat
  | 0, wordIndex => pure wordIndex
  | channels + 1, wordIndex => do
      modify (RingState.writeWord wordIndex sample)
      writeChannels sample channels (wordIndex + 1)

/-- The frames left, the index of the sample and the next index of the buffer. -/
def fillFrames (pcm : DspAudioPcm) (sourceFrameStep channelCount : Nat) : Nat → Nat → Nat → RingDriver Nat
  | 0, _, wordIndex => pure wordIndex
  | frames + 1, sourceIndex, wordIndex => do
      let sample ← checked (readSample pcm sourceIndex)
      let next ← checked (remainder ((sourceIndex + sourceFrameStep) % 2 ^ 32) pcm.sampleCount)
      let wordIndex ← writeChannels sample.toUInt16 channelCount wordIndex
      fillFrames pcm sourceFrameStep channelCount frames next wordIndex

def clearWords : Nat → Nat → RingDriver Unit
  | 0, _ => pure ()
  | words + 1, wordIndex => do
      modify (RingState.writeWord wordIndex 0)
      clearWords words (wordIndex + 1)

def pcmBufferFill (bufferWordCount : Nat) (pcm : DspAudioPcm)
    (firstFrame frameCount sourceFrameStep channelCount : Nat) : RingDriver Unit := do
  let sourceIndex ← checked (remainder (firstFrame * sourceFrameStep % 2 ^ 32) pcm.sampleCount)
  let wordIndex ← fillFrames pcm sourceFrameStep channelCount frameCount sourceIndex 0
  clearWords (bufferWordCount - wordIndex) wordIndex

/-! ## `pcm_shared_ring_play` -/

/-- The loop of `pcm_shared_ring_wait_consumed` over the polls to come. -/
def pollConsumed (ring : PcmSharedRing) : List Poll → RingDriver Bool
  | [] => fun s => (.waiting, { s with polls := [] })
  | poll :: polls => fun s =>
      if poll.status &&& ring.responseFlag.toUInt32 = 0 then
        (.done true, { s with polls := polls, trace := s.trace ++ [.consumed] })
      else if ring.requestTimeoutMs ≤ poll.elapsedMs then (.done false, { s with polls := polls })
      else pollConsumed ring polls s

def pcmSharedRingWaitConsumed (ring : PcmSharedRing) : RingDriver Bool :=
  fun s => pollConsumed ring s.polls s

section

variable (ring : PcmSharedRing) (pcm : DspAudioPcm) (totalFrames : Nat)

/-- Fill the buffer with the frames from `firstFrame` on and set the flag. -/
def fillAndPublish (firstFrame frameCount : Nat) : RingDriver Unit := do
  pcmBufferFill ring.bufferWordCount pcm firstFrame frameCount ring.sourceFrameStep ring.channelCount
  modify RingState.publish

/-- `remaining < block_frames ? remaining : block_frames` -/
def blockFrameCount (blockFrames remaining : Nat) : Nat :=
  if remaining < blockFrames then remaining else blockFrames

/-- The loop over the frames. It takes a poll each time, so that `fuel` lasts as long as the polls do. -/
def playFrames (blockFrames : Nat) : Nat → Nat → RingDriver Bool
  | 0, _ => wait
  | fuel + 1, framesSubmitted =>
      if framesSubmitted < totalFrames then do
        if ← pcmSharedRingWaitConsumed ring then
          let submitted := framesSubmitted + blockFrameCount blockFrames (totalFrames - framesSubmitted)
          if submitted < totalFrames then do
            fillAndPublish ring pcm submitted (blockFrameCount blockFrames (totalFrames - submitted))
            playFrames blockFrames fuel submitted
          else playFrames blockFrames fuel submitted
        else return false
      else return true

/-- The loop over the blocks of silence. -/
def playSilence : Nat → RingDriver Bool
  | 0 => pcmSharedRingWaitConsumed ring
  | blocks + 1 => do
      if ← pcmSharedRingWaitConsumed ring then
        fillAndPublish ring pcm 0 0
        playSilence blocks
      else return false

/-- `PCM_SILENCE_MS` -/
def pcmSilenceMs : Nat := 200

def silenceBlocks (sampleRateHz blockFrames : Nat) : Checked Nat :=
  let silenceFrames := sampleRateHz * pcmSilenceMs % 2 ^ 32 / 1000
  if blockFrames = 0 then .error .wrap
  else .ok ((silenceFrames + blockFrames - 1) % 2 ^ 32 / blockFrames)

def pcmSharedRingPlay : RingDriver Bool :=
  if ring.bufferWordCount = 0 then return false
  else if ring.channelCount = 0 then return false
  else do
    let blockFrames := ring.bufferWordCount / ring.channelCount
    fillAndPublish ring pcm 0 (blockFrameCount blockFrames totalFrames)
    let started ← Driver.get
    if ring.start started then
      if ← playFrames ring pcm totalFrames blockFrames (started.polls.length + 1) 0 then
        let blocks ← checked (silenceBlocks pcm.sampleRateHz blockFrames)
        playSilence ring pcm blocks
      else return false
    else return false

end

/-! ## What was played -/

/-- What the DSP takes a word for. -/
def sampleValue (w : UInt16) : Int := w.toInt16.toInt

/-- The buffers that were published. -/
def published (trace : List RingEvent) : List (List UInt16) :=
  trace.filterMap fun
    | .publish buffer => some buffer
    | _ => none

/-- Whether a published buffer has not been consumed. Before it has, there is no write and no other buffer. -/
def pendingAfter : Bool → List RingEvent → Option Bool
  | pending, [] => some pending
  | pending, .write _ _ :: trace => if pending then none else pendingAfter false trace
  | pending, .publish _ :: trace => if pending then none else pendingAfter true trace
  | _, .consumed :: trace => pendingAfter false trace

/-- The blocks, with their frame counts, hold the frames up to `total` of `wave`, one source frame in
`sourceFrameStep`, in order, and nothing else. -/
structure Holds (ring : PcmSharedRing) (wave : Nat → Int) (total : Nat) (blocks : List (Nat × List UInt16)) :
    Prop where
  counts : (blocks.map Prod.fst).sum = total
  frames : blocks.flatMap (fun b => (b.2.take (b.1 * ring.channelCount)).map sampleValue)
    = (List.range total).flatMap fun k => List.replicate ring.channelCount (wave (k * ring.sourceFrameStep))
  length : ∀ b ∈ blocks, b.2.length = ring.bufferWordCount
  rest : ∀ b ∈ blocks, ∀ w ∈ b.2.drop (b.1 * ring.channelCount), w = 0

/-- The trace of a playback of `total` frames. -/
structure Played (ring : PcmSharedRing) (wave : Nat → Int) (total : Nat) (trace : List RingEvent) : Prop where
  blocks : ∃ blocks silence, published trace = blocks.map Prod.snd ++ silence ∧ Holds ring wave total blocks ∧
    ∀ buffer ∈ silence, buffer = List.replicate ring.bufferWordCount 0
  order : pendingAfter false trace = some false
  inside : ∀ index value, .write index value ∈ trace → index < ring.bufferWordCount

/-! ## Words written in a row -/

/-- The events of `writeWords`. -/
def writes : Nat → List UInt16 → List RingEvent
  | _, [] => []
  | index, w :: words => .write index w :: writes (index + 1) words

namespace RingState

theorem writeWords_append (words rest : List UInt16) : ∀ (index : Nat) (s : RingState),
    s.writeWords index (words ++ rest) = (s.writeWords index words).writeWords (index + words.length) rest := by
  induction words with
  | nil => intro index s; rfl
  | cons w words ih =>
      intro index s
      rw [List.cons_append, writeWords, writeWords, ih, List.length_cons, Nat.add_assoc, Nat.add_comm 1]

theorem writeWords_polls (words : List UInt16) : ∀ (index : Nat) (s : RingState),
    (s.writeWords index words).polls = s.polls := by
  induction words with
  | nil => intro index s; rfl
  | cons w words ih => intro index s; exact ih (index + 1) (s.writeWord index w)

theorem writeWords_trace (words : List UInt16) : ∀ (index : Nat) (s : RingState),
    (s.writeWords index words).trace = s.trace ++ writes index words := by
  induction words with
  | nil => intro index s; exact (List.append_nil _).symm
  | cons w words ih =>
      intro index s
      rw [writeWords, ih, writeWord, writes, List.append_assoc, List.singleton_append]

/-- The words behind the ones before `index`, inside the buffer. -/
theorem writeWords_buffer (words : List UInt16) : ∀ (done rest : List UInt16) (s : RingState),
    s.buffer = done ++ rest → words.length = rest.length →
      (s.writeWords done.length words).buffer = done ++ words := by
  induction words with
  | nil =>
      intro done rest s hs hlen
      rw [List.eq_nil_of_length_eq_zero hlen.symm] at hs
      exact hs
  | cons w words ih =>
      intro done rest s hs hlen
      cases rest with
      | nil => cases hlen
      | cons r rest =>
          have hset : (s.writeWord done.length w).buffer = (done ++ [w]) ++ rest := by
            rw [writeWord, hs, List.set_append_right _ _ le_rfl, Nat.sub_self, List.set_cons_zero,
              List.append_assoc, List.singleton_append]
          have hnext := ih (done ++ [w]) rest _ hset (Nat.succ.inj hlen)
          rwa [List.length_append, List.length_singleton, List.append_assoc, List.singleton_append] at hnext

theorem writeWords_all {words : List UInt16} {s : RingState} (h : words.length = s.buffer.length) :
    (s.writeWords 0 words).buffer = words :=
  writeWords_buffer words [] s.buffer s rfl h

end RingState

/-! ## Filling a buffer -/

/-- The samples are one period of `wave`. -/
structure Repeats (pcm : DspAudioPcm) (wave : Nat → Int) : Prop where
  count_pos : 0 < pcm.sampleCount
  count_le : pcm.sampleCount ≤ 2 ^ 31
  sample : ∀ i < pcm.sampleCount, pcm.samples[i]? = some (Int16.ofInt (wave i))
  periodic : ∀ j, wave (j % pcm.sampleCount) = wave j

/-- A sample as it is written. -/
def sampleWord (x : Int) : UInt16 := (Int16.ofInt x).toUInt16

/-- The words of `count` frames. -/
def frameWords (wave : Nat → Int) (step channels first count : Nat) : List UInt16 :=
  (List.range' first count).flatMap fun k => List.replicate channels (sampleWord (wave (k * step)))

theorem frameWords_succ (wave : Nat → Int) (step channels first count : Nat) :
    frameWords wave step channels first (count + 1)
      = List.replicate channels (sampleWord (wave (first * step)))
        ++ frameWords wave step channels (first + 1) count := by
  rw [frameWords, List.range'_succ, List.flatMap_cons]
  rfl

theorem length_frameWords (wave : Nat → Int) (step channels : Nat) : ∀ (first count : Nat),
    (frameWords wave step channels first count).length = count * channels := by
  intro first count
  induction count generalizing first with
  | zero => rw [Nat.zero_mul]; rfl
  | succ count ih =>
      rw [frameWords_succ, List.length_append, ih, List.length_replicate, Nat.succ_mul, Nat.add_comm]

theorem writeChannels_run (sample : UInt16) (channels : Nat) : ∀ (index : Nat) (s : RingState),
    writeChannels sample channels index s
      = (.done (index + channels), s.writeWords index (List.replicate channels sample)) := by
  induction channels with
  | zero => intro index s; rfl
  | succ channels ih =>
      intro index s
      have hrest := ih (index + 1) (s.writeWord index sample)
      rw [Nat.add_right_comm] at hrest
      exact hrest

theorem clearWords_run (words : Nat) : ∀ (index : Nat) (s : RingState),
    clearWords words index s = (.done (), s.writeWords index (List.replicate words 0)) := by
  induction words with
  | zero => intro index s; rfl
  | succ words ih => intro index s; exact ih (index + 1) (s.writeWord index 0)

section

variable {pcm : DspAudioPcm} {wave : Nat → Int} (h : Repeats pcm wave) {step channels total : Nat}

include h

theorem Repeats.read (k : Nat) :
    readSample pcm (k * step % pcm.sampleCount) = .ok (Int16.ofInt (wave (k * step))) := by
  rw [readSample, h.sample _ (Nat.mod_lt _ h.count_pos), h.periodic]

/-- The next index, as long as there is a next frame. -/
theorem Repeats.next {k : Nat} (hfits : total * step < 2 ^ 32) (hk : k + 1 < total) :
    (k * step % pcm.sampleCount + step) % 2 ^ 32 % pcm.sampleCount = (k + 1) * step % pcm.sampleCount := by
  have hstep : 2 * step ≤ total * step := Nat.mul_le_mul_right step (by omega)
  have hindex := Nat.mod_lt (k * step) h.count_pos
  have hcount := h.count_le
  rw [Nat.mod_eq_of_lt (a := _ + step) (by omega), Nat.mod_add_mod, Nat.succ_mul]

theorem Repeats.fillFrames_run (hfits : total * step < 2 ^ 32) (frames : Nat) :
    ∀ (k source index : Nat) (s : RingState), k + frames ≤ total →
      (0 < frames → source = k * step % pcm.sampleCount) →
      fillFrames pcm step channels frames source index s
        = (.done (index + frames * channels), s.writeWords index (frameWords wave step channels k frames)) := by
  induction frames with
  | zero =>
      intro k source index s _ _
      rw [Nat.zero_mul]
      rfl
  | succ frames ih =>
      intro k source index s htotal hsource
      have hread := hsource (Nat.succ_pos frames) ▸ h.read k
      have hnext := remainder_ok (a := (source + step) % 2 ^ 32) (Nat.pos_iff_ne_zero.mp h.count_pos)
      rw [fillFrames, hread, hnext]
      refine (bind_done (writeChannels_run _ channels index s)).trans ?_
      rw [ih (k + 1) _ _ _ (by omega) fun hpos => hsource (Nat.succ_pos frames) ▸ h.next hfits (by omega),
        frameWords_succ, RingState.writeWords_append, List.length_replicate, Nat.succ_mul, Nat.add_assoc,
        Nat.add_comm channels]
      rfl

end

/-- One buffer: `count` frames from `first` on, then zeros. -/
def block (ring : PcmSharedRing) (wave : Nat → Int) (first count : Nat) : List UInt16 :=
  frameWords wave ring.sourceFrameStep ring.channelCount first count
    ++ List.replicate (ring.bufferWordCount - count * ring.channelCount) 0

theorem length_block {ring : PcmSharedRing} {count : Nat}
    (hfits : count * ring.channelCount ≤ ring.bufferWordCount) (wave : Nat → Int) (first : Nat) :
    (block ring wave first count).length = ring.bufferWordCount := by
  rw [block, List.length_append, length_frameWords, List.length_replicate, Nat.add_sub_cancel' hfits]

section

variable {ring : PcmSharedRing} {pcm : DspAudioPcm} {wave : Nat → Int} {total : Nat}

theorem Repeats.pcmBufferFill_run (h : Repeats pcm wave) {first count : Nat}
    (hfits : total * ring.sourceFrameStep < 2 ^ 32) (htotal : first + count ≤ total) (s : RingState) :
    pcmBufferFill ring.bufferWordCount pcm first count ring.sourceFrameStep ring.channelCount s
      = (.done (), s.writeWords 0 (block ring wave first count)) := by
  have hfirst : first * ring.sourceFrameStep % 2 ^ 32 = first * ring.sourceFrameStep := by
    have hle := Nat.mul_le_mul_right ring.sourceFrameStep (Nat.le_of_add_right_le htotal)
    exact Nat.mod_eq_of_lt (hle.trans_lt hfits)
  rw [pcmBufferFill, hfirst, remainder_ok (Nat.pos_iff_ne_zero.mp h.count_pos)]
  refine (bind_done (h.fillFrames_run hfits count first _ 0 s htotal fun _ => rfl)).trans ?_
  rw [clearWords_run, block, RingState.writeWords_append, length_frameWords, Nat.zero_add]

/-- The state after a buffer was filled and published. -/
def RingState.refilled (s : RingState) (words : List UInt16) : RingState :=
  ⟨words, s.polls, s.trace ++ (writes 0 words ++ [.publish words])⟩

theorem Repeats.fillAndPublish_run (h : Repeats pcm wave) {first count : Nat} {s : RingState}
    (hfits : total * ring.sourceFrameStep < 2 ^ 32) (htotal : first + count ≤ total)
    (hcount : count * ring.channelCount ≤ ring.bufferWordCount) (hs : s.buffer.length = ring.bufferWordCount) :
    fillAndPublish ring pcm first count s = (.done (), s.refilled (block ring wave first count)) := by
  have hlen : (block ring wave first count).length = s.buffer.length :=
    (length_block hcount wave first).trans hs.symm
  have hpublish : (s.writeWords 0 (block ring wave first count)).publish
      = s.refilled (block ring wave first count) := by
    rw [RingState.publish, RingState.writeWords_all hlen, RingState.writeWords_trace,
      RingState.writeWords_polls, RingState.refilled, List.append_assoc]
  exact (bind_done (h.pcmBufferFill_run hfits htotal s)).trans (congrArg (Prod.mk _) hpublish)

end

/-! ## Traces -/

theorem pendingAfter_append (l m : List RingEvent) : ∀ pending : Bool,
    pendingAfter pending (l ++ m) = (pendingAfter pending l).bind fun p => pendingAfter p m := by
  induction l with
  | nil => intro pending; rfl
  | cons e l ih =>
      intro pending
      cases e with
      | write index value =>
          simp only [List.cons_append, pendingAfter]
          split
          · rfl
          · exact ih false
      | publish buffer =>
          simp only [List.cons_append, pendingAfter]
          split
          · rfl
          · exact ih true
      | consumed => exact ih false

theorem pendingAfter_writes (words : List UInt16) : ∀ index : Nat,
    pendingAfter false (writes index words) = some false := by
  induction words with
  | nil => intro index; rfl
  | cons w words ih => intro index; exact ih (index + 1)

theorem published_append (l m : List RingEvent) : published (l ++ m) = published l ++ published m :=
  List.filterMap_append

theorem published_writes (words : List UInt16) : ∀ index : Nat, published (writes index words) = [] := by
  induction words with
  | nil => intro index; rfl
  | cons w words ih => intro index; exact ih (index + 1)

theorem lt_of_mem_writes {words : List UInt16} : ∀ {start index : Nat} {value : UInt16},
    .write index value ∈ writes start words → index < start + words.length := by
  induction words with
  | nil => intro start index value hmem; cases hmem
  | cons w words ih =>
      intro start index value hmem
      rw [List.length_cons]
      cases hmem with
      | head => exact Nat.lt_add_of_pos_right (Nat.succ_pos _)
      | tail _ hmem =>
          have hlt := ih hmem
          omega

/-- What a playback has done so far: the buffers published, and whether the last one may be pending. -/
structure Sent (ring : PcmSharedRing) (buffers : List (List UInt16)) (pending : Bool) (s : RingState) :
    Prop where
  length : s.buffer.length = ring.bufferWordCount
  published : published s.trace = buffers
  order : pendingAfter false s.trace = some pending
  inside : ∀ index value, .write index value ∈ s.trace → index < ring.bufferWordCount

section

variable {ring : PcmSharedRing} {buffers : List (List UInt16)} {pending : Bool} {s : RingState}

theorem Sent.refilled (h : Sent ring buffers false s) {words : List UInt16}
    (hlen : words.length = ring.bufferWordCount) : Sent ring (buffers ++ [words]) true (s.refilled words) where
  length := hlen
  published := by
    rw [RingState.refilled, published_append, published_append, h.published, published_writes]
    rfl
  order := by
    rw [RingState.refilled, pendingAfter_append, h.order, Option.bind_some, pendingAfter_append,
      pendingAfter_writes]
    rfl
  inside := by
    intro index value hmem
    rcases List.mem_append.mp hmem with hmem | hmem
    · exact h.inside index value hmem
    rcases List.mem_append.mp hmem with hmem | hmem
    · have hlt := lt_of_mem_writes hmem
      omega
    · cases List.mem_singleton.mp hmem

/-- The state after a wait that saw the flag clear. -/
theorem Sent.consumed (h : Sent ring buffers pending s) (polls : List Poll) :
    Sent ring buffers false { s with polls := polls, trace := s.trace ++ [.consumed] } where
  length := h.length
  published := by
    rw [published_append, h.published]
    exact List.append_nil _
  order := by
    rw [pendingAfter_append, h.order]
    rfl
  inside := by
    intro index value hmem
    rcases List.mem_append.mp hmem with hmem | hmem
    · exact h.inside index value hmem
    · cases List.mem_singleton.mp hmem

theorem Sent.pollConsumed (h : Sent ring buffers pending s) (polls : List Poll) :
    Meets (fun ok s' => ok = true → Sent ring buffers false s') (fun _ => False)
      (pollConsumed ring polls s) := by
  induction polls with
  | nil => trivial
  | cons poll polls ih =>
      rw [Audio.pollConsumed]
      split_ifs
      · exact fun _ => h.consumed polls
      · exact fun htrue => nomatch htrue
      · exact ih

end

end Pmb887x.Audio
