import Pmb887x.SimReader.Replies

set_option autoImplicit false

/-! # The host of the SIM reader (`apps/sim-reader/sim-reader.py`)

`Reader.command` sends a request and reads two frames, the echo of the request and the reply. The link loses
nothing; there may be noise in front of a request. -/

namespace Pmb887x.SimReader

open Library Driver

/-! ## The host -/

inductive HostError where
  /-- `TimeoutError("SIM reader did not answer")` -/
  | timeout
  /-- `RuntimeError("SIM reader sent a malformed frame")` -/
  | malformedFrame
  /-- `RuntimeError("SIM reader command 0x%02X failed: error 0x%02X")` -/
  | commandFailed (messageType error : UInt8)
  deriving DecidableEq

/-- The host over the bytes that have come from the reader and have not been read. -/
abbrev Port := Driver (List UInt8) HostError

/-- `read_exact`: what is there when its timeout ends, if that is enough. -/
def readExact (size : Nat) : Port (List UInt8) := fun incoming =>
  if (incoming.take size).length ≠ size then (.fault .timeout, incoming.drop size)
  else (.done (incoming.take size), incoming.drop size)

/-- The header and the data of a frame. -/
def readFrame : Port (List UInt8 × List UInt8) := do
  let start ← readExact 2
  if start ≠ [serialSync, serialAck] then Driver.fault .malformedFrame
  else do
    let header ← readExact ccidHeaderSize
    let data ← readExact (ofLeBytes ((header.drop 1).take 4))
    let _ ← readExact 1
    pure (header, data)

/-- `struct.pack("<BIBBBBB", message_type, len(data), 0, self.sequence, 0, 0, 0)` -/
def commandHeader (messageType sequence : UInt8) (size : Nat) : List UInt8 :=
  messageType :: leBytes 4 size ++ [0, sequence, 0, 0, 0]

/-- What `command` writes. -/
def commandFrame (messageType sequence : UInt8) (data : List UInt8) : List UInt8 :=
  let frame := [serialSync, serialAck] ++ commandHeader messageType sequence data.length ++ data
  frame ++ [lrcOf 0 frame]

/-- What `command` reads. -/
def readReply (messageType : UInt8) : Port (List UInt8) := do
  let _ ← readFrame
  let reply ← readFrame
  if reply.1.getD 7 0 &&& ccidCommandFailed ≠ 0 then
    Driver.fault (.commandFailed messageType (reply.1.getD 8 0))
  else pure reply.2

/-! ## Frames on the link -/

/-- A header with the length of its data. -/
structure FrameHeader (header data : List UInt8) : Prop where
  length : header.length = ccidHeaderSize
  size : ofLeBytes ((header.drop ccidOffsetLength).take 4) = data.length

theorem lrcOf_append (lrc : UInt8) (xs ys : List UInt8) :
    lrcOf lrc (xs ++ ys) = lrcOf (lrcOf lrc xs) ys := List.foldl_append

/-- Both sides build the same frame. -/
theorem commandFrame_eq (messageType sequence : UInt8) (data : List UInt8) :
    commandFrame messageType sequence data
      = hostFrame (commandHeader messageType sequence data.length) data := by
  rw [commandFrame, hostFrame, lrcOf_append, lrcOf_append]
  rfl

theorem frameHeader_command (messageType sequence : UInt8) {data : List UInt8}
    (hdata : data.length ≤ ccidMaxDataSize) :
    FrameHeader (commandHeader messageType sequence data.length) data where
  length := by simp [commandHeader, ccidHeaderSize]
  size := by
    have htake : ((commandHeader messageType sequence data.length).drop ccidOffsetLength).take 4
        = leBytes 4 data.length := rfl
    rw [htake, ofLeBytes_leBytes_of_lt]
    exact Nat.lt_of_le_of_lt hdata (by decide)

theorem frameHeader_reply (request : Message) (type : UInt8) (active failed : Bool)
    (error specific : UInt8) {data : List UInt8} (hdata : data.length < 2 ^ 16) :
    FrameHeader (replyHeader request type active failed error specific data.length) data where
  length := rfl
  size := by
    have htake : ((replyHeader request type active failed error specific data.length).drop
        ccidOffsetLength).take 4 = [UInt8.ofNat data.length, UInt8.ofNat (data.length >>> 8), 0, 0] :=
      rfl
    have hlow : (UInt8.ofNat data.length).toNat = data.length % 256 := UInt8.toNat_ofNat'
    have hhigh : (UInt8.ofNat (data.length >>> 8)).toNat = data.length / 256 % 256 := by
      rw [Nat.shiftRight_eq_div_pow]
      exact UInt8.toNat_ofNat'
    rw [htake]
    simp only [ofLeBytes, hlow, hhigh, UInt8.toNat_zero]
    omega

theorem readExact_append {bytes : List UInt8} {size : Nat} (hsize : bytes.length = size)
    (rest : List UInt8) : readExact size (bytes ++ rest) = (.done bytes, rest) := by
  subst hsize
  rw [readExact, List.take_left, List.drop_left, if_neg (not_not.mpr rfl)]

/-- The host takes a frame off the link, whatever its data are. -/
theorem readFrame_append {header data : List UInt8} (h : FrameHeader header data)
    (rest : List UInt8) :
    readFrame (hostFrame header data ++ rest) = (.done (header, data), rest) := by
  have hsplit : hostFrame header data ++ rest = [serialSync, serialAck] ++ (header ++ (data ++
      ([lrcOf (lrcOf (serialSync ^^^ serialAck) header) data] ++ rest))) := by
    simp [hostFrame]
  have hsize : data.length = ofLeBytes ((header.drop 1).take 4) := h.size.symm
  rw [hsplit]
  refine (bind_done (readExact_append (by rfl) _)).trans ?_
  rw [if_neg (not_not.mpr rfl)]
  refine (bind_done (readExact_append h.length _)).trans ?_
  refine (bind_done (readExact_append hsize _)).trans ?_
  exact bind_done (readExact_append (by rfl) _)

theorem readFrame_nil : readFrame [] = (.fault .timeout, []) := rfl

/-- What the reply says: its data, or the failure of the command. -/
def replyResult (messageType : UInt8) (header data : List UInt8) : Outcome HostError (List UInt8) :=
  if header.getD 7 0 &&& ccidCommandFailed ≠ 0 then
    .fault (.commandFailed messageType (header.getD 8 0))
  else .done data

theorem readReply_frames {header data replyHeader reply : List UInt8} (messageType : UInt8)
    (h : FrameHeader header data) (hreply : FrameHeader replyHeader reply) (rest : List UInt8) :
    readReply messageType (hostFrame header data ++ (hostFrame replyHeader reply ++ rest))
      = (replyResult messageType replyHeader reply, rest) := by
  refine (bind_done (readFrame_append h _)).trans ((bind_done (readFrame_append hreply rest)).trans ?_)
  by_cases hfailed : replyHeader.getD 7 0 &&& ccidCommandFailed ≠ 0
  · rw [if_pos hfailed, replyResult, if_pos hfailed]
    rfl
  · rw [if_neg hfailed, replyResult, if_neg hfailed]
    rfl

/-- Behind the echo there is nothing to read. -/
theorem readReply_echo {header data : List UInt8} (messageType : UInt8)
    (h : FrameHeader header data) :
    readReply messageType (hostFrame header data ++ []) = (.fault .timeout, []) :=
  (bind_done (readFrame_append h [])).trans (bind_fault readFrame_nil)

/-! ## The reader takes a request off the link -/

def World.withHost (w : World) (host : List UInt8) : World :=
  { w with input := { w.input with host := host } }

theorem hostReadByte_run {w : World} {b : UInt8} {rest : List UInt8} (h : w.input.host = b :: rest) :
    hostReadByte w = (.done b, w.withHost rest) := by
  obtain ⟨reader, rxb, buffers, ⟨host, card, supply⟩, toHost, toCard⟩ := w
  obtain rfl : host = b :: rest := h
  rfl

theorem hostReadBytes_run {w : World} {bytes rest : List UInt8} {n : Nat} (hn : bytes.length = n)
    (h : w.input.host = bytes ++ rest) : hostReadBytes n w = (.done bytes, w.withHost rest) := by
  subst hn
  induction bytes generalizing w with
  | nil =>
      obtain ⟨reader, rxb, buffers, ⟨host, card, supply⟩, toHost, toCard⟩ := w
      obtain rfl : host = rest := h
      rfl
  | cons b bytes ih =>
      have hrest : (w.withHost (bytes ++ rest)).input.host = bytes ++ rest := rfl
      refine (bind_done (hostReadByte_run h)).trans ?_
      exact bind_done (ih hrest)

/-- Noise in front of a frame is skipped. -/
theorem hostAwaitSync_run {w : World} {noise rest : List UInt8} {n : Nat} (hn : noise.length < n)
    (hnoise : serialSync ∉ noise) (h : w.input.host = noise ++ serialSync :: rest) :
    hostAwaitSync n w = (.done (), w.withHost rest) := by
  induction noise generalizing w n with
  | nil =>
      cases n with
      | zero => cases hn
      | succ n => exact (bind_done (hostReadByte_run h)).trans (by rw [if_neg (not_not.mpr rfl)]; rfl)
  | cons b noise ih =>
      obtain ⟨hb, hnoise⟩ := List.ne_and_not_mem_of_not_mem_cons hnoise
      cases n with
      | zero => cases hn
      | succ n =>
          have hrest : (w.withHost (noise ++ serialSync :: rest)).input.host
              = noise ++ serialSync :: rest := rfl
          refine (bind_done (hostReadByte_run h)).trans ?_
          rw [if_pos hb.symm]
          exact ih (Nat.lt_of_succ_lt_succ hn) hnoise hrest

/-- Noise alone is skipped, and the reader waits. -/
theorem hostAwaitSync_waits {w : World} {noise : List UInt8} {n : Nat} (hn : noise.length ≤ n)
    (hnoise : serialSync ∉ noise) (h : w.input.host = noise) :
    hostAwaitSync n w = (.waiting, w.withHost []) := by
  induction noise generalizing w n with
  | nil =>
      obtain ⟨reader, rxb, buffers, ⟨host, card, supply⟩, toHost, toCard⟩ := w
      obtain rfl : host = [] := h
      cases n <;> rfl
  | cons b noise ih =>
      obtain ⟨hb, hnoise⟩ := List.ne_and_not_mem_of_not_mem_cons hnoise
      cases n with
      | zero => cases hn
      | succ n =>
          have hrest : (w.withHost noise).input.host = noise := rfl
          refine (bind_done (hostReadByte_run h)).trans ?_
          rw [if_pos hb.symm]
          exact ih (Nat.le_of_succ_le_succ hn) hnoise hrest

/-- A pass without a start byte waits and changes nothing else. -/
theorem mainRound_waits {w : World} {noise : List UInt8} (hnoise : serialSync ∉ noise)
    (h : w.input.host = noise) : mainRound w = (.waiting, w.withHost []) := by
  have hawait : hostAwaitSync w.input.host.length w = (.waiting, w.withHost []) :=
    hostAwaitSync_waits (Nat.le_of_eq (by rw [h])) hnoise h
  have hread : hostReadMessage w = (.waiting, w.withHost []) :=
    (get_bind _ w).trans (bind_waiting hawait)
  exact bind_waiting hread

/-- A frame is read: its message, or nothing when the last byte is not its LRC. -/
theorem hostReadMessage_run {w : World} {noise header data rest : List UInt8} {last : UInt8}
    (hnoise : serialSync ∉ noise) (hheader : FrameHeader header data)
    (hdata : data.length ≤ ccidMaxDataSize)
    (h : w.input.host
      = noise ++ ([serialSync, serialAck] ++ header ++ data ++ last :: rest)) :
    hostReadMessage w = (.done (if last = lrcOf (lrcOf (serialSync ^^^ serialAck) header) data
      then some { header := header, data := data } else none), w.withHost rest) := by
  have hassoc : w.input.host = noise ++ serialSync :: (serialAck :: (header ++ (data ++ last :: rest))) := by
    rw [h]
    simp
  have hawait : hostAwaitSync w.input.host.length w = (.done (), w.withHost _) :=
    hostAwaitSync_run (by rw [hassoc]; simp) hnoise hassoc
  refine (get_bind _ w).trans ((bind_done hawait).trans ?_)
  refine (bind_done (hostReadByte_run (by rfl))).trans ?_
  rw [if_neg (not_not.mpr rfl)]
  refine (bind_done (hostReadBytes_run hheader.length (by rfl))).trans ?_
  rw [hheader.size, if_neg (Nat.not_lt.mpr hdata)]
  refine (bind_done (hostReadBytes_run rfl (by rfl))).trans ?_
  refine (bind_done (hostReadByte_run (by rfl))).trans ?_
  split
  · rfl
  · rfl

/-- A start that is not followed by ACK is refused at once. -/
theorem hostReadMessage_second {w : World} {noise rest : List UInt8} {second : UInt8}
    (hnoise : serialSync ∉ noise) (hsecond : second ≠ serialAck)
    (h : w.input.host = noise ++ serialSync :: second :: rest) :
    hostReadMessage w = (.done none, w.withHost rest) := by
  have hawait : hostAwaitSync w.input.host.length w = (.done (), w.withHost _) :=
    hostAwaitSync_run (by rw [h]; simp) hnoise h
  refine (get_bind _ w).trans ((bind_done hawait).trans ?_)
  refine (bind_done (hostReadByte_run (by rfl))).trans ?_
  rw [if_pos hsecond]
  rfl

end Pmb887x.SimReader
