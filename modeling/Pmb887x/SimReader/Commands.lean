import Pmb887x.SimReader.HostLink
import Pmb887x.SimReader.Slot

set_option autoImplicit false

/-! # Sequences of commands

The host and the reader over a link that loses nothing. A request is recovered by the reader, the host reads
its echo and one reply, and neither side has a byte left. While the card keeps the reader busy there is no
reply, and the host gives up behind the echo; what it leaves behind then is read by the next command. -/

namespace Pmb887x.SimReader

open Library Driver

/-! ## Calls -/

/-- A call of `command`: the request, the noise in front of it, and what the card and the supply do until the
host gives up. -/
structure Call where
  messageType : UInt8
  data : List UInt8
  noise : List UInt8
  card : List CardEvent
  supply : List Bool

/-- The payload fits a message and, of a PPS request, the response; the phone is not switched off; the noise
has no start byte. -/
structure Call.Legal (c : Call) : Prop where
  size : c.data.length ≤ ccidMaxDataSize
  pps : c.messageType = pcToRdrXfrBlock → c.data.getD 0 0 = simPpss → c.data.length ≤ 258
  on : ¬ (c.messageType = pcToRdrEscape ∧ c.data.length ≠ 0 ∧ c.data.getD 0 0 = escapePowerOff)
  noise : serialSync ∉ c.noise

/-- Both sides: `unread` has been sent by the reader and not been read. -/
structure Joint where
  device : World
  unread : List UInt8
  sequence : UInt8

/-- What `command` sends in the call. -/
def Joint.header (j : Joint) (c : Call) : List UInt8 :=
  commandHeader c.messageType j.sequence c.data.length

/-- The reader with the request. -/
def Joint.request (j : Joint) (c : Call) : World :=
  { j.device with
    input :=
      { host := j.device.input.host ++ (c.noise ++ commandFrame c.messageType j.sequence c.data)
        card := j.device.input.card ++ c.card
        supply := j.device.input.supply ++ c.supply }
    toHost := []
    toCard := [] }

/-- What the host can read in the call. -/
def Joint.incoming (j : Joint) (c : Call) : List UInt8 :=
  j.unread ++ (mainRound (j.request c)).2.toHost

/-- Both sides after the call. -/
def Joint.next (j : Joint) (c : Call) : Joint where
  device := (mainRound (j.request c)).2
  unread := (readReply c.messageType (j.incoming c)).2
  sequence := j.sequence + 1

/-- The states between the calls, as long as each is answered in time. -/
inductive AfterCalls (start : World) : Joint → Prop where
  | init {w : World} (h : mainStart start = (.done (), w)) :
      AfterCalls start { device := w, unread := [], sequence := 0 }
  | call {j : Joint} {c : Call} (h : AfterCalls start j) (hc : c.Legal)
      (hanswered : (mainRound (j.request c)).1 = .done ()) : AfterCalls start (j.next c)

/-- The echo and one reply with the sequence number of the request, and nothing else in either direction. -/
def Answered (j : Joint) (c : Call) : Prop :=
  ∃ w' rest replyHeader reply, mainRound (j.request c) = (.done (), w') ∧
    readFrame (j.incoming c) = (.done (j.header c, c.data), rest) ∧
    readFrame rest = (.done (replyHeader, reply), []) ∧
    replyHeader.getD ccidOffsetSeq 0 = j.sequence ∧
    readReply c.messageType (j.incoming c) = (replyResult c.messageType replyHeader reply, []) ∧
    w'.input.host = [] ∧ mainRound w' = (.waiting, w')

/-- The card keeps the reader busy: the host reads the echo and gives up, and nothing else is on the link. -/
def TimedOut (j : Joint) (c : Call) : Prop :=
  ∃ w', mainRound (j.request c) = (.waiting, w') ∧
    readFrame (j.incoming c) = (.done (j.header c, c.data), []) ∧
    readReply c.messageType (j.incoming c) = (.fault .timeout, []) ∧ w'.input.host = []

/-- Three bytes are the only answer, and the slot is as it was. -/
def Refused (w : World) : Prop :=
  ∃ w', mainRound w = (.done (), w') ∧
    w'.toHost = w.toHost ++ [serialSync, serialNak, serialSync ^^^ serialNak] ∧
    w'.reader = w.reader ∧ mainRound w' = (.waiting, w'.withHost [])

/-! ## One call -/

/-- Nothing is on the link, and the parameters have their size. -/
structure Joint.Idle (j : Joint) : Prop where
  host : j.device.input.host = []
  unread : j.unread = []
  t0Parameters : j.device.reader.t0Parameters.length = ccidT0ParametersSize

variable {j : Joint} {c : Call}

/-- The message of the request. -/
def Joint.message (j : Joint) (c : Call) : Message where
  header := j.header c
  data := c.data

theorem frameHeader_request (j : Joint) (hc : c.Legal) : FrameHeader (j.header c) c.data :=
  frameHeader_command c.messageType j.sequence hc.size

/-- The reader recovers what was sent. -/
theorem Joint.Idle.read (h : j.Idle) (hc : c.Legal) :
    hostReadMessage (j.request c) = (.done (some (j.message c)), (j.request c).withHost []) := by
  have hhost : (j.request c).input.host = c.noise ++ ([serialSync, serialAck] ++ j.header c ++ c.data
      ++ lrcOf (lrcOf (serialSync ^^^ serialAck) (j.header c)) c.data :: []) := by
    show j.device.input.host ++ _ = _
    rw [h.host, commandFrame_eq]
    rfl
  rw [hostReadMessage_run hc.noise (frameHeader_request j hc) hc.size hhost, if_pos rfl]
  rfl

/-- The reader once the echo is sent. -/
def Joint.echoed (j : Joint) (c : Call) : World :=
  { (j.request c).withHost [] with toHost := hostFrame (j.header c) c.data }

theorem Joint.Idle.mainRound_eq (h : j.Idle) (hc : c.Legal) :
    mainRound (j.request c) = hostHandleMessage (j.message c) (j.echoed c) :=
  bind_done (h.read hc)

theorem Joint.Idle.answers (h : j.Idle) (hc : c.Legal) :
    AnswerOf (j.message c) (j.echoed c) (mainRound (j.request c)) := by
  have hhandle : Answers (j.message c) (hostHandleMessage (j.message c)) :=
    answers_hostHandleMessage hc.size hc.on
  rw [h.mainRound_eq hc]
  exact hhandle _ h.t0Parameters

/-- No store leaves its buffer. -/
theorem Joint.Idle.no_fault (h : j.Idle) (hc : c.Legal) (o : Overrun) (w' : World) :
    mainRound (j.request c) ≠ (.fault o, w') := by
  intro hfault
  have hmeets := meets_mainRound (j.request c)
  rw [hfault] at hmeets
  obtain ⟨m, w₁, hread, -, htype, hpps, hlong⟩ := hmeets
  rw [h.read hc] at hread
  obtain rfl : j.message c = m := by
    injection (Prod.mk.inj hread).1 with hread
    exact Option.some.inj hread
  have hfirst : c.data.getD 0 0 = simPpss := by
    have := of_decide_eq_true hpps
    exact this.2
  exact absurd (hc.pps htype hfirst) (Nat.not_le.mpr hlong)

/-- A call is answered, or the card keeps the reader busy. -/
theorem Joint.Idle.exchange (h : j.Idle) (hc : c.Legal) :
    (Answered j c ∧ (j.next c).Idle) ∨ TimedOut j c := by
  have hanswer := h.answers hc
  have hecho := readFrame_append (frameHeader_request j hc)
  rcases hrun : mainRound (j.request c) with ⟨u | - | o, w'⟩
  · left
    rw [hrun] at hanswer
    obtain ⟨type, active, failed, error, specific, data, hdata, hsent, hhost, hlen⟩ := hanswer
    have hincoming : j.incoming c = hostFrame (j.header c) c.data
        ++ (replyFrame (j.message c) type active failed error specific data ++ []) := by
      rw [Joint.incoming, h.unread, hrun, List.append_nil]
      exact hsent
    have hreply := readFrame_append (frameHeader_reply (j.message c) type active failed error
      specific hdata) []
    have hread := hincoming ▸ readReply_frames c.messageType (frameHeader_request j hc)
      (frameHeader_reply (j.message c) type active failed error specific hdata) []
    refine ⟨⟨w', _, _, data, hrun, hincoming ▸ hecho _, hreply, rfl, hread, hhost, ?_⟩,
      ⟨?_, ?_, ?_⟩⟩
    · have hidle := mainRound_waits List.not_mem_nil hhost
      rw [hidle]
      obtain ⟨reader, rxb, buffers, ⟨host, card, supply⟩, toHost, toCard⟩ := w'
      obtain rfl : host = [] := hhost
      rfl
    · rw [Joint.next, hrun]
      exact hhost
    · rw [Joint.next, hread]
    · rw [Joint.next, hrun]
      exact hlen
  · right
    rw [hrun] at hanswer
    obtain ⟨hsent, hhost⟩ := hanswer
    have hincoming : j.incoming c = hostFrame (j.header c) c.data ++ [] := by
      rw [Joint.incoming, h.unread, hrun, List.append_nil]
      exact hsent
    refine ⟨w', hrun, hincoming ▸ hecho _, ?_, hhost⟩
    rw [hincoming]
    exact readReply_echo c.messageType (frameHeader_request j hc)
  · exact absurd hrun (h.no_fault hc o w')

theorem AfterCalls.idle {start : World} (hquiet : start.input.host = []) (h : AfterCalls start j) :
    j.Idle := by
  induction h with
  | init h =>
      obtain rfl := (Prod.mk.inj h).2
      exact ⟨hquiet, rfl, rfl⟩
  | call h hc hanswered ih =>
      rcases ih.exchange hc with ⟨-, hidle⟩ | ⟨w', hrun, -⟩
      · exact hidle
      · rw [hrun] at hanswered
        cases hanswered

/-! ## Frames that are not accepted -/

/-- A refused message is answered with NAK. -/
theorem refused_of_read {w : World} {rest : List UInt8} (hrest : serialSync ∉ rest)
    (hread : hostReadMessage w = (.done none, w.withHost rest)) : Refused w := by
  refine ⟨{ w.withHost rest with
    toHost := w.toHost ++ [serialSync, serialNak, serialSync ^^^ serialNak] }, bind_done hread, rfl,
    rfl, ?_⟩
  exact mainRound_waits hrest rfl

theorem refused_lrc {w : World} {noise header data : List UInt8} {last : UInt8}
    (hnoise : serialSync ∉ noise) (hheader : FrameHeader header data)
    (hdata : data.length ≤ ccidMaxDataSize)
    (hlast : last ≠ lrcOf (lrcOf (serialSync ^^^ serialAck) header) data)
    (h : w.input.host = noise ++ ([serialSync, serialAck] ++ header ++ data ++ [last])) :
    Refused w := by
  refine refused_of_read List.not_mem_nil ?_
  rw [hostReadMessage_run hnoise hheader hdata h, if_neg hlast]

theorem refused_second {w : World} {noise rest : List UInt8} {second : UInt8}
    (hnoise : serialSync ∉ noise) (hsecond : second ≠ serialAck) (hrest : serialSync ∉ rest)
    (h : w.input.host = noise ++ serialSync :: second :: rest) : Refused w :=
  refused_of_read hrest (hostReadMessage_second hnoise hsecond h)

/-! ## All sequences -/

/-- **Commands stay in step.** In every sequence of calls in which the card has let the reader answer so
far, the reader recovers the next request, and the host reads its echo and one reply with its sequence
number; or the card keeps the reader busy, and the host gives up behind the echo. No byte is left either way.
A frame with a wrong LRC is answered with NAK alone and changes nothing, and so is one with a wrong second
byte that has no start byte behind it. -/
theorem commands_stay_in_step (start : World) (hquiet : start.input.host = []) :
    (∀ j, AfterCalls start j → ∀ c : Call, c.Legal →
      hostReadMessage (j.request c)
        = (.done (some { header := j.header c, data := c.data }), (j.request c).withHost []) ∧
      (Answered j c ∨ TimedOut j c)) ∧
    (∀ (w : World) (noise header data : List UInt8) (last : UInt8), serialSync ∉ noise →
      FrameHeader header data → data.length ≤ ccidMaxDataSize →
      last ≠ lrcOf (lrcOf (serialSync ^^^ serialAck) header) data →
      w.input.host = noise ++ ([serialSync, serialAck] ++ header ++ data ++ [last]) → Refused w) ∧
    ∀ (w : World) (noise rest : List UInt8) (second : UInt8), serialSync ∉ noise →
      second ≠ serialAck → serialSync ∉ rest →
      w.input.host = noise ++ serialSync :: second :: rest → Refused w := by
  refine ⟨fun j hj c hc => ⟨(hj.idle hquiet).read hc, ?_⟩, fun w noise header data last => ?_,
    fun w noise rest second => refused_second⟩
  · exact ((hj.idle hquiet).exchange hc).imp_left fun h => h.1
  · exact refused_lrc

/-- Both sides when the loop of the reader starts. -/
def firstJoint : Joint where
  device := ready
  unread := []
  sequence := 0

/-- A power-up behind a byte of noise. -/
def powerOnCall : Call where
  messageType := pcToRdrIccPowerOn
  data := []
  noise := [0x55]
  card := [.ok 0x3B, .timeout]
  supply := [true, true]

/-- A request with a wrong LRC, and one with a wrong second byte. -/
def wrongLrc : World := { ready with input :=
  { host := [] ++ ([serialSync, serialAck] ++ commandHeader pcToRdrIccPowerOn 0 0 ++ [] ++ [0]),
    card := [], supply := [] } }

def wrongSecond : World := { ready with input :=
  { host := [] ++ serialSync :: 0x07 :: (commandHeader pcToRdrIccPowerOn 0 0 ++ [0x67]),
    card := [], supply := [] } }

theorem commands_stay_in_step_power_on :
    (AfterCalls coldStart firstJoint ∧ powerOnCall.Legal ∧
      hostReadMessage (firstJoint.request powerOnCall)
        = (.done (some { header := firstJoint.header powerOnCall, data := [] }),
          (firstJoint.request powerOnCall).withHost []) ∧
      (Answered firstJoint powerOnCall ∨ TimedOut firstJoint powerOnCall)) ∧
    Refused wrongLrc ∧ Refused wrongSecond := by
  have hsteps := commands_stay_in_step coldStart rfl
  have hfirst : AfterCalls coldStart firstJoint := .init rfl
  have hlegal : powerOnCall.Legal :=
    ⟨by decide, fun _ _ => by decide, fun h => absurd h.1 (by decide), by decide⟩
  refine ⟨⟨hfirst, hlegal, hsteps.1 _ hfirst _ hlegal⟩, ?_, ?_⟩
  · exact hsteps.2.1 wrongLrc [] (commandHeader pcToRdrIccPowerOn 0 0) [] 0 (by decide)
      ⟨rfl, rfl⟩ (by decide) (by decide) rfl
  · exact hsteps.2.2 wrongSecond [] (commandHeader pcToRdrIccPowerOn 0 0 ++ [0x67]) 0x07 (by decide)
      (by decide) (by decide) rfl

/-! ## Out of step -/

/-- A power-up whose answer to reset comes when the host has given up. -/
def slowCall : Call := { powerOnCall with noise := [], card := [] }

/-- The reader with both requests, and the card's late answer. -/
def lateWorld : World where
  reader := ready.reader
  rxb := ready.rxb
  buffers := ready.buffers
  input :=
    { host := commandFrame pcToRdrIccPowerOn 0 [] ++ commandFrame pcToRdrGetSlotStatus 1 []
      card := [.ok 0x3B, .timeout]
      supply := [true, true] }
  toHost := []
  toCard := []

/-- A request with the sequence number 3 and a wrong second byte. -/
def wrongSecondSync : World where
  reader := ready.reader
  rxb := ready.rxb
  buffers := ready.buffers
  input :=
    { host := serialSync :: 0x07 :: (commandFrame pcToRdrGetSlotStatus 3 []).drop 2
      card := []
      supply := [] }
  toHost := []
  toCard := []

/-- Behind a command that timed out the next one takes the late reply for its echo; and a wrong second byte
with a start byte behind it is answered twice. -/
theorem commands_out_of_step :
    (slowCall.Legal ∧ AfterCalls coldStart firstJoint ∧
      readReply slowCall.messageType (firstJoint.incoming slowCall) = (.fault .timeout, []) ∧
      (readFrame ((mainRound (mainRound lateWorld).2).2.toHost.drop
          (firstJoint.incoming slowCall).length)).1
        ≠ .done (commandHeader pcToRdrGetSlotStatus 1 0, [])) ∧
    (mainRound (mainRound wrongSecondSync).2).2.toHost
      = [serialSync, serialNak, serialSync ^^^ serialNak, serialSync, serialNak,
          serialSync ^^^ serialNak] := by
  refine ⟨⟨⟨by decide, fun _ _ => by decide, fun h => absurd h.1 (by decide), by decide⟩, .init rfl,
    by decide +kernel, by decide +kernel⟩, by decide +kernel⟩

end Pmb887x.SimReader
