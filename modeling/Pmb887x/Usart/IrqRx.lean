import Pmb887x.Library.Machine
import Mathlib.Data.List.Basic
import Mathlib.Tactic.SplitIfs

set_option autoImplicit false

/-! # Receiving in interrupts (`unit/usart/irq-rx.c`)

Two requests drain the receive FIFO. The handler of the first takes at most two bytes, clears the request and
sets it again by software if bytes are left; the second comes when the line has been idle for a while and its
handler takes all bytes. The machine executes one statement of a handler at a time, and between any two of them
bytes may arrive and the line may fall idle. -/

namespace Pmb887x.Usart.IrqRx

open Library

/-! ## The program and the receiver -/

def fifoSize : Nat := 8
def rxIrqDrainLimit : Nat := 2

/-- `sizeof(received)` -/
def receivedSize : Nat := 32

/-- `RXFITL` -/
def triggerLevel : Nat := 4

/-- The statement of `irq_handler` that comes next. -/
inductive Pc where
  | rxLoop
  | rxRead
  | rxClear
  | rxCheck
  | rxSet
  | tmoLoop
  | tmoRead
  | tmoClear
  | ack
  deriving DecidableEq

/-- The branch of `VIC_USART0_RX_IRQ`. -/
def Pc.InRx : Pc → Bool
  | .rxLoop | .rxRead | .rxClear | .rxCheck | .rxSet => true
  | _ => false

/-- The statement reads `USART_RXB`. -/
def Pc.Reads : Pc → Bool
  | .rxRead | .tmoRead => true
  | _ => false

/-- An activation of `irq_handler`. -/
structure Frame where
  pc : Pc
  drained : Nat
  deriving DecidableEq

structure State where
  /-- the bytes that are still to arrive -/
  line : List UInt8
  fifo : List UInt8
  /-- the `RX` and `TMO` bits of `USART_RIS` -/
  rx : Bool
  tmo : Bool
  /-- a byte has arrived since the line was idle -/
  armed : Bool
  /-- a byte has found the FIFO full -/
  overrun : Bool
  received : List UInt8
  rxIrqs : Nat
  softwareRetriggers : Nat
  timeoutIrqs : Nat
  timeoutBytes : Nat
  handler : Option Frame

def State.start (sent : List UInt8) : State where
  line := sent
  fifo := []
  rx := false
  tmo := false
  armed := false
  overrun := false
  received := []
  rxIrqs := 0
  softwareRetriggers := 0
  timeoutIrqs := 0
  timeoutBytes := 0
  handler := none

/-- The loops go on: there is room in `received` and the FIFO is not empty. -/
def State.drains (s : State) : Bool := decide (s.received.length < receivedSize) && !s.fifo.isEmpty

/-- `received[received_length++] = USART_RXB(USART0)` -/
def State.readByte (s : State) : State := { s with received := s.received ++ s.fifo.take 1, fifo := s.fifo.drop 1 }

/-- One statement of the handler. -/
def irqHandler (s : State) (frame : Frame) : State :=
  match frame.pc with
  | .rxLoop =>
      if s.drains ∧ frame.drained < rxIrqDrainLimit then { s with handler := some { frame with pc := .rxRead } }
      else { s with handler := some { frame with pc := .rxClear } }
  | .rxRead => { s.readByte with handler := some ⟨.rxLoop, frame.drained + 1⟩ }
  | .rxClear => { s with rx := false, handler := some { frame with pc := .rxCheck } }
  | .rxCheck =>
      if s.fifo ≠ [] then
        { s with softwareRetriggers := s.softwareRetriggers + 1, handler := some { frame with pc := .rxSet } }
      else { s with handler := some { frame with pc := .ack } }
  | .rxSet => { s with rx := true, handler := some { frame with pc := .ack } }
  | .tmoLoop =>
      if s.drains then { s with handler := some { frame with pc := .tmoRead } }
      else { s with handler := some { frame with pc := .tmoClear } }
  | .tmoRead =>
      { s.readByte with timeoutBytes := s.timeoutBytes + 1, handler := some { frame with pc := .tmoLoop } }
  | .tmoClear => { s with tmo := false, handler := some { frame with pc := .ack } }
  | .ack => { s with handler := none }

inductive Action where
  /-- the next byte on the line -/
  | arrive
  /-- the line has been idle for `USART_TMO` shift clocks -/
  | idle
  /-- the interrupts are taken -/
  | rxIrq
  | tmoIrq
  | handler
  deriving DecidableEq

/-- One step; `raises level` says whether a byte that brings the FIFO to this level raises the request. -/
def step (raises : Nat → Bool) (a : Action) (s : State) : Option State :=
  match a with
  | .arrive =>
      match s.line with
      | [] => none
      | b :: line =>
          if s.fifo.length < fifoSize then
            some { s with
              line := line
              fifo := s.fifo ++ [b]
              rx := s.rx || raises (s.fifo.length + 1)
              armed := true }
          else some { s with line := line, overrun := true, armed := true }
  | .idle => if s.armed then some { s with armed := false, tmo := true } else none
  | .rxIrq =>
      if s.rx ∧ s.handler = none then some { s with rxIrqs := s.rxIrqs + 1, handler := some ⟨.rxLoop, 0⟩ } else none
  | .tmoIrq =>
      if s.tmo ∧ s.handler = none then
        some { s with timeoutIrqs := s.timeoutIrqs + 1, handler := some ⟨.tmoLoop, 0⟩ }
      else none
  | .handler => s.handler.map (irqHandler s)

/-! ## No byte is lost -/

/-- The bytes in the order they go through the receiver. -/
def State.contents (s : State) : List UInt8 := s.received ++ s.fifo ++ s.line

theorem contents_readByte (s : State) : s.readByte.contents = s.contents := by
  rw [State.contents, State.readByte, List.append_assoc s.received, List.take_append_drop]
  rfl

/-- A statement of the handler moves bytes from the FIFO to `received`, and nothing else. -/
theorem irqHandler_frame (s : State) (frame : Frame) :
    (irqHandler s frame).contents = s.contents ∧ (irqHandler s frame).line = s.line ∧
      (irqHandler s frame).overrun = s.overrun ∧ (irqHandler s frame).armed = s.armed := by
  obtain ⟨pc, drained⟩ := frame
  cases pc with
  | rxRead => exact ⟨contents_readByte s, rfl, rfl, rfl⟩
  | tmoRead => exact ⟨contents_readByte s, rfl, rfl, rfl⟩
  | rxLoop =>
      simp only [irqHandler]
      split_ifs <;> exact ⟨rfl, rfl, rfl, rfl⟩
  | tmoLoop =>
      simp only [irqHandler]
      split_ifs <;> exact ⟨rfl, rfl, rfl, rfl⟩
  | rxCheck =>
      simp only [irqHandler]
      split_ifs <;> exact ⟨rfl, rfl, rfl, rfl⟩
  | rxClear => exact ⟨rfl, rfl, rfl, rfl⟩
  | rxSet => exact ⟨rfl, rfl, rfl, rfl⟩
  | tmoClear => exact ⟨rfl, rfl, rfl, rfl⟩
  | ack => exact ⟨rfl, rfl, rfl, rfl⟩

/-- What each action needs and does. -/
theorem step_cases {raises : Nat → Bool} {a : Action} {s s' : State} (h : step raises a s = some s') :
    (∃ b line, a = .arrive ∧ s.line = b :: line ∧ s.fifo.length < fifoSize ∧
      s' = { s with
        line := line, fifo := s.fifo ++ [b], rx := s.rx || raises (s.fifo.length + 1), armed := true }) ∨
    (∃ b line, a = .arrive ∧ s.line = b :: line ∧ fifoSize ≤ s.fifo.length ∧
      s' = { s with line := line, overrun := true, armed := true }) ∨
    (a = .idle ∧ s.armed = true ∧ s' = { s with armed := false, tmo := true }) ∨
    (a = .rxIrq ∧ s.rx = true ∧ s.handler = none ∧
      s' = { s with rxIrqs := s.rxIrqs + 1, handler := some ⟨.rxLoop, 0⟩ }) ∨
    (a = .tmoIrq ∧ s.tmo = true ∧ s.handler = none ∧
      s' = { s with timeoutIrqs := s.timeoutIrqs + 1, handler := some ⟨.tmoLoop, 0⟩ }) ∨
    (∃ frame, a = .handler ∧ s.handler = some frame ∧ s' = irqHandler s frame) := by
  cases a with
  | arrive =>
      cases hline : s.line with
      | nil => simp [step, hline] at h
      | cons b line =>
          simp only [step, hline] at h
          split_ifs at h with hroom
          · exact .inl ⟨b, line, rfl, rfl, hroom, (Option.some.inj h).symm⟩
          · exact .inr (.inl ⟨b, line, rfl, rfl, Nat.not_lt.mp hroom, (Option.some.inj h).symm⟩)
  | idle =>
      simp only [step] at h
      split_ifs at h with harmed
      exact .inr (.inr (.inl ⟨rfl, harmed, (Option.some.inj h).symm⟩))
  | rxIrq =>
      simp only [step] at h
      split_ifs at h with htaken
      exact .inr (.inr (.inr (.inl ⟨rfl, htaken.1, htaken.2, (Option.some.inj h).symm⟩)))
  | tmoIrq =>
      simp only [step] at h
      split_ifs at h with htaken
      exact .inr (.inr (.inr (.inr (.inl ⟨rfl, htaken.1, htaken.2, (Option.some.inj h).symm⟩))))
  | handler =>
      obtain ⟨frame, hframe, hs'⟩ := Option.map_eq_some_iff.mp h
      exact .inr (.inr (.inr (.inr (.inr ⟨frame, rfl, hframe, hs'.symm⟩))))

/-- Nothing is duplicated or reordered, and only an overrun loses anything. -/
structure Ordered (sent : List UInt8) (s : State) : Prop where
  sublist : s.contents.Sublist sent
  complete : s.overrun = false → s.contents = sent

theorem ordered_step {raises : Nat → Bool} {sent : List UInt8} {a : Action} {s s' : State} (hs : Ordered sent s)
    (h : step raises a s = some s') : Ordered sent s' := by
  obtain ⟨b, line, -, hline, -, rfl⟩ | ⟨b, line, -, hline, -, rfl⟩ | ⟨-, -, rfl⟩ | ⟨-, -, -, rfl⟩ | ⟨-, -, -, rfl⟩ |
    ⟨frame, -, -, rfl⟩ := step_cases h
  · have hcontents : s.received ++ (s.fifo ++ [b]) ++ line = s.contents := by
      rw [State.contents, hline, List.append_assoc, List.append_assoc, List.append_assoc]
      rfl
    refine ⟨?_, fun hoverrun => ?_⟩
    · rw [State.contents, hcontents]
      exact hs.sublist
    · rw [State.contents, hcontents]
      exact hs.complete hoverrun
  · refine ⟨List.Sublist.trans ?_ hs.sublist, fun hoverrun => absurd hoverrun Bool.noConfusion⟩
    rw [State.contents, State.contents, hline]
    exact List.Sublist.append (List.Sublist.refl _) (List.sublist_cons_self b line)
  · exact ⟨hs.sublist, hs.complete⟩
  · exact ⟨hs.sublist, hs.complete⟩
  · exact ⟨hs.sublist, hs.complete⟩
  · obtain ⟨hcontents, -, hoverrun, -⟩ := irqHandler_frame s frame
    refine ⟨?_, fun h => ?_⟩
    · rw [hcontents]
      exact hs.sublist
    · rw [hcontents]
      exact hs.complete (hoverrun.symm.trans h)

/-! ## A full FIFO is seen -/

/-- The handler is about to take a byte. -/
def State.reading (s : State) : Prop := ∃ frame, s.handler = some frame ∧ frame.pc.Reads = true

/-- The handler is in the branch of `VIC_USART0_RX_IRQ`. -/
def State.inRx (s : State) : Prop := ∃ frame, s.handler = some frame ∧ frame.pc.InRx = true

/-- There is room and a byte for the read that comes next, and the FIFO does not stay at the trigger level
    without a request. -/
structure Seen (s : State) : Prop where
  room : s.received.length ≤ receivedSize
  reads : s.reading → s.received.length < receivedSize ∧ s.fifo ≠ []
  level : triggerLevel ≤ s.fifo.length → s.rx = true ∨ s.inRx

theorem not_reading {s : State} {frame : Frame} (hframe : s.handler = some frame) (hpc : frame.pc.Reads = false) :
    ¬ s.reading := by
  rintro ⟨frame', hframe', hreads⟩
  obtain rfl : frame = frame' := Option.some.inj (hframe.symm.trans hframe')
  exact Bool.false_ne_true (hpc.symm.trans hreads)

theorem drains_iff (s : State) : s.drains = true ↔ s.received.length < receivedSize ∧ s.fifo ≠ [] := by
  simp [State.drains]

theorem length_readByte {s : State} (h : s.fifo ≠ []) :
    s.readByte.received.length = s.received.length + 1 ∧ s.readByte.fifo.length + 1 = s.fifo.length := by
  cases hfifo : s.fifo with
  | nil => exact absurd hfifo h
  | cons b fifo =>
      rw [State.readByte, hfifo]
      simp

theorem seen_irqHandler {s : State} {frame : Frame} (hframe : s.handler = some frame) (hs : Seen s) :
    Seen (irqHandler s frame) := by
  obtain ⟨hroom, hreads, hlevel⟩ := hs
  have hin : s.inRx ↔ frame.pc.InRx = true := by simp [State.inRx, hframe]
  have hread : s.reading ↔ frame.pc.Reads = true := by simp [State.reading, hframe]
  rw [hin] at hlevel
  rw [hread] at hreads
  obtain ⟨pc, drained⟩ := frame
  -- a handler that is not about to read has no byte to answer for
  cases pc with
  | rxLoop =>
      simp only [irqHandler]
      split_ifs with hdrains
      · exact ⟨hroom, fun _ => (drains_iff s).mp hdrains.1, fun _ => .inr ⟨_, rfl, rfl⟩⟩
      · exact ⟨hroom, fun h => (not_reading rfl rfl h).elim, fun _ => .inr ⟨_, rfl, rfl⟩⟩
  | rxRead =>
      obtain ⟨hlt, hne⟩ := hreads rfl
      obtain ⟨hreceived, -⟩ := length_readByte hne
      refine ⟨?_, fun h => (not_reading rfl rfl h).elim, fun _ => .inr ⟨_, rfl, rfl⟩⟩
      change s.readByte.received.length ≤ receivedSize
      rw [hreceived]
      exact hlt
  | rxClear => exact ⟨hroom, fun h => (not_reading rfl rfl h).elim, fun _ => .inr ⟨_, rfl, rfl⟩⟩
  | rxCheck =>
      simp only [irqHandler]
      split_ifs with hempty
      · exact ⟨hroom, fun h => (not_reading rfl rfl h).elim, fun _ => .inr ⟨_, rfl, rfl⟩⟩
      · refine ⟨hroom, fun h => (not_reading rfl rfl h).elim, fun htrigger => ?_⟩
        rw [not_not.mp hempty] at htrigger
        exact absurd htrigger (by decide)
  | rxSet => exact ⟨hroom, fun h => (not_reading rfl rfl h).elim, fun _ => .inl rfl⟩
  | tmoLoop =>
      simp only [irqHandler]
      split_ifs with hdrains
      · exact ⟨hroom, fun _ => (drains_iff s).mp hdrains, fun h => .inl ((hlevel h).resolve_right Bool.false_ne_true)⟩
      · exact ⟨hroom, fun h => (not_reading rfl rfl h).elim,
          fun h => .inl ((hlevel h).resolve_right Bool.false_ne_true)⟩
  | tmoRead =>
      obtain ⟨hlt, hne⟩ := hreads rfl
      obtain ⟨hreceived, hfifo⟩ := length_readByte hne
      refine ⟨?_, fun h => (not_reading rfl rfl h).elim, fun h => ?_⟩
      · change s.readByte.received.length ≤ receivedSize
        rw [hreceived]
        exact hlt
      · change triggerLevel ≤ s.readByte.fifo.length at h
        exact .inl ((hlevel (by omega)).resolve_right Bool.false_ne_true)
  | tmoClear =>
      exact ⟨hroom, fun h => (not_reading rfl rfl h).elim,
        fun h => .inl ((hlevel h).resolve_right Bool.false_ne_true)⟩
  | ack =>
      exact ⟨hroom, fun ⟨_, h, _⟩ => (Option.some_ne_none _ h.symm).elim,
        fun h => .inl ((hlevel h).resolve_right Bool.false_ne_true)⟩

theorem seen_step {raises : Nat → Bool} (hraises : raises triggerLevel = true) {a : Action} {s s' : State}
    (hs : Seen s) (h : step raises a s = some s') : Seen s' := by
  obtain ⟨b, line, -, hline, -, rfl⟩ | ⟨b, line, -, hline, -, rfl⟩ | ⟨-, -, rfl⟩ | ⟨-, hrx, -, rfl⟩ |
    ⟨-, -, hnone, rfl⟩ | ⟨frame, -, hframe, rfl⟩ := step_cases h
  · refine ⟨hs.room, fun hreading => ⟨(hs.reads hreading).1, by simp⟩, fun hlevel => ?_⟩
    rw [List.length_append, List.length_singleton] at hlevel
    by_cases hreached : triggerLevel ≤ s.fifo.length
    · refine (hs.level hreached).imp_left fun hrx => ?_
      rw [hrx]
      rfl
    · refine .inl ?_
      have heq : s.fifo.length + 1 = triggerLevel := by omega
      simp only [heq, hraises, Bool.or_true]
  · exact ⟨hs.room, hs.reads, hs.level⟩
  · exact ⟨hs.room, hs.reads, hs.level⟩
  · exact ⟨hs.room, fun h => (not_reading rfl rfl h).elim, fun _ => .inl hrx⟩
  · refine ⟨hs.room, fun h => (not_reading rfl rfl h).elim, fun hlevel => .inl ?_⟩
    refine (hs.level hlevel).resolve_right fun ⟨frame, hframe, _⟩ => ?_
    rw [hnone] at hframe
    cases hframe
  · exact seen_irqHandler hframe hs

/-! ## There is an end to it -/

/-- What an activation has still to do. Bytes that arrive while the handler looks for them have it come again. -/
def Frame.work (frame : Frame) (empty : Bool) : Nat :=
  match frame.pc with
  | .rxLoop => if frame.drained = 0 then 5 else 13
  | .rxRead => if frame.drained = 0 then 4 else 12
  | .rxClear => if frame.drained = 0 ∧ empty then 4 else 10
  | .rxCheck => if frame.drained = 0 ∧ empty then 3 else 9
  | .rxSet => 8
  | .tmoLoop => 5
  | .tmoRead => 4
  | .tmoClear => 3
  | .ack => 1

/-- The running handler is going to clear the request. -/
def clearsRx : Pc → Bool
  | .rxLoop | .rxRead | .rxClear => true
  | _ => false

def clearsTmo : Pc → Bool
  | .tmoLoop | .tmoRead | .tmoClear => true
  | _ => false

/-- The work of the requests that are still to be taken and of the handler. -/
def handlerWork (rx tmo empty : Bool) : Option Frame → Nat
  | none => (if rx then 6 else 0) + (if tmo then 6 else 0)
  | some frame =>
      (if rx && !clearsRx frame.pc then 6 else 0) + (if tmo && !clearsTmo frame.pc then 6 else 0) + frame.work empty

/-- It becomes less with every step. -/
def State.work (s : State) : Nat :=
  30 * s.line.length + 10 * s.fifo.length + (if s.armed then 7 else 0)
    + handlerWork s.rx s.tmo s.fifo.isEmpty s.handler

theorem work_lt {s s' : State} {frame : Frame} (hframe : s.handler = some frame) (hline : s'.line = s.line)
    (hfifo : s'.fifo = s.fifo) (harmed : s'.armed = s.armed)
    (hhandler : handlerWork s'.rx s'.tmo s.fifo.isEmpty s'.handler
      < handlerWork s.rx s.tmo s.fifo.isEmpty (some frame)) :
    s'.work < s.work := by
  rw [State.work, State.work, hline, hfifo, harmed, hframe]
  exact Nat.add_lt_add_left hhandler _

/-- A byte read is ten less, and the statement behind it may have at most nine more. -/
theorem work_readByte {s s' : State} {frame frame' : Frame} (hframe : s.handler = some frame) (hne : s.fifo ≠ [])
    (hs' : s'.line = s.line ∧ s'.fifo = s.readByte.fifo ∧ s'.armed = s.armed ∧ s'.rx = s.rx ∧ s'.tmo = s.tmo)
    (hframe' : s'.handler = some frame') (hrx : clearsRx frame'.pc = clearsRx frame.pc)
    (htmo : clearsTmo frame'.pc = clearsTmo frame.pc) (hwork : ∀ empty, frame'.work empty ≤ frame.work false + 9) :
    s'.work < s.work := by
  obtain ⟨-, hfifo⟩ := length_readByte hne
  have hempty : s.fifo.isEmpty = false := by simpa using hne
  have hnext := hwork s.readByte.fifo.isEmpty
  obtain ⟨hline, hrest, harmed, hrx', htmo'⟩ := hs'
  rw [State.work, State.work, hline, hrest, harmed, hrx', htmo', hframe, hframe', handlerWork, handlerWork, hrx, htmo,
    hempty]
  omega

/-- Every other statement has less to do behind it than before it. -/
theorem handlerWork_moves (rx tmo empty : Bool) (d : Nat) :
    handlerWork rx tmo empty (some ⟨.rxRead, d⟩) < handlerWork rx tmo empty (some ⟨.rxLoop, d⟩) ∧
    ((d = 0 → empty = true) →
      handlerWork rx tmo empty (some ⟨.rxClear, d⟩) < handlerWork rx tmo empty (some ⟨.rxLoop, d⟩)) ∧
    handlerWork false tmo empty (some ⟨.rxCheck, d⟩) < handlerWork rx tmo empty (some ⟨.rxClear, d⟩) ∧
    (empty = false → handlerWork rx tmo empty (some ⟨.rxSet, d⟩) < handlerWork rx tmo empty (some ⟨.rxCheck, d⟩)) ∧
    handlerWork rx tmo empty (some ⟨.ack, d⟩) < handlerWork rx tmo empty (some ⟨.rxCheck, d⟩) ∧
    handlerWork true tmo empty (some ⟨.ack, d⟩) < handlerWork rx tmo empty (some ⟨.rxSet, d⟩) ∧
    handlerWork rx tmo empty (some ⟨.tmoRead, d⟩) < handlerWork rx tmo empty (some ⟨.tmoLoop, d⟩) ∧
    handlerWork rx tmo empty (some ⟨.tmoClear, d⟩) < handlerWork rx tmo empty (some ⟨.tmoLoop, d⟩) ∧
    handlerWork rx false empty (some ⟨.ack, d⟩) < handlerWork rx tmo empty (some ⟨.tmoClear, d⟩) ∧
    handlerWork rx tmo empty none < handlerWork rx tmo empty (some ⟨.ack, d⟩) := by
  by_cases hd : d = 0
  · cases rx <;> cases tmo <;> cases empty <;> simp [handlerWork, Frame.work, clearsRx, clearsTmo, hd]
  · cases rx <;> cases tmo <;> cases empty <;> simp [handlerWork, Frame.work, clearsRx, clearsTmo, hd]

theorem work_irqHandler {s : State} {frame : Frame} (hframe : s.handler = some frame) (hs : Seen s)
    (hfits : s.received.length = receivedSize → s.fifo = []) : (irqHandler s frame).work < s.work := by
  have hreads : frame.pc.Reads = true → s.fifo ≠ [] := fun h => (hs.reads ⟨frame, hframe, h⟩).2
  obtain ⟨pc, drained⟩ := frame
  obtain ⟨hread, hclear, hcheck, hset, hnone, hretrigger, htmoRead, htmoClear, htmoAck, hack⟩ :=
    handlerWork_moves s.rx s.tmo s.fifo.isEmpty drained
  cases pc with
  | rxLoop =>
      simp only [irqHandler]
      split_ifs with hdrains
      · exact work_lt hframe rfl rfl rfl hread
      · -- with nothing drained there was nothing to drain
        have hempty : drained = 0 → s.fifo.isEmpty = true := by
          rintro rfl
          by_contra hne
          have hfifo : s.fifo ≠ [] := fun h => hne (by rw [h]; rfl)
          have hlt : s.received.length < receivedSize :=
            Nat.lt_of_le_of_ne hs.room fun h => hfifo (hfits h)
          exact hdrains ⟨(drains_iff s).mpr ⟨hlt, hfifo⟩, by decide⟩
        exact work_lt hframe rfl rfl rfl (hclear hempty)
  | rxRead =>
      refine work_readByte hframe (hreads rfl) ⟨rfl, rfl, rfl, rfl, rfl⟩ rfl rfl rfl fun empty => ?_
      simp only [Frame.work]
      split_ifs <;> omega
  | rxClear => exact work_lt hframe rfl rfl rfl hcheck
  | rxCheck =>
      simp only [irqHandler]
      split_ifs with hne
      · exact work_lt hframe rfl rfl rfl (hset (by simpa using hne))
      · exact work_lt hframe rfl rfl rfl hnone
  | rxSet => exact work_lt hframe rfl rfl rfl hretrigger
  | tmoLoop =>
      simp only [irqHandler]
      split_ifs
      · exact work_lt hframe rfl rfl rfl htmoRead
      · exact work_lt hframe rfl rfl rfl htmoClear
  | tmoRead =>
      refine work_readByte hframe (hreads rfl) ⟨rfl, rfl, rfl, rfl, rfl⟩ rfl rfl rfl fun empty => ?_
      simp only [Frame.work]
      omega
  | tmoClear => exact work_lt hframe rfl rfl rfl htmoAck
  | ack => exact work_lt hframe rfl rfl rfl hack

theorem frame_work_le (frame : Frame) (empty empty' : Bool) : frame.work empty' ≤ frame.work empty + 6 := by
  obtain ⟨pc, drained⟩ := frame
  cases pc <;> simp only [Frame.work] <;> (try split_ifs) <;> omega

/-- A request adds six, and so does a byte for a handler that has found none. -/
theorem handlerWork_le (rx tmo empty rx' empty' : Bool) (handler : Option Frame) :
    handlerWork rx' tmo empty' handler ≤ handlerWork rx tmo empty handler + 12 ∧
      handlerWork rx true empty handler ≤ handlerWork rx tmo empty handler + 6 := by
  cases handler with
  | none =>
      simp only [handlerWork]
      constructor <;> split_ifs <;> omega
  | some frame =>
      have hle := frame_work_le frame empty empty'
      simp only [handlerWork]
      constructor <;> split_ifs <;> omega

/-- No more bytes than fit into `received`, so that a byte in the FIFO has room. -/
theorem fifo_eq_nil {sent : List UInt8} (hsent : sent.length ≤ receivedSize) {s : State} (hs : Ordered sent s)
    (hfull : s.received.length = receivedSize) : s.fifo = [] := by
  have hlength := hs.sublist.length_le
  rw [State.contents, List.length_append, List.length_append, hfull] at hlength
  exact List.eq_nil_of_length_eq_zero (by omega)

theorem work_step {raises : Nat → Bool} {sent : List UInt8} (hsent : sent.length ≤ receivedSize) {a : Action}
    {s s' : State} (hordered : Ordered sent s) (hseen : Seen s) (h : step raises a s = some s') : s'.work < s.work := by
  obtain ⟨b, line, -, hline, -, rfl⟩ | ⟨b, line, -, hline, -, rfl⟩ | ⟨-, harmed, rfl⟩ | ⟨-, hrx, hnone, rfl⟩ |
    ⟨-, htmo, hnone, rfl⟩ | ⟨frame, -, hframe, rfl⟩ := step_cases h
  · have hhandler := (handlerWork_le s.rx s.tmo s.fifo.isEmpty (s.rx || raises (s.fifo.length + 1))
      (s.fifo ++ [b]).isEmpty s.handler).1
    rw [State.work, State.work, hline, List.length_cons]
    simp only [List.length_append, List.length_singleton, if_true]
    omega
  · rw [State.work, State.work, hline, List.length_cons]
    simp only [if_true]
    omega
  · have hhandler := (handlerWork_le s.rx s.tmo s.fifo.isEmpty s.rx s.fifo.isEmpty s.handler).2
    rw [State.work, State.work, if_pos harmed]
    simp only [Bool.false_eq_true, if_false]
    omega
  · have hfewer : handlerWork s.rx s.tmo s.fifo.isEmpty (some ⟨.rxLoop, 0⟩)
        < handlerWork s.rx s.tmo s.fifo.isEmpty s.handler := by
      rw [hrx, hnone]
      cases s.tmo <;> simp [handlerWork, Frame.work, clearsRx, clearsTmo]
    exact Nat.add_lt_add_left hfewer _
  · have hfewer : handlerWork s.rx s.tmo s.fifo.isEmpty (some ⟨.tmoLoop, 0⟩)
        < handlerWork s.rx s.tmo s.fifo.isEmpty s.handler := by
      rw [htmo, hnone]
      cases s.rx <;> simp [handlerWork, Frame.work, clearsRx, clearsTmo]
    exact Nat.add_lt_add_left hfewer _
  · exact work_irqHandler hframe hseen (fifo_eq_nil hsent hordered)

theorem ordered_start (sent : List UInt8) : Ordered sent (State.start sent) := ⟨List.Sublist.refl _, fun _ => rfl⟩

theorem seen_start (sent : List UInt8) : Seen (State.start sent) := by
  have hlevel : ¬ triggerLevel ≤ 0 := by decide
  exact ⟨Nat.zero_le _, fun ⟨_, h, _⟩ => (Option.some_ne_none _ h.symm).elim, fun h => absurd h hlevel⟩

theorem work_run {raises : Nat → Bool} (hraises : raises triggerLevel = true) {sent : List UInt8}
    (hsent : sent.length ≤ receivedSize) (actions : List Action) {s s' : State} (hordered : Ordered sent s)
    (hseen : Seen s) (h : run (step raises) actions s = some s') : actions.length + s'.work ≤ s.work := by
  induction actions generalizing s with
  | nil =>
      obtain rfl := Option.some.inj h
      exact Nat.le_of_eq (Nat.zero_add _)
  | cons a actions ih =>
      obtain ⟨s₁, hstep, hrest⟩ := Option.bind_eq_some_iff.mp h
      have hlt := work_step hsent hordered hseen hstep
      have hle := ih (ordered_step hordered hstep) (seen_step hraises hseen hstep) hrest
      rw [List.length_cons]
      omega

/-! ## What is received -/

/-- The line does not fall idle between the last look of the timeout handler and the clearing of its request. -/
def InTime (s : State) (a : Action) : Prop :=
  a = .idle → ∀ frame, s.handler = some frame → frame.pc ≠ .tmoClear

instance (s : State) (a : Action) : Decidable (InTime s a) :=
  inferInstanceAs (Decidable (a = .idle → ∀ frame ∈ s.handler, frame.pc ≠ .tmoClear))

/-- There is always something that will look at the bytes in the FIFO. -/
def Awake (s : State) : Prop :=
  s.fifo ≠ [] → s.received.length = receivedSize ∨ s.rx = true ∨ s.armed = true ∨
    (s.tmo = true ∧ ∀ frame, s.handler = some frame → frame.pc ≠ .tmoClear) ∨
    ∃ frame, s.handler = some frame ∧ (frame.pc.InRx = true ∨ frame.pc = .tmoLoop ∨ frame.pc = .tmoRead)

theorem awake_irqHandler {s : State} {frame : Frame} (hframe : s.handler = some frame) (hseen : Seen s)
    (hs : Awake s) : Awake (irqHandler s frame) := by
  obtain ⟨pc, drained⟩ := frame
  cases pc with
  | rxLoop =>
      simp only [irqHandler]
      split_ifs <;> exact fun _ => .inr (.inr (.inr (.inr ⟨_, rfl, .inl rfl⟩)))
  | rxRead => exact fun _ => .inr (.inr (.inr (.inr ⟨_, rfl, .inl rfl⟩)))
  | rxClear => exact fun _ => .inr (.inr (.inr (.inr ⟨_, rfl, .inl rfl⟩)))
  | rxCheck =>
      simp only [irqHandler]
      split_ifs with hne
      · exact fun _ => .inr (.inr (.inr (.inr ⟨_, rfl, .inl rfl⟩)))
      · exact fun hfifo => absurd hfifo hne
  | rxSet => exact fun _ => .inr (.inl rfl)
  | tmoLoop =>
      simp only [irqHandler]
      split_ifs with hdrains
      · exact fun _ => .inr (.inr (.inr (.inr ⟨_, rfl, .inr (.inr rfl)⟩)))
      · refine fun hfifo => .inl (Nat.le_antisymm hseen.room (Nat.not_lt.mp fun hlt => ?_))
        exact hdrains ((drains_iff s).mpr ⟨hlt, hfifo⟩)
  | tmoRead => exact fun _ => .inr (.inr (.inr (.inr ⟨_, rfl, .inr (.inl rfl)⟩)))
  | tmoClear =>
      intro hfifo
      rcases hs hfifo with hfull | hrx | harmed | ⟨-, hpc⟩ | ⟨frame, h, hpc⟩
      · exact .inl hfull
      · exact .inr (.inl hrx)
      · exact .inr (.inr (.inl harmed))
      · exact absurd rfl (hpc _ hframe)
      · obtain rfl := Option.some.inj (hframe.symm.trans h)
        simp [Pc.InRx] at hpc
  | ack =>
      intro hfifo
      rcases hs hfifo with hfull | hrx | harmed | ⟨htmo, -⟩ | ⟨frame, h, hpc⟩
      · exact .inl hfull
      · exact .inr (.inl hrx)
      · exact .inr (.inr (.inl harmed))
      · exact .inr (.inr (.inr (.inl ⟨htmo, fun _ h => (Option.some_ne_none _ h.symm).elim⟩)))
      · obtain rfl := Option.some.inj (hframe.symm.trans h)
        simp [Pc.InRx] at hpc

theorem awake_step {raises : Nat → Bool} {a : Action} {s s' : State} (hseen : Seen s) (hs : Awake s)
    (ha : InTime s a) (h : step raises a s = some s') : Awake s' := by
  obtain ⟨b, line, -, hline, -, rfl⟩ | ⟨b, line, -, hline, -, rfl⟩ | ⟨rfl, harmed, rfl⟩ | ⟨-, hrx, hnone, rfl⟩ |
    ⟨-, htmo, hnone, rfl⟩ | ⟨frame, -, hframe, rfl⟩ := step_cases h
  · exact fun _ => .inr (.inr (.inl rfl))
  · exact fun _ => .inr (.inr (.inl rfl))
  · exact fun _ => .inr (.inr (.inr (.inl ⟨rfl, ha rfl⟩)))
  · exact fun _ => .inr (.inl hrx)
  · exact fun _ => .inr (.inr (.inr (.inr ⟨_, rfl, .inr (.inl rfl)⟩)))
  · exact awake_irqHandler hframe hseen hs

theorem quiet_of_stuck {raises : Nat → Bool} {s : State} (hstuck : ∀ a, InTime s a → step raises a s = none) :
    s.handler = none ∧ s.rx = false ∧ s.tmo = false ∧ s.line = [] ∧ s.armed = false := by
  have hnone : s.handler = none := Option.map_eq_none_iff.mp (hstuck .handler nofun)
  have hrx := hstuck .rxIrq nofun
  have htmo := hstuck .tmoIrq nofun
  have hidle := hstuck .idle fun _ frame hframe => (Option.some_ne_none _ (hframe.symm.trans hnone)).elim
  have hline : s.line = [] := by
    cases hline : s.line with
    | nil => rfl
    | cons b line =>
        have harrive := hstuck .arrive nofun
        simp only [step, hline] at harrive
        split_ifs at harrive
  simp only [step, hnone, and_true, ite_eq_right_iff, reduceCtorEq, imp_false, Bool.not_eq_true] at hrx htmo hidle
  exact ⟨hnone, hrx, htmo, hline, hidle⟩

/-- **The receiver keeps the bytes.** In every run, however the line and the interrupts fall between the
    statements of the handlers: what is in `received`, in the FIFO and still to arrive is what was sent, in its
    order, and all of it unless a byte found the FIFO full; and while no handler runs, a FIFO at the trigger
    level has its request set, though the handler takes two bytes at most and clears the request behind them. -/
theorem irqHandler_keeps (raises : Nat → Bool) (hraises : raises triggerLevel = true) (sent : List UInt8) {s : State}
    (h : Reachable (step raises) (fun _ _ => True) (State.start sent) s) :
    (s.received ++ s.fifo ++ s.line).Sublist sent ∧
      (s.overrun = false → s.received ++ s.fifo ++ s.line = sent) ∧
      s.received.length ≤ receivedSize ∧
      (s.handler = none → triggerLevel ≤ s.fifo.length → s.rx = true) := by
  have hordered : Ordered sent s :=
    h.invariant (ordered_start sent) fun _ _ _ hs _ hstep => ordered_step hs hstep
  have hseen : Seen s := h.invariant (seen_start sent) fun _ _ _ hs _ hstep => seen_step hraises hs hstep
  refine ⟨hordered.sublist, hordered.complete, hseen.room, fun hnone hlevel => ?_⟩
  refine (hseen.level hlevel).resolve_right fun ⟨frame, hframe, _⟩ => ?_
  rw [hnone] at hframe
  cases hframe

/-- **All bytes are received.** A message that fits into `received` costs at most thirty steps a byte, so no
    request keeps setting itself for ever. And if the line is not found idle between the last look of the timeout
    handler and the clearing of its request, a run that cannot go on has received the whole message unless a byte
    found the FIFO full. -/
theorem irqHandler_receives (raises : Nat → Bool) (hraises : raises triggerLevel = true) (sent : List UInt8)
    (hsent : sent.length ≤ receivedSize) :
    (∀ actions s, run (step raises) actions (State.start sent) = some s → actions.length ≤ 30 * sent.length) ∧
      ∀ s, Reachable (step raises) InTime (State.start sent) s →
        (∀ a, InTime s a → step raises a s = none) → s.overrun = false → s.received = sent := by
  refine ⟨fun actions s hrun => ?_, fun s h hstuck hoverrun => ?_⟩
  · have hwork := work_run hraises hsent actions (ordered_start sent) (seen_start sent) hrun
    have hstart : (State.start sent).work = 30 * sent.length := rfl
    omega
  · have hinv : Ordered sent s ∧ Seen s ∧ Awake s := by
      have hawake : Awake (State.start sent) := fun hne => absurd rfl hne
      refine h.invariant (P := fun s => Ordered sent s ∧ Seen s ∧ Awake s)
        ⟨ordered_start sent, seen_start sent, hawake⟩ ?_
      rintro s a s' ⟨hordered, hseen, hawake⟩ ha hstep
      exact ⟨ordered_step hordered hstep, seen_step hraises hseen hstep, awake_step hseen hawake ha hstep⟩
    obtain ⟨hordered, -, hawake⟩ := hinv
    obtain ⟨hnone, hrx, htmo, hline, harmed⟩ := quiet_of_stuck hstuck
    have hfifo : s.fifo = [] := by
      by_contra hne
      rcases hawake hne with hfull | h | h | ⟨h, -⟩ | ⟨frame, hframe, -⟩
      · exact hne (fifo_eq_nil hsent hordered hfull)
      · exact Bool.false_ne_true (hrx.symm.trans h)
      · exact Bool.false_ne_true (harmed.symm.trans h)
      · exact Bool.false_ne_true (htmo.symm.trans h)
      · exact Option.some_ne_none _ (hframe.symm.trans hnone)
    have hcontents := hordered.complete hoverrun
    rw [State.contents, hfifo, hline, List.append_nil, List.append_nil] at hcontents
    exact hcontents

/-- Eight bytes with a request at the trigger level: the handler takes two, clears the request with six bytes left
    and sets it again. -/
theorem irqHandler_keeps_retrigger : ∃ actions s,
    run (step (· == triggerLevel)) actions (State.start [0x30, 0x31, 0x32, 0x33, 0x34, 0x35, 0x36, 0x37]) = some s ∧
      s.softwareRetriggers = 1 ∧ s.fifo.length = 6 ∧ s.rx = true := by
  let actions := List.replicate 8 Action.arrive ++ [.rxIrq] ++ List.replicate 9 .handler
  refine ⟨actions, _, rfl, rfl, rfl, ?_⟩
  exact (irqHandler_keeps (· == triggerLevel) rfl [0x30, 0x31, 0x32, 0x33, 0x34, 0x35, 0x36, 0x37]
    (reachable_of_run actions .init rfl)).2.2.2 rfl (by decide)

/-- Five bytes: the handler sets its request twice, the last byte is left to the other handler, and the run cannot
    go on. -/
theorem irqHandler_receives_five : ∃ actions s,
    run (step (· == triggerLevel)) actions (State.start [0x30, 0x31, 0x32, 0x33, 0x34]) = some s ∧
      actions.length ≤ 150 ∧ s.softwareRetriggers = 2 ∧ s.timeoutBytes = 1 ∧
      s.received = [0x30, 0x31, 0x32, 0x33, 0x34] := by
  let drained := Action.rxIrq :: List.replicate 9 .handler
  let actions := List.replicate 5 Action.arrive ++ drained ++ drained ++ [.idle, .tmoIrq] ++
    List.replicate 5 .handler ++ [.rxIrq] ++ List.replicate 4 .handler
  obtain ⟨hlength, hreceived⟩ :=
    irqHandler_receives (· == triggerLevel) rfl [0x30, 0x31, 0x32, 0x33, 0x34] (by decide)
  refine ⟨actions, _, rfl, hlength actions _ rfl, rfl, rfl, hreceived _ (reachable_of_run actions .init rfl) ?_ rfl⟩
  intro a _
  cases a <;> rfl

end Pmb887x.Usart.IrqRx
