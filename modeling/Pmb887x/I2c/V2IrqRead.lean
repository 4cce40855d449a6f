import Pmb887x.I2c.V2Irq
import Mathlib.Tactic

set_option autoImplicit false

/-! # The bytes of an interrupt-driven read

The request interrupts store what they find in the receive FIFO, and whether the read is complete is
decided in the handlers of two interrupts. As long as no step is taken that `disturbs` the read, the
stored bytes are the first ones received, in order, and `I2C_V2_DONE` is only returned for all of
them. The last section shows a late interrupt that stores bytes after the call has returned, and a
failed transfer that is reported as done. -/

namespace Pmb887x.I2c.V2Irq

open Library

/-! ## What is received -/

/-- The byte of a received word that is stored as number `offset`. -/
def wordByte (alignment : Alignment) (value : UInt32) (offset : Nat) : UInt8 :=
  (value >>> UInt32.ofNat (offset * alignment.bytes * 8)).toUInt8

/-- The bytes on the bus that a received word holds. -/
def wordBytes (alignment : Alignment) (value : UInt32) : List UInt8 :=
  (List.range alignment.capacity).map (wordByte alignment value)

/-- The words that `read_fifo` takes out of `I2C_RXD`. -/
def wordsRead (alignment : Alignment) : List UInt32 → Nat → List UInt32
  | [], _ => []
  | value :: words, remaining =>
      if remaining = 0 then []
      else value :: wordsRead alignment words (remaining - min remaining alignment.capacity)

/-- `handle_request_irq` calls `read_fifo`. -/
def readsFifo (b : Buffers) (device : Device) : Bool :=
  b.reading && b.addressSent && !device.words.isEmpty

def Irq.isRequest : Irq → Bool
  | .singleReq => true
  | .burstReq => true
  | _ => false

/-- The words that a step takes out of `I2C_RXD`. -/
def received (config : Config) (b : Buffers) : Action → List UInt32
  | .interrupt irq device =>
      if irq.isRequest && readsFifo b device then
        wordsRead config.rxfa device.words b.remaining
      else []
  | _ => []

/-- A NACK or an error interrupt is handled. -/
def fails : Action → Bool
  | .interrupt .protocol device => device.status &&& pirqssNACK != 0
  | .interrupt .error _ => true
  | _ => false

def Foreground.isReturned : Foreground → Bool
  | .returned _ => true
  | _ => false

/-- A transfer with what has been seen of it: the words taken out of `I2C_RXD`, whether a NACK or an
error was handled while the call was active, and what was stored when it returned. -/
structure Observed where
  state : State
  words : List UInt32
  failed : Bool
  atReturn : Option (List (Nat × UInt8))

def Observed.start (s : State) : Observed := ⟨s, [], false, none⟩

/-- What is seen of a step from `o` to `s'`. -/
def Observed.next (config : Config) (a : Action) (o : Observed) (s' : State) : Observed where
  state := s'
  words := o.words ++ received config o.state.buffers a
  failed := o.failed || (!o.state.foreground.isReturned && fails a)
  atReturn :=
    if o.state.foreground.isReturned then o.atReturn
    else if s'.foreground.isReturned then some s'.buffers.stored
    else none

def observedStep (config : Config) (a : Action) (o : Observed) : Option Observed :=
  (step config a o.state).map (o.next config a)

/-! ## What disturbs a read -/

/-- A request interrupt finds received words after the call has returned without all its bytes. -/
def storesLate (s : State) (device : Device) : Bool :=
  s.foreground.isReturned && readsFifo s.buffers device && s.buffers.remaining != 0

/-- A request interrupt without flow control completes the read on a free bus after a NACK or an error
was handled. -/
def overridesFailure (config : Config) (s : State) (device : Device) : Bool :=
  !s.foreground.isReturned && readsFifo s.buffers device && !config.rxfc && device.busFree &&
    decide (s.buffers.remaining ≤ device.words.length * config.rxfa.capacity) &&
    (s.status.protocolStatus &&& pirqssNACK != 0 || s.status.errorIrqs != 0)

def disturbs (config : Config) (s : State) : Action → Bool
  | .interrupt irq device =>
      irq.isRequest && (storesLate s device || overridesFailure config s device)
  | _ => false

/-- The bytes of a read, at most `size` from `rx` on: the first of the words taken out of `I2C_RXD`, and
none after the return. `I2C_V2_DONE` stands for all of them without a failure. -/
structure ReadInOrder (config : Config) (rx size : Nat) (o : Observed) : Prop where
  consecutive : o.state.buffers.stored.map Prod.fst
    = List.range' rx o.state.buffers.stored.length
  length_le : o.state.buffers.stored.length ≤ size
  bytes : o.state.buffers.stored.map Prod.snd
    = (o.words.flatMap (wordBytes config.rxfa)).take size
  active : ∀ stored, o.atReturn = some stored → o.state.buffers.stored = stored
  done : o.state.foreground = .returned .done →
    o.state.buffers.stored.length = size ∧ o.failed = false

/-! ## `read_fifo` -/

/-- `storeBytes` stores `count` bytes from `rx` on. -/
theorem storeBytes_eq (alignment : Alignment) (value : UInt32) (count offset : Nat) (b : Buffers) :
    storeBytes alignment value count offset b =
      { b with
        rx := b.rx + count,
        stored := b.stored ++
          (List.range' b.rx count).zip ((List.range' offset count).map (wordByte alignment value)) } := by
  induction count generalizing offset b with
  | zero => simp [storeBytes]
  | succ count ih =>
      rw [storeBytes, ih, List.range'_succ, List.range'_succ, List.map_cons, List.zip_cons_cons,
        List.append_assoc, List.singleton_append, wordByte, Nat.add_right_comm b.rx 1 count]
      rfl

theorem storeBytes_remaining (alignment : Alignment) (value : UInt32) (count offset : Nat)
    (b : Buffers) : (storeBytes alignment value count offset b).remaining = b.remaining := by
  rw [storeBytes_eq]

theorem wordBytes_take (alignment : Alignment) (value : UInt32) {count : Nat}
    (h : count ≤ alignment.capacity) :
    (List.range' 0 count).map (wordByte alignment value)
      = (wordBytes alignment value).take count := by
  rw [wordBytes, ← List.map_take, List.take_range, Nat.min_eq_left h, List.range_eq_range']

theorem length_wordBytes (alignment : Alignment) (value : UInt32) :
    (wordBytes alignment value).length = alignment.capacity := by
  rw [wordBytes, List.length_map, List.length_range]

/-- What the buffers hold after the words `words` of a read. -/
structure Stored (alignment : Alignment) (rx size : Nat) (words : List UInt32) (b : Buffers) :
    Prop where
  reading : b.reading = true
  rx_eq : b.rx = rx + b.stored.length
  remaining_eq : b.stored.length + b.remaining = size
  consecutive : b.stored.map Prod.fst = List.range' rx b.stored.length
  bytes : b.stored.map Prod.snd = (words.flatMap (wordBytes alignment)).take size

/-- Nothing received is dropped before the read is complete. -/
theorem Stored.all {alignment : Alignment} {rx size : Nat} {words : List UInt32} {b : Buffers}
    (h : Stored alignment rx size words b) (hremaining : b.remaining ≠ 0) :
    b.stored.map Prod.snd = words.flatMap (wordBytes alignment) := by
  have hlength := congrArg List.length h.bytes
  have hsize := h.remaining_eq
  rw [List.length_map, List.length_take] at hlength
  rw [h.bytes, List.take_of_length_le]
  omega

/-- A word that is read. -/
theorem Stored.word {alignment : Alignment} {rx size : Nat} {words : List UInt32} {b : Buffers}
    (h : Stored alignment rx size words b) (hremaining : b.remaining ≠ 0) (value : UInt32)
    {count : Nat} (hcount : count = min b.remaining alignment.capacity) :
    Stored alignment rx size (words ++ [value])
      { storeBytes alignment value count 0 b with remaining := b.remaining - count } := by
  have hsize := h.remaining_eq
  have hzip : ((List.range' b.rx count).zip
      ((List.range' 0 count).map (wordByte alignment value))).length = count := by
    rw [List.length_zip, List.length_map, List.length_range', List.length_range', Nat.min_self]
  have hflat : (words.flatMap (wordBytes alignment)).length = b.stored.length := by
    rw [← h.all hremaining, List.length_map]
  rw [storeBytes_eq]
  constructor
  case reading => exact h.reading
  case rx_eq =>
    rw [List.length_append, hzip, h.rx_eq, Nat.add_assoc]
  case remaining_eq =>
    rw [List.length_append, hzip]
    change b.stored.length + count + (b.remaining - count) = size
    omega
  case consecutive =>
    rw [List.map_append, h.consecutive, List.map_fst_zip (by simp), List.length_append, hzip,
      h.rx_eq, List.range'_append_1]
  case bytes =>
    rw [List.map_append, List.map_snd_zip (by simp), wordBytes_take alignment value (by omega),
      h.all hremaining, List.flatMap_append, List.flatMap_singleton, List.take_append, hflat,
      List.take_of_length_le (l := words.flatMap _) (by omega)]
    congr 1
    rw [List.take_eq_take_iff, length_wordBytes]
    omega

/-- **`read_fifo` stores the words it reads behind those before.** -/
theorem Stored.readFifo {alignment : Alignment} {rx size : Nat} {words : List UInt32} {b : Buffers}
    (h : Stored alignment rx size words b) (filled : List UInt32) :
    Stored alignment rx size (words ++ wordsRead alignment filled b.remaining)
      (readFifo alignment filled b) := by
  induction filled generalizing words b with
  | nil =>
      rw [wordsRead, List.append_nil]
      exact h
  | cons value filled ih =>
      rw [V2Irq.readFifo, wordsRead]
      split_ifs with hremaining
      · rw [List.append_nil]
        exact h
      · have hword := ih (h.word hremaining value rfl)
        rw [List.append_assoc, List.singleton_append] at hword
        simp only [storeBytes_remaining]
        exact hword

theorem readFifo_complete (alignment : Alignment) (filled : List UInt32) {b : Buffers}
    (h : b.remaining = 0) : readFifo alignment filled b = b := by
  cases filled with
  | nil => rfl
  | cons value filled => rw [readFifo, if_pos h]

/-- The words in the FIFO complete the read if they hold the bytes that remain. -/
theorem readFifo_remaining (alignment : Alignment) (filled : List UInt32) (b : Buffers) :
    (readFifo alignment filled b).remaining = b.remaining - filled.length * alignment.capacity := by
  induction filled generalizing b with
  | nil => simp [readFifo]
  | cons value filled ih =>
      rw [readFifo, List.length_cons, Nat.succ_mul]
      split_ifs with hremaining
      · omega
      · rw [ih]
        simp only [storeBytes_remaining]
        omega

/-! ## What a step keeps -/

/-- A statement of `write_fifo` that a read reaches: it has no bytes to send. -/
def Frame.ofRead (frame : Frame) : Prop :=
  frame.pc ≠ .orByte ∧ frame.pc ≠ .decRemaining

/-- In a read `write_fifo` only sends the address. -/
theorem writeFifo_of_read (config : Config) {b : Buffers} (hreading : b.reading = true)
    {frame : Frame} (h : frame.ofRead) :
    (∃ sent txd, (writeFifo config b frame).1 = { b with addressSent := sent, txd }) ∧
      ∀ frame', (writeFifo config b frame).2 = some frame' → frame'.ofRead := by
  obtain ⟨pc, value, offset⟩ := frame
  cases pc with
  | orByte => exact absurd rfl h.1
  | decRemaining => exact absurd rfl h.2
  | loop =>
      simp only [writeFifo]
      split_ifs
      · exact ⟨⟨_, _, rfl⟩, fun frame' hframe => by cases hframe; exact ⟨nofun, nofun⟩⟩
      · exact ⟨⟨_, _, rfl⟩, fun frame' hframe => by cases hframe⟩
  | ifAddress =>
      refine ⟨⟨_, _, rfl⟩, fun frame' hframe => ?_⟩
      simp only [writeFifo, Option.some.injEq] at hframe
      subst hframe
      split_ifs
      · exact ⟨nofun, nofun⟩
      · exact ⟨nofun, nofun⟩
  | inner =>
      refine ⟨⟨_, _, rfl⟩, fun frame' hframe => ?_⟩
      simp only [writeFifo, hreading, Option.some.injEq] at hframe
      subst hframe
      exact ⟨nofun, nofun⟩
  | _ => exact ⟨⟨_, _, rfl⟩, fun frame' hframe => by cases hframe; exact ⟨nofun, nofun⟩⟩

theorem Stored.sent {alignment : Alignment} {rx size : Nat} {words : List UInt32} {b b' : Buffers}
    (h : Stored alignment rx size words b)
    (hb : ∃ sent txd, b' = { b with addressSent := sent, txd }) :
    Stored alignment rx size (words ++ []) b' := by
  obtain ⟨sent, txd, rfl⟩ := hb
  rw [List.append_nil]
  exact { h with }

/-- A bit that is set stays set when more is or-ed in. -/
theorem or_and_ne_zero {a b mask : UInt32} (h : a &&& mask ≠ 0 ∨ b &&& mask ≠ 0) :
    (a ||| b) &&& mask ≠ 0 := by
  have hdistrib : (a ||| b) &&& mask = a &&& mask ||| b &&& mask := by
    apply UInt32.eq_of_toBitVec_eq
    simp only [UInt32.toBitVec_and, UInt32.toBitVec_or]
    ext i hi
    simp only [BitVec.getElem_and, BitVec.getElem_or, Bool.and_or_distrib_right]
  rw [hdistrib, Ne, UInt32.or_eq_zero_iff, not_and_or]
  exact h

/-- A NACK or an error has left its mark in `i2c_v2_state`. -/
def Status.marked (status : Status) : Prop :=
  status.protocolStatus &&& pirqssNACK ≠ 0 ∨ status.errorIrqs ≠ 0

/-- The result of a transfer that has not returned. -/
structure ResultOk (status : Status) (remaining : Nat) (failed : Bool) : Prop where
  complete : status.result = .done → remaining = 0
  failure : failed = true → status.result = .nack ∨ status.result = .error
  marked : failed = true → status.marked

/-- **The invariant of a read.** -/
structure ReadInv (config : Config) (rx size : Nat) (o : Observed) : Prop where
  stored : Stored config.rxfa rx size o.words o.state.buffers
  foreground : ∀ frame, o.state.foreground = .fifo frame → frame.ofRead
  handler : ∀ frame, o.state.handler = some (.fifo frame) → frame.ofRead
  result : o.state.foreground.isReturned = false →
    ResultOk o.state.status o.state.buffers.remaining o.failed
  returned : o.state.foreground = .returned .done →
    o.state.buffers.remaining = 0 ∧ o.failed = false
  atReturn : o.atReturn =
    if o.state.foreground.isReturned then some o.state.buffers.stored else none

section

variable {config : Config} {rx size : Nat} {o : Observed}

theorem Stored.same {alignment : Alignment} {words : List UInt32} {b b' : Buffers}
    (h : Stored alignment rx size words b) (hb : b' = b) :
    Stored alignment rx size (words ++ []) b' := by
  rw [hb, List.append_nil]
  exact h

/-- A step in which the call does not return. -/
theorem ReadInv.next (h : ReadInv config rx size o) {a : Action} {s' : State}
    (hstored : Stored config.rxfa rx size (o.words ++ received config o.state.buffers a) s'.buffers)
    (hforeground : ∀ frame, s'.foreground = .fifo frame → frame.ofRead)
    (hhandler : ∀ frame, s'.handler = some (.fifo frame) → frame.ofRead)
    (hresult : o.state.foreground.isReturned = false →
      ResultOk s'.status s'.buffers.remaining (o.failed || fails a))
    (hkept : s'.foreground = o.state.foreground ∨
      (o.state.foreground.isReturned = false ∧ s'.foreground.isReturned = false))
    (hlate : o.state.foreground.isReturned = true →
      s'.buffers.stored = o.state.buffers.stored ∧
        s'.buffers.remaining = o.state.buffers.remaining) :
    ReadInv config rx size (o.next config a s') := by
  have hsame : s'.foreground.isReturned = o.state.foreground.isReturned := by
    rcases hkept with hsame | ⟨hbefore, hafter⟩
    · rw [hsame]
    · rw [hbefore, hafter]
  have hatReturn := h.atReturn
  constructor
  case stored => exact hstored
  case foreground => exact hforeground
  case handler => exact hhandler
  case result =>
    intro hactive
    have hbefore : o.state.foreground.isReturned = false := hsame ▸ hactive
    simp only [Observed.next, hbefore, Bool.not_false, Bool.true_and]
    exact hresult hbefore
  case returned =>
    intro hdone
    change s'.foreground = .returned .done at hdone
    have hbefore : o.state.foreground.isReturned = true := by
      rw [← hsame, hdone]
      rfl
    have hold : o.state.foreground = .returned .done := by
      rcases hkept with hsame | ⟨hactive, -⟩
      · rw [← hsame, hdone]
      · rw [hactive] at hbefore
        cases hbefore
    obtain ⟨hremaining, hfailed⟩ := h.returned hold
    simp only [Observed.next, hbefore, Bool.not_true, Bool.false_and, Bool.or_false]
    exact ⟨by rw [(hlate hbefore).2, hremaining], hfailed⟩
  case atReturn =>
    simp only [Observed.next, hsame]
    split_ifs with hreturned
    · rw [hatReturn, if_pos hreturned, (hlate hreturned).1]
    · rfl

theorem ResultOk.of_unfailed {status : Status} {remaining : Nat} {failed : Bool} {a : Action}
    (h : ResultOk status remaining failed) (ha : fails a = false) :
    ResultOk status remaining (failed || fails a) := by
  rw [ha, Bool.or_false]
  exact h

/-- The call returns. -/
theorem ReadInv.returning (h : ReadInv config rx size o) {elapsed : Bool}
    (hwait : o.state.foreground = .wait) :
    ReadInv config rx size (o.next config (.foreground elapsed)
      { o.state with foreground := .returned o.state.status.result }) := by
  have hactive : o.state.foreground.isReturned = false := by
    rw [hwait]
    rfl
  have hresult := h.result hactive
  constructor
  case stored => exact h.stored.same rfl
  case foreground => exact nofun
  case handler => exact h.handler
  case result => exact nofun
  case returned =>
    intro hdone
    have hdone : o.state.status.result = .done := by simpa [Observed.next] using hdone
    refine ⟨hresult.complete hdone, ?_⟩
    simp only [Observed.next, fails, Bool.and_false, Bool.or_false]
    cases hfailed : o.failed with
    | false => rfl
    | true =>
        -- a failure is still in the result
        rcases hresult.failure hfailed with hnack | herror
        · rw [hdone] at hnack
          cases hnack
        · rw [hdone] at herror
          cases herror
  case atReturn =>
    simp only [Observed.next, hactive]
    rfl

theorem ReadInv.foregroundStep (h : ReadInv config rx size o) (elapsed : Bool) :
    ReadInv config rx size
      (o.next config (.foreground elapsed) (foregroundStep config elapsed o.state)) := by
  unfold V2Irq.foregroundStep
  cases hforeground : o.state.foreground with
  | packetSizes =>
      have hactive : o.state.foreground.isReturned = false := by rw [hforeground]; rfl
      refine h.next (h.stored.same rfl) (fun frame hframe => ?_) h.handler
        (fun hactive => (h.result hactive).of_unfailed rfl) (.inr ⟨hactive, ?_⟩)
        (fun _ => ⟨rfl, rfl⟩)
      · simp only at hframe
        split_ifs at hframe
        cases hframe
        exact ⟨nofun, nofun⟩
      · simp only
        split_ifs
        · rfl
        · rfl
  | fifo frame =>
      have hactive : o.state.foreground.isReturned = false := by rw [hforeground]; rfl
      obtain ⟨hsent, hnext⟩ := writeFifo_of_read config h.stored.reading (h.foreground frame hforeground)
      have hremaining : (writeFifo config o.state.buffers frame).1.remaining
          = o.state.buffers.remaining := by
        obtain ⟨sent, txd, hsent⟩ := hsent
        rw [hsent]
      refine h.next (h.stored.sent hsent) (fun frame' hframe => ?_) h.handler (fun hactive => ?_)
        (.inr ⟨hactive, ?_⟩) (fun hreturned => absurd hreturned (by rw [hactive]; decide))
      · cases hreturn : (writeFifo config o.state.buffers frame).2 with
        | none => simp [hreturn] at hframe
        | some frame'' =>
            simp only [hreturn, Option.elim_some, Foreground.fifo.injEq] at hframe
            exact hframe ▸ hnext frame'' hreturn
      · rw [hremaining]
        exact (h.result hactive).of_unfailed rfl
      · cases hreturn : (writeFifo config o.state.buffers frame).2 with
        | none =>
            simp only [hreturn]
            rfl
        | some frame' =>
            simp only [hreturn]
            rfl
  | wait =>
      simp only
      split_ifs
      · exact h.next (h.stored.same rfl) h.foreground h.handler
          (fun hactive => (h.result hactive).of_unfailed rfl) (.inl rfl) (fun _ => ⟨rfl, rfl⟩)
      · exact h.returning hforeground
  | returned result =>
      exact h.next (h.stored.same rfl) h.foreground h.handler
        (fun hactive => (h.result hactive).of_unfailed rfl) (.inl rfl) (fun _ => ⟨rfl, rfl⟩)
  | _ =>
      have hactive : o.state.foreground.isReturned = false := by rw [hforeground]; rfl
      exact h.next (h.stored.same rfl) nofun h.handler
        (fun hactive => (h.result hactive).of_unfailed rfl) (.inr ⟨hactive, rfl⟩)
        (fun _ => ⟨rfl, rfl⟩)

theorem ReadInv.handlerStep (h : ReadInv config rx size o) {handler : Handler}
    (hhandler : o.state.handler = some handler) :
    ReadInv config rx size (o.next config .handler (handlerStep config o.state handler)) := by
  cases handler with
  | fifo frame =>
      obtain ⟨hsent, hnext⟩ := writeFifo_of_read config h.stored.reading (h.handler frame hhandler)
      have hstored : (writeFifo config o.state.buffers frame).1.stored = o.state.buffers.stored ∧
          (writeFifo config o.state.buffers frame).1.remaining = o.state.buffers.remaining := by
        obtain ⟨sent, txd, hsent⟩ := hsent
        rw [hsent]
        exact ⟨rfl, rfl⟩
      refine h.next (h.stored.sent hsent) h.foreground (fun frame' hframe => ?_)
        (fun hactive => ?_) (.inl rfl) (fun _ => hstored)
      · simp only [V2Irq.handlerStep] at hframe
        cases hreturn : (writeFifo config o.state.buffers frame).2 with
        | none => simp [hreturn] at hframe
        | some frame'' =>
            simp only [hreturn, Option.elim_some, Option.some.injEq, Handler.fifo.injEq] at hframe
            exact hframe ▸ hnext frame'' hreturn
      · simp only [V2Irq.handlerStep]
        rw [hstored.2]
        exact (h.result hactive).of_unfailed rfl
  | unmask =>
      exact h.next (h.stored.same rfl) h.foreground nofun
        (fun hactive => (h.result hactive).of_unfailed rfl) (.inl rfl) (fun _ => ⟨rfl, rfl⟩)
  | finish =>
      simp only [V2Irq.handlerStep]
      split_ifs
      · refine h.next (h.stored.same rfl) h.foreground nofun (fun hactive => ?_) (.inl rfl)
          (fun _ => ⟨rfl, rfl⟩)
        have hmarked := ((h.result hactive).of_unfailed (a := .handler) rfl).marked
        exact ⟨nofun, fun _ => .inr rfl, hmarked⟩
      · exact h.next (h.stored.same rfl) h.foreground nofun
          (fun hactive => (h.result hactive).of_unfailed rfl) (.inl rfl) (fun _ => ⟨rfl, rfl⟩)

/-! ### Interrupts -/

theorem ReadInv.protocol (h : ReadInv config rx size o) (device : Device) :
    ReadInv config rx size
      (o.next config (.interrupt .protocol device)
        (interruptStep config .protocol device o.state)) := by
  refine h.next (h.stored.same rfl) h.foreground nofun (fun hactive => ?_) (.inl rfl)
    (fun _ => ⟨rfl, rfl⟩)
  have hold := h.result hactive
  constructor
  case complete =>
    intro hdone
    simp only [interruptStep, handleProtocolIrq, countIrq, h.stored.reading] at hdone
    split_ifs at hdone with _ hend
    · exact hend.2.2.resolve_left nofun
    · exact hold.complete hdone
  case failure =>
    intro hfailed
    simp only [interruptStep, handleProtocolIrq]
    by_cases hnack : device.status &&& pirqssNACK ≠ 0
    · rw [if_pos hnack]
      exact .inl rfl
    · -- something has failed before, so the transfer is not pending
      have hbefore : o.failed = true := by simpa [fails, hnack] using hfailed
      have hresult := hold.failure hbefore
      rw [if_neg hnack, if_neg]
      · exact hresult
      · rintro ⟨hpending, -⟩
        change o.state.status.result = .pending at hpending
        rw [hpending] at hresult
        rcases hresult with hresult | hresult
        · cases hresult
        · cases hresult
  case marked =>
    intro hfailed
    rw [Bool.or_eq_true] at hfailed
    rcases hfailed with hbefore | hnack
    · rcases hold.marked hbefore with hprotocol | herrors
      · exact .inl (or_and_ne_zero (.inl hprotocol))
      · exact .inr herrors
    · exact .inl (or_and_ne_zero (.inr (by simpa [fails] using hnack)))

theorem ReadInv.error (h : ReadInv config rx size o) (device : Device) :
    ReadInv config rx size
      (o.next config (.interrupt .error device) (interruptStep config .error device o.state)) :=
  h.next (h.stored.same rfl) h.foreground nofun
    (fun _ => ⟨nofun, fun _ => .inr rfl, fun _ => .inr (Nat.succ_ne_zero _)⟩) (.inl rfl)
    (fun _ => ⟨rfl, rfl⟩)

/-- A request interrupt that finds received words: what it makes of the result. -/
theorem ResultOk.request {device : Device} {status : Status} {failed : Bool} {b b' : Buffers}
    (h : ResultOk status b.remaining failed)
    (hb' : b'.remaining = b.remaining - device.words.length * config.rxfa.capacity)
    (hsafe : config.rxfc = false → device.busFree = true →
      b.remaining ≤ device.words.length * config.rxfa.capacity → ¬ status.marked)
    {result : Result}
    (hresult : result =
      if (b'.remaining == 0) = true ∧ config.rxfc = false ∧ device.busFree = true then .done
      else if (b'.remaining == 0) = true ∧ status.result = .pending ∧
        status.protocolStatus &&& pirqssTXEND ≠ 0 then .done
      else status.result) {status' : Status} (hnew : status'.result = result)
    (hmarked : status.marked → status'.marked) : ResultOk status' b'.remaining failed := by
  rw [← hnew] at hresult
  constructor
  case complete =>
    intro hdone
    rw [hdone] at hresult
    split_ifs at hresult with hfree hend
    · exact beq_iff_eq.mp hfree.1
    · exact beq_iff_eq.mp hend.1
    · rw [hb', h.complete hresult.symm, Nat.zero_sub]
  case failure =>
    intro hfailed
    rw [hresult]
    split_ifs with hfree hend
    · -- the bus is free, but the failure would be overridden
      have hremaining := beq_iff_eq.mp hfree.1
      exact absurd (h.marked hfailed) (hsafe hfree.2.1 hfree.2.2 (by omega))
    · rcases h.failure hfailed with hnack | herror
      · rw [hnack] at hend
        cases hend.2.1
      · rw [herror] at hend
        cases hend.2.1
    · exact h.failure hfailed
  case marked => exact fun hfailed => hmarked (h.marked hfailed)

/-- A request interrupt that finds nothing to store. -/
theorem handleRequestIrq_idle {device : Device} {s : State} (hreading : s.buffers.reading = true)
    (hnone : readsFifo s.buffers device = false) :
    (handleRequestIrq config device s).buffers = s.buffers ∧
      (handleRequestIrq config device s).foreground = s.foreground ∧
      (∀ frame, (handleRequestIrq config device s).handler = some (.fifo frame) → frame.ofRead) ∧
      (∀ remaining failed, ResultOk s.status remaining failed →
        ResultOk (handleRequestIrq config device s).status remaining failed) := by
  rw [handleRequestIrq, if_neg]
  · split_ifs
    · refine ⟨rfl, rfl, fun frame hframe => ?_, fun _ _ h => ⟨h.1, h.2, h.3⟩⟩
      obtain rfl := Handler.fifo.inj (Option.some.inj hframe)
      exact ⟨nofun, nofun⟩
    · exact ⟨rfl, rfl, nofun, fun _ _ h => ⟨h.1, h.2, h.3⟩⟩
  · rintro ⟨-, hsent, hwords⟩
    have hreads : readsFifo s.buffers device = true := by
      simp [readsFifo, hreading, hsent, List.length_eq_zero_iff.not.mp hwords]
    rw [hnone] at hreads
    cases hreads

/-- A request interrupt of a read that it does not disturb. -/
theorem ReadInv.request (h : ReadInv config rx size o) {irq : Irq} {device : Device}
    (hirq : irq.isRequest = true)
    (hsafe : disturbs config o.state (.interrupt irq device) = false) :
    ReadInv config rx size
      (o.next config (.interrupt irq device)
        (handleRequestIrq config device { o.state with status := countIrq irq o.state.status })) := by
  have hfails : fails (.interrupt irq device) = false := by
    cases irq with
    | protocol => cases hirq
    | error => cases hirq
    | _ => rfl
  rw [disturbs, hirq, Bool.true_and, Bool.or_eq_false_iff] at hsafe
  obtain ⟨hlate, hoverride⟩ := hsafe
  cases hreads : readsFifo o.state.buffers device with
  | false =>
      obtain ⟨hbuffers, hforeground, hhandler, hresult⟩ := @handleRequestIrq_idle config device
        { o.state with status := countIrq irq o.state.status } h.stored.reading hreads
      refine h.next ?_ (fun frame hframe => h.foreground frame (by rwa [hforeground] at hframe))
        hhandler (fun hactive => ?_) (.inl hforeground) (fun _ => by rw [hbuffers]; exact ⟨rfl, rfl⟩)
      · rw [received, hirq, hreads]
        exact h.stored.same hbuffers
      · rw [hbuffers]
        have hold := h.result hactive
        exact hresult _ _ (ResultOk.of_unfailed ⟨hold.1, hold.2, hold.3⟩ hfails)
  | true =>
      have hguard : o.state.buffers.reading = true ∧ o.state.buffers.addressSent = true ∧
          device.words.length ≠ 0 := by
        simp only [readsFifo, Bool.and_eq_true, Bool.not_eq_true', List.isEmpty_eq_false_iff] at hreads
        exact ⟨hreads.1.1, hreads.1.2, fun hlength => hreads.2 (List.length_eq_zero_iff.mp hlength)⟩
      rw [handleRequestIrq, if_pos hguard]
      have hremaining := readFifo_remaining config.rxfa device.words o.state.buffers
      refine h.next ?_ h.foreground nofun (fun hactive => ?_) (.inl rfl) (fun hreturned => ?_)
      · rw [received, hirq, hreads]
        exact h.stored.readFifo device.words
      · refine ResultOk.of_unfailed (ResultOk.request (h.result hactive) hremaining
          (fun hrxfc hfree hlast hmarked => ?_) rfl rfl id) hfails
        -- the interrupt would be one of those that the run does not take
        have hmark : (o.state.status.protocolStatus &&& pirqssNACK != 0 ||
            o.state.status.errorIrqs != 0) = true := by
          rw [Bool.or_eq_true, bne_iff_ne, bne_iff_ne]
          exact hmarked
        rw [overridesFailure, hactive, hreads, hrxfc, hfree, decide_eq_true hlast, hmark] at hoverride
        cases hoverride
      · have hzero : o.state.buffers.remaining = 0 := by
          simpa [storesLate, hreturned, hreads] using hlate
        rw [readFifo_complete _ _ hzero]
        exact ⟨rfl, rfl⟩

theorem ReadInv.step (h : ReadInv config rx size o) {action : Action} {o' : Observed}
    (hsafe : disturbs config o.state action = false)
    (hstep : observedStep config action o = some o') : ReadInv config rx size o' := by
  obtain ⟨s', hs', rfl⟩ := Option.map_eq_some_iff.mp hstep
  cases action with
  | foreground elapsed =>
      obtain ⟨-, hs'⟩ := Option.ite_none_right_eq_some.mp hs'
      obtain rfl := Option.some.inj hs'
      exact h.foregroundStep elapsed
  | interrupt irq device =>
      obtain ⟨-, hs'⟩ := Option.ite_none_right_eq_some.mp hs'
      obtain rfl := Option.some.inj hs'
      cases irq with
      | singleReq => exact h.request rfl hsafe
      | burstReq => exact h.request rfl hsafe
      | protocol => exact h.protocol device
      | error => exact h.error device
  | handler =>
      obtain ⟨handler, hhandler, rfl⟩ := Option.map_eq_some_iff.mp hs'
      exact h.handlerStep hhandler

theorem ReadInv.start (config : Config) (address : UInt8) (tx rx : Nat) (size imsc : UInt32) :
    ReadInv config rx size.toNat (.start (start address tx (some rx) size imsc)) where
  stored :=
    { reading := rfl, rx_eq := rfl, remaining_eq := Nat.zero_add _, consecutive := rfl
      bytes := List.take_nil.symm }
  foreground := nofun
  handler := nofun
  result := fun _ => ⟨nofun, nofun, nofun⟩
  returned := nofun
  atReturn := rfl

theorem ReadInv.inOrder (h : ReadInv config rx size o) : ReadInOrder config rx size o := by
  have hsize := h.stored.remaining_eq
  constructor
  case consecutive => exact h.stored.consecutive
  case length_le => omega
  case bytes => exact h.stored.bytes
  case active =>
    intro stored hstored
    rw [h.atReturn] at hstored
    split_ifs at hstored
    exact Option.some.inj hstored
  case done =>
    intro hdone
    obtain ⟨hremaining, hfailed⟩ := h.returned hdone
    exact ⟨by omega, hfailed⟩

end

/-! ## The bytes -/

/-- **Where no request interrupt disturbs it, a read stores its bytes in order.** In every state of
every such run the stored bytes are the first ones received, from `rx` on, and none are stored
after the return; the call has returned `I2C_V2_DONE` only with all of them and without a NACK or
an error. -/
theorem read_inOrder (config : Config) (address : UInt8) (tx rx : Nat) (size imsc : UInt32)
    (o : Observed)
    (h : Reachable (observedStep config) (fun o a => disturbs config o.state a = false)
      (.start (start address tx (some rx) size imsc)) o) :
    ReadInOrder config rx size.toNat o :=
  (h.invariant (ReadInv.start config address tx rx size imsc)
    fun _ _ _ hi ha hs => hi.step ha hs).inOrder

/-- A FIFO of four bytes a word, with or without flow control of the received bytes. -/
def readConfig (rxfc : Bool) : Config where
  mem := fun _ => 0
  txfa := .one
  rxfa := .one
  rxfc := rxfc
  txfc := true

/-- The foreground waits, and a request interrupt has sent the address. -/
def addressed : List Action :=
  List.replicate 7 (.foreground false) ++ [.interrupt .burstReq ⟨8, [], false⟩] ++
    List.replicate 11 .handler

/-- A read of two bytes. -/
theorem read_inOrder_example : ∃ o, Reachable (observedStep (readConfig true))
    (fun o a => disturbs (readConfig true) o.state a = false)
    (.start (start 0x31 0 (some 0x20) 2 0)) o ∧ o.state.foreground = .returned .done ∧
      o.state.buffers.stored = [(0x20, 0x41), (0x21, 0x42)] ∧
      ReadInOrder (readConfig true) 0x20 2 o := by
  obtain ⟨o, ho, hdone⟩ : ∃ o, Reachable (observedStep (readConfig true))
      (fun o a => disturbs (readConfig true) o.state a = false)
      (.start (start 0x31 0 (some 0x20) 2 0)) o ∧ o.state.foreground = .returned .done ∧
        o.state.buffers.stored = [(0x20, 0x41), (0x21, 0x42)] :=
    exists_reachable_of_run
      (addressed ++ [.interrupt .burstReq ⟨8, [0x4241], false⟩, .handler,
        .interrupt .protocol ⟨pirqssTXEND, [], false⟩, .handler, .foreground false])
      (by decide +kernel)
  exact ⟨o, ho, hdone.1, hdone.2, read_inOrder (readConfig true) 0x31 0 0x20 2 0 o ho⟩

/-! ## Disturbed reads -/

/-- A word that arrives when the call has timed out is still stored through `rx`. Without flow control
the word that arrives on a free bus after an error interrupt makes the transfer done. -/
theorem read_disturbed :
    (∃ o, Reachable (observedStep (readConfig true)) (fun _ _ => True)
      (.start (start 0x31 0 (some 0x20) 1 0)) o ∧ o.state.foreground = .returned .pending ∧
      o.atReturn = some [] ∧ o.state.buffers.stored = [(0x20, 0x41)]) ∧
    (∃ o, Reachable (observedStep (readConfig false)) (fun _ _ => True)
      (.start (start 0x31 0 (some 0x20) 1 0)) o ∧ o.state.foreground = .returned .done ∧
      o.failed = true) ∧
    ¬ ∀ config o, Reachable (observedStep config) (fun _ _ => True)
      (.start (start 0x31 0 (some 0x20) 1 0)) o → ReadInOrder config 0x20 1 o := by
  have hlate : ∃ o, Reachable (observedStep (readConfig true)) (fun _ _ => True)
      (.start (start 0x31 0 (some 0x20) 1 0)) o ∧ o.state.foreground = .returned .pending ∧
      o.atReturn = some [] ∧ o.state.buffers.stored = [(0x20, 0x41)] := by
    apply exists_reachable_of_run
      (addressed ++ [.foreground true, .interrupt .burstReq ⟨8, [0x41], false⟩])
    decide +kernel
  refine ⟨hlate, ?_, fun hall => ?_⟩
  · apply exists_reachable_of_run
      (addressed ++ [.interrupt .error ⟨1, [], false⟩, .handler,
        .interrupt .burstReq ⟨8, [0x41], true⟩, .handler, .foreground false])
    decide +kernel
  · obtain ⟨o, ho, -, hreturn, hstored⟩ := hlate
    have hsame := (hall _ o ho).active [] hreturn
    rw [hstored] at hsame
    cases hsame

end Pmb887x.I2c.V2Irq
