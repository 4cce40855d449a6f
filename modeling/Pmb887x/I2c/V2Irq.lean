import Pmb887x.I2c.Buffers
import Pmb887x.Library.Machine

set_option autoImplicit false

/-! # The interrupt-driven I2C driver (`unit/i2c-v2/driver.c`)

A transfer is started by the foreground, which fills the FIFO once, and goes on in the handler of
the request interrupts; both run `write_fifo` on the same `i2c_v2_state`. The machine below executes
one statement at a time. An interrupt comes between any two statements of the foreground if it is
not masked, and its handler runs to its end before the foreground goes on. -/

namespace Pmb887x.I2c.V2Irq

open Library

/-- `TXFA` and `RXFA` of `I2C_FIFOCFG`: the bytes of the FIFO word that one byte on the bus takes. -/
inductive Alignment where
  | one
  | two
  | four
  deriving DecidableEq

/-- `alignment` -/
def Alignment.bytes : Alignment → Nat
  | .one => 1
  | .two => 2
  | .four => 4

/-- `capacity`: the bytes on the bus that a FIFO word holds. -/
def Alignment.capacity (alignment : Alignment) : Nat := 4 / alignment.bytes

/-- `I2C_FIFOCFG` and the memory, which stay the same during a transfer. -/
structure Config where
  mem : Memory
  txfa : Alignment
  rxfa : Alignment
  rxfc : Bool
  txfc : Bool

/-- `i2c_v2_result_t` -/
inductive Result where
  | pending
  | done
  | nack
  | error
  deriving DecidableEq

/-- The interrupt lines. -/
inductive Irq where
  | singleReq
  | burstReq
  | protocol
  | error
  deriving DecidableEq

def requestIrqs : UInt32 := bit 0 ||| bit 1 ||| bit 2 ||| bit 3
def errInt : UInt32 := bit 4
def pInt : UInt32 := bit 5
def transferIrqs : UInt32 := requestIrqs ||| errInt ||| pInt
def protocolIrqs : UInt32 := errInt ||| pInt

def pirqssNACK : UInt32 := bit 4
def pirqssTXEND : UInt32 := bit 5

/-- The part of `i2c_v2_state` that the two FIFO loops use, the words written to `I2C_TXD` so far, and
the bytes stored through `rx`. -/
structure Buffers where
  tx : Nat
  rx : Nat
  remaining : Nat
  address : UInt8
  addressSent : Bool
  reading : Bool
  txd : List UInt32
  stored : List (Nat × UInt8)

/-- The other fields of `i2c_v2_state`. -/
structure Status where
  result : Result
  requestIrqs : Nat
  protocolIrqs : Nat
  errorIrqs : Nat
  requestStatus : UInt32
  txRequestStatus : UInt32
  rxRequestStatus : UInt32
  protocolStatus : UInt32
  errorStatus : UInt32
  totalIrqs : Nat
  lastIrq : Option Irq

/-! ## `write_fifo` -/

/-- The statement of `write_fifo` that comes next: the conditions of its loops and of its `if`, and
the assignments in the order of the source. -/
inductive FifoPc where
  | loop
  | locals
  | ifAddress
  | valueAddress
  | sentTrue
  | offsetOne
  | inner
  | orByte
  | decRemaining
  | incOffset
  | put
  deriving DecidableEq

/-- An activation of `write_fifo` with its local variables. -/
structure Frame where
  pc : FifoPc
  value : UInt32
  offset : Nat
  deriving DecidableEq

/-- A call of `write_fifo`. -/
def Frame.call : Frame := ⟨.loop, 0, 0⟩

/-- One statement of `write_fifo`; no frame when it returns. -/
def writeFifo (config : Config) (buffers : Buffers) (frame : Frame) : Buffers × Option Frame :=
  match frame.pc with
  | .loop =>
      if buffers.addressSent = false ∨ (buffers.reading = false ∧ buffers.remaining ≠ 0) then
        (buffers, some { frame with pc := .locals })
      else (buffers, none)
  | .locals => (buffers, some ⟨.ifAddress, 0, 0⟩)
  | .ifAddress =>
      (buffers, some { frame with pc := if buffers.addressSent then .inner else .valueAddress })
  | .valueAddress =>
      (buffers, some { frame with pc := .sentTrue, value := buffers.address.toUInt32 })
  | .sentTrue => ({ buffers with addressSent := true }, some { frame with pc := .offsetOne })
  | .offsetOne => (buffers, some { frame with pc := .inner, offset := 1 })
  | .inner =>
      (buffers, some { frame with
        pc := if buffers.reading = false ∧ frame.offset < config.txfa.capacity ∧
            buffers.remaining ≠ 0 then .orByte else .put })
  | .orByte =>
      ({ buffers with tx := buffers.tx + 1 },
        some { frame with
          pc := .decRemaining,
          value := frame.value ||| (config.mem.read buffers.tx 0).toUInt32 <<<
            UInt32.ofNat (frame.offset * config.txfa.bytes * 8) })
  | .decRemaining =>
      ({ buffers with remaining := sub32 buffers.remaining 1 },
        some { frame with pc := .incOffset })
  | .incOffset => (buffers, some { frame with pc := .inner, offset := frame.offset + 1 })
  | .put =>
      ({ buffers with txd := buffers.txd ++ [frame.value] }, some { frame with pc := .loop })

/-! ## `read_fifo` -/

/-- The bytes of a received word: `*rx++ = value >> (offset * alignment * 8)`. -/
def storeBytes (alignment : Alignment) (value : UInt32) : (count offset : Nat) → Buffers → Buffers
  | 0, _, buffers => buffers
  | count + 1, offset, buffers =>
      storeBytes alignment value count (offset + 1)
        { buffers with
          rx := buffers.rx + 1,
          stored := buffers.stored ++
            [(buffers.rx, (value >>> UInt32.ofNat (offset * alignment.bytes * 8)).toUInt8)] }

/-- `read_fifo`, for the words that `I2C_RXD` gives for the filled stages. -/
def readFifo (alignment : Alignment) : List UInt32 → Buffers → Buffers
  | [], buffers => buffers
  | value :: words, buffers =>
      if buffers.remaining = 0 then buffers
      else
        let count := min buffers.remaining alignment.capacity
        let buffers := storeBytes alignment value count 0 buffers
        readFifo alignment words { buffers with remaining := buffers.remaining - count }

/-! ## The machine -/

/-- The statement of `i2c_v2_transfer_bytes_running` that comes next, after it has initialised
`i2c_v2_state`. -/
inductive Foreground where
  | icr
  | pirqsc
  | errirqsc
  | imsc
  | pirqsm
  | errirqsm
  | packetSizes
  | fifo (frame : Frame)
  | wait
  | returned (result : Result)
  deriving DecidableEq

/-- What is left of `i2c_v2_handle_irq`: an activation of `write_fifo` in `handle_request_irq`, the
`if` behind it, and the end with the count of the interrupts. -/
inductive Handler where
  | fifo (frame : Frame)
  | unmask
  | finish
  deriving DecidableEq

structure State where
  buffers : Buffers
  status : Status
  imsc : UInt32
  running : Bool
  foreground : Foreground
  handler : Option Handler

/-- What an interrupt handler reads of the controller: `I2C_RIS`, `I2C_PIRQSS` or `I2C_ERRIRQSS`, the
words in the receive FIFO, and whether the bus is free. -/
structure Device where
  status : UInt32
  words : List UInt32
  busFree : Bool

inductive Action where
  /-- the next statement of the foreground; the time for the transfer may have `elapsed` -/
  | foreground (elapsed : Bool)
  | interrupt (irq : Irq) (device : Device)
  /-- the next statement of the handler -/
  | handler

/-- `i2c_v2_transfer_bytes_running` with its first statement done; `imsc` is what the last transfer
has left in `I2C_IMSC`, `rx` the pointer of a read. -/
def start (address : UInt8) (tx : Nat) (rx : Option Nat) (size : UInt32) (imsc : UInt32) : State where
  buffers :=
    { tx, rx := rx.getD 0, remaining := size.toNat,
      address := address <<< 1 ||| (if rx.isSome then 1 else 0), addressSent := false,
      reading := rx.isSome, txd := [], stored := [] }
  status :=
    { result := .pending, requestIrqs := 0, protocolIrqs := 0, errorIrqs := 0, requestStatus := 0,
      txRequestStatus := 0, rxRequestStatus := 0, protocolStatus := 0, errorStatus := 0,
      totalIrqs := 0, lastIrq := none }
  imsc := imsc
  running := true
  foreground := .icr
  handler := none

/-- A statement of the foreground. -/
def foregroundStep (config : Config) (elapsed : Bool) (s : State) : State :=
  match s.foreground with
  | .icr => { s with foreground := .pirqsc }
  | .pirqsc => { s with foreground := .errirqsc }
  | .errirqsc => { s with foreground := .imsc }
  | .imsc => { s with foreground := .pirqsm, imsc := transferIrqs }
  | .pirqsm => { s with foreground := .errirqsm }
  | .errirqsm => { s with foreground := .packetSizes }
  | .packetSizes =>
      { s with foreground := if s.buffers.reading && config.txfc then .wait else .fifo .call }
  | .fifo frame =>
      let next := writeFifo config s.buffers frame
      { s with buffers := next.1, foreground := next.2.elim .wait .fifo }
  | .wait =>
      if s.status.result = .pending ∧ elapsed = false then s
      else { s with foreground := .returned s.status.result }
  | .returned _ => s

/-- The interrupts that `I2C_IMSC` lets through. -/
def unmasked (imsc : UInt32) : Irq → Bool
  | .singleReq => imsc &&& requestIrqs != 0
  | .burstReq => imsc &&& requestIrqs != 0
  | .protocol => imsc &&& pInt != 0
  | .error => imsc &&& errInt != 0

/-- `i2c_v2_handle_irq` up to the call of a handler. -/
def countIrq (irq : Irq) (status : Status) : Status :=
  { status with totalIrqs := status.totalIrqs + 1, lastIrq := some irq }

/-- `handle_request_irq` up to `write_fifo`, if it calls that, else up to its end. -/
def handleRequestIrq (config : Config) (device : Device) (s : State) : State :=
  let filled := device.words.length
  let status : Status :=
    { s.status with
      requestIrqs := s.status.requestIrqs + 1,
      requestStatus := s.status.requestStatus ||| device.status }
  if s.buffers.reading ∧ s.buffers.addressSent ∧ filled ≠ 0 then
    let buffers := readFifo config.rxfa device.words s.buffers
    let complete := buffers.remaining == 0
    let result : Result :=
      if complete ∧ status.result = .pending ∧ status.protocolStatus &&& pirqssTXEND ≠ 0 then .done
      else status.result
    let result : Result := if complete ∧ config.rxfc = false ∧ device.busFree then .done else result
    { s with
      buffers,
      imsc := if complete then protocolIrqs else s.imsc,
      status := { status with
        rxRequestStatus := status.rxRequestStatus ||| device.status, result },
      handler := some .finish }
  else if s.buffers.reading = false ∨ s.buffers.addressSent = false then
    { s with
      status := { status with txRequestStatus := status.txRequestStatus ||| device.status },
      handler := some (.fifo .call) }
  else { s with status, handler := some .finish }

/-- `handle_protocol_irq` -/
def handleProtocolIrq (device : Device) (buffers : Buffers) (status : Status) : Status :=
  { status with
    protocolIrqs := status.protocolIrqs + 1,
    protocolStatus := status.protocolStatus ||| device.status,
    result :=
      if device.status &&& pirqssNACK ≠ 0 then .nack
      else if status.result = .pending ∧ device.status &&& pirqssTXEND ≠ 0 ∧
        (buffers.reading = false ∨ buffers.remaining = 0) then .done
      else status.result }

/-- `handle_error_irq` -/
def handleErrorIrq (device : Device) (status : Status) : Status :=
  { status with
    errorIrqs := status.errorIrqs + 1, errorStatus := status.errorStatus ||| device.status,
    result := .error }

/-- An interrupt is taken. -/
def interruptStep (config : Config) (irq : Irq) (device : Device) (s : State) : State :=
  let status := countIrq irq s.status
  match irq with
  | .singleReq => handleRequestIrq config device { s with status }
  | .burstReq => handleRequestIrq config device { s with status }
  | .protocol =>
      { s with status := handleProtocolIrq device s.buffers status, handler := some .finish }
  | .error => { s with status := handleErrorIrq device status, handler := some .finish }

/-- A statement of the handler. -/
def handlerStep (config : Config) (s : State) : Handler → State
  | .fifo frame =>
      let next := writeFifo config s.buffers frame
      { s with buffers := next.1, handler := some (next.2.elim .unmask .fifo) }
  | .unmask =>
      { s with
        imsc := if s.buffers.addressSent ∧ s.buffers.reading = false ∧ s.buffers.remaining = 0
          then protocolIrqs else s.imsc,
        handler := some .finish }
  | .finish =>
      if s.status.totalIrqs > 100 then
        { s with
          running := false, imsc := 0, status := { s.status with result := .error },
          handler := none }
      else { s with handler := none }

/-- One step; the foreground waits for a handler, and interrupts do not nest. -/
def step (config : Config) : Action → State → Option State
  | .foreground elapsed, s =>
      if s.handler = none then some (foregroundStep config elapsed s) else none
  | .interrupt irq device, s =>
      if s.handler = none ∧ unmasked s.imsc irq then some (interruptStep config irq device s)
      else none
  | .handler, s => s.handler.map (handlerStep config s)

/-! ## Where a request interrupt does no harm -/

/-- The foreground is between the condition of the outer loop of `write_fifo` and `I2C_TXD`. -/
def Foreground.assembling : Foreground → Bool
  | .fifo frame => frame.pc != .loop
  | _ => false

/-- The foreground has nothing more to put in the FIFO. -/
def Foreground.filled : Foreground → Bool
  | .wait => true
  | .returned _ => true
  | _ => false

/-- A request interrupt does no harm unless the foreground is assembling a word and `write_fifo` would
send something: the other interrupts never do. -/
def harmless (s : State) : Action → Bool
  | .interrupt .singleReq _ =>
      !s.foreground.assembling || (s.buffers.addressSent && s.buffers.remaining == 0)
  | .interrupt .burstReq _ =>
      !s.foreground.assembling || (s.buffers.addressSent && s.buffers.remaining == 0)
  | _ => true

end Pmb887x.I2c.V2Irq
