import Pmb887x.Library.Driver
import Pmb887x.Library.Bytes

set_option autoImplicit false

/-! # The SIM reader (`apps/sim-reader/main.c`)

The reader is a program over its registers, its static data and the input it has got so far: the
bytes of the host, the events of the card and the results of the supply switch. A store outside a
buffer is a fault. Delays and the watchdog have no effect on any of this and are left out; how long
a wait takes is up to the environment, which decides whether it ends with a byte, an error or the
timeout. A loop of the source that can go on for ever takes at least one input in each pass, so it
recurses over the input that is left. -/

namespace Pmb887x.SimReader

open Library

/-! ## Constants -/

def simDefaultBrf : Nat := 0x5D
def simMaxAtrSize : Nat := 64
def simMaxDataSize : Nat := 256
def simStatusSize : Nat := 2
def simHeaderSize : Nat := 5
def simHeaderIns : Nat := 1
def simHeaderP3 : Nat := 4
def simNullByte : UInt8 := 0x60
def simPpss : UInt8 := 0xFF
def simDefaultFidi : UInt8 := 0x11
def simClocksPerBrfEtu : Nat := 4

def serialSync : UInt8 := 0x03
def serialAck : UInt8 := 0x06
def serialNak : UInt8 := 0x15

def ccidHeaderSize : Nat := 10
def ccidMaxDataSize : Nat := 261
def ccidOffsetType : Nat := 0
def ccidOffsetLength : Nat := 1
def ccidOffsetSlot : Nat := 5
def ccidOffsetSeq : Nat := 6
def ccidOffsetError : Nat := 8
def ccidOffsetProtocol : Nat := 7

def pcToRdrSetParameters : UInt8 := 0x61
def pcToRdrIccPowerOn : UInt8 := 0x62
def pcToRdrIccPowerOff : UInt8 := 0x63
def pcToRdrGetSlotStatus : UInt8 := 0x65
def pcToRdrEscape : UInt8 := 0x6B
def pcToRdrGetParameters : UInt8 := 0x6C
def pcToRdrResetParameters : UInt8 := 0x6D
def pcToRdrXfrBlock : UInt8 := 0x6F
def rdrToPcDataBlock : UInt8 := 0x80
def rdrToPcSlotStatus : UInt8 := 0x81
def rdrToPcParameters : UInt8 := 0x82
def rdrToPcEscape : UInt8 := 0x83

def ccidIccActive : UInt8 := 0x00
def ccidIccInactive : UInt8 := 0x01
def ccidCommandFailed : UInt8 := 0x40
def ccidErrorCmdNotSupported : UInt8 := 0x00
def ccidErrorBadFidi : UInt8 := 10
def ccidErrorHwError : UInt8 := 0xFB
def ccidErrorIccMute : UInt8 := 0xFE
def ccidT0ParametersSize : Nat := 5
def ccidT0Fidi : Nat := 0

def escapeGetFirmware : UInt8 := 0x02
def escapePowerOff : UInt8 := 0xF0

/-- `SIM_CON` bits -/
def simConSimiol : Nat := 1 <<< 2
def simConSimen : Nat := 1 <<< 3
def simConSimvcc : Nat := 1 <<< 4
def simConSimrst : Nat := 1 <<< 5
def simConErroff : Nat := 1 <<< 6
def simConSimon : Nat := 1 <<< 10
def simConUarton : Nat := 1 <<< 13

/-- `SIM_IRQEN` bits -/
def simIrqenEnokint : Nat := 1 <<< 0
def simIrqenEnpar : Nat := 1 <<< 1
def simIrqenEnovr : Nat := 1 <<< 2

def fiClocksPerEtu : List Nat :=
  [372, 372, 558, 744, 1116, 1488, 1860, 0, 0, 512, 768, 1024, 1536, 2048, 0, 0]

def diDivisors : List Nat := [0, 1, 2, 4, 8, 16, 32, 64, 12, 20, 0, 0, 0, 0, 0, 0]

def defaultT0Parameters : List UInt8 := [simDefaultFidi, 0, 0, 0x0A, 0]

def firmware : List UInt8 := "PMB887X SIM reader".toList.map (fun c => UInt8.ofNat c.toNat)

/-! ## The reader and its surroundings -/

/-- The registers and the data that say in which state the slot is. -/
structure Reader where
  con : Nat
  brf : Nat
  irqen : Nat
  imsc : Nat
  t0Parameters : List UInt8
  iccActive : Bool
  deriving DecidableEq

/-- How a wait for the card ends. -/
inductive CardEvent where
  | ok (rxb : UInt8)
  | error
  | timeout
  deriving DecidableEq

/-- The static buffers. -/
inductive Buffer where
  | atr
  | response
  deriving DecidableEq

def Buffer.size : Buffer → Nat
  | .atr => simMaxAtrSize
  | .response => simMaxDataSize + simStatusSize

/-- A store outside a buffer. -/
structure Overrun where
  buffer : Buffer
  index : Nat
  deriving DecidableEq

/-- Input that has come but has not been taken yet. -/
structure Input where
  host : List UInt8
  card : List CardEvent
  supply : List Bool

structure World where
  reader : Reader
  rxb : UInt8
  buffers : Buffer → Nat → UInt8
  input : Input
  /-- what has been sent to the host and to the card -/
  toHost : List UInt8
  toCard : List UInt8

abbrev Sim := Driver World Overrun

/-- A CCID message; `size` is the length of `data`. -/
structure Message where
  header : List UInt8
  data : List UInt8
  deriving DecidableEq

def Message.byte (m : Message) (i : Nat) : UInt8 := m.header.getD i 0

/-! ## Registers -/

def setReader (f : Reader → Reader) : Sim Unit :=
  Driver.modify (fun w => { w with reader := f w.reader })

def setCon (value : Nat) : Sim Unit := setReader (fun r => { r with con := value })

/-- `SIM_CON |= bits` -/
def orCon (bits : Nat) : Sim Unit := setReader (fun r => { r with con := r.con ||| bits })

def setBrf (value : Nat) : Sim Unit := setReader (fun r => { r with brf := value })

def setIrqen (value : Nat) : Sim Unit := setReader (fun r => { r with irqen := value })

/-- `buffer[index] = value` -/
def storeByte (buffer : Buffer) (index : Nat) (value : UInt8) : Sim Unit :=
  if index < buffer.size then
    Driver.modify (fun w => { w with
      buffers := Function.update w.buffers buffer
        (Function.update (w.buffers buffer) index value) })
  else Driver.fault ⟨buffer, index⟩

/-- The first `size` bytes of a buffer. -/
def bufferBytes (w : World) (buffer : Buffer) (size : Nat) : List UInt8 :=
  (List.range size).map (w.buffers buffer)

/-! ## The card -/

/-- `sim_wait_ok`: the next event of the card, with the byte left in `SIM_RXB`. -/
def simWaitOk : Sim Bool := do
  let w ← Driver.get
  match w.input.card with
  | [] => Driver.wait
  | .ok rxb :: rest => do
      Driver.modify (fun w => { w with rxb, input := { w.input with card := rest } })
      pure true
  | .error :: rest | .timeout :: rest => do
      Driver.modify (fun w => { w with input := { w.input with card := rest } })
      pure false

def simSendByte (value : UInt8) : Sim Bool := do
  Driver.modify (fun w => { w with toCard := w.toCard ++ [value] })
  simWaitOk

/-- `sim_receive_byte`; `none` stands for `false`. -/
def simReceiveByte : Sim (Option UInt8) := do
  let ok ← simWaitOk
  if ok then do
    let w ← Driver.get
    pure (some w.rxb)
  else pure none

/-- `sim_supply_set`: whether the supply could be switched. -/
def simSupplySet (_enabled : Bool) : Sim Bool := do
  let w ← Driver.get
  match w.input.supply with
  | [] => Driver.wait
  | ok :: rest => do
      Driver.modify (fun w => { w with input := { w.input with supply := rest } })
      pure ok

def simPowerOff : Sim Unit := do
  setCon 0
  setIrqen 0
  let _ ← simSupplySet false
  pure ()

/-- The ATR loop of `sim_power_on`. -/
def simReadAtr (size : Nat) : Sim Nat :=
  if size < simMaxAtrSize then do
    let received ← simReceiveByte
    match received with
    | none => pure size
    | some value => do
        storeByte .atr size value
        simReadAtr (size + 1)
  else pure size
termination_by simMaxAtrSize - size

def simPowerOn : Sim Nat := do
  simPowerOff
  setBrf simDefaultBrf
  setIrqen (simIrqenEnokint ||| simIrqenEnpar ||| simIrqenEnovr)
  setReader (fun r => { r with imsc := 0 })
  setCon simConSimen
  let supplied ← simSupplySet true
  if !supplied then pure 0
  else do
    orCon simConSimvcc
    orCon (simConSimiol ||| simConErroff)
    orCon simConSimon
    orCon simConUarton
    orCon simConSimrst
    simReadAtr 0

/-- The loop of `sim_receive_procedure`, over the events that are left. -/
def simReceiveProcedureLoop : Nat → Sim (Option UInt8)
  | 0 => Driver.wait
  | n + 1 => do
      let received ← simReceiveByte
      match received with
      | none => pure none
      | some value => if value = simNullByte then simReceiveProcedureLoop n else pure (some value)

def simReceiveProcedure : Sim (Option UInt8) := do
  let w ← Driver.get
  simReceiveProcedureLoop w.input.card.length

def simHeaderToDataSize (header : List UInt8) : Nat :=
  if header.getD simHeaderP3 0 ≠ 0 then (header.getD simHeaderP3 0).toNat else simMaxDataSize

/-- Send the bytes one by one; `false` at the first that fails. -/
def simSendBytes : List UInt8 → Sim Bool
  | [] => pure true
  | b :: rest => do
      let sent ← simSendByte b
      if !sent then pure false else simSendBytes rest

/-- The chunk loop of `sim_exchange_tpdu`, with `chunk` bytes to go: the new `transferred` and
    `*response_size`, or `none` for `return false`. -/
def simTransferChunk (txData : Option (List UInt8)) :
    Nat → Nat → Nat → Sim (Option (Nat × Nat))
  | 0, transferred, responseSize => pure (some (transferred, responseSize))
  | chunk + 1, transferred, responseSize =>
      match txData with
      | some data => do
          let sent ← simSendByte (data.getD transferred 0)
          if !sent then pure none
          else simTransferChunk txData chunk (transferred + 1) responseSize
      | none => do
          let received ← simReceiveByte
          match received with
          | none => pure none
          | some value => do
              storeByte .response responseSize value
              simTransferChunk txData chunk (transferred + 1) (responseSize + 1)

/-- `chunk`, for a procedure byte that asks for data -/
def simChunk (ins procedure : UInt8) (size transferred : Nat) : Option Nat :=
  if procedure = ins then some (sub32 size transferred)
  else if procedure = ~~~ins then some (if transferred < size then 1 else 0)
  else none

/-- The `while (true)` loop of `sim_exchange_tpdu`, over the events that are left; the result is
    `*response_size`, or `none` for `return false`. -/
def simExchangeLoop (ins : UInt8) (txData : Option (List UInt8)) (size : Nat) :
    Nat → Nat → Nat → Sim (Option Nat)
  | 0, _, _ => Driver.wait
  | n + 1, transferred, responseSize => do
      let received ← simReceiveProcedure
      match received with
      | none => pure none
      | some procedure =>
          match simChunk ins procedure size transferred with
          | some chunk => do
              let moved ← simTransferChunk txData chunk transferred responseSize
              match moved with
              | none => pure none
              | some (transferred, responseSize) =>
                  simExchangeLoop ins txData size n transferred responseSize
          | none => do
              storeByte .response responseSize procedure
              let last ← simReceiveByte
              match last with
              | none => pure none
              | some value => do
                  storeByte .response (responseSize + 1) value
                  pure (some (responseSize + 2))

/-- `sim_exchange_tpdu` -/
def simExchangeTpdu (tpdu : List UInt8) : Sim (Option Nat) := do
  let ins := tpdu.getD simHeaderIns 0
  let txData := if tpdu.length > simHeaderSize then some (tpdu.drop simHeaderSize) else none
  let size := if tpdu.length > simHeaderSize then tpdu.length - simHeaderSize
    else simHeaderToDataSize tpdu
  let sent ← simSendBytes (tpdu.take simHeaderSize)
  if !sent then pure none
  else do
    let w ← Driver.get
    simExchangeLoop ins txData size w.input.card.length 0 0

/-- The receive loop of `sim_exchange_pps`, from index `i` on. -/
def simReceivePps (size i : Nat) : Sim Bool :=
  if i < size then do
    let received ← simReceiveByte
    match received with
    | none => pure false
    | some value => do
        storeByte .response i value
        simReceivePps size (i + 1)
  else pure true
termination_by size - i

def simExchangePps (request : List UInt8) : Sim Bool := do
  let sent ← simSendBytes request
  if !sent then pure false else simReceivePps request.length 0

def simFidiToBrf (fidi : UInt8) : Nat :=
  let divisor := diDivisors.getD (fidi.toNat % 16) 0
  if divisor = 0 then 0
  else fiClocksPerEtu.getD (fidi.toNat / 16) 0 / divisor / simClocksPerBrfEtu

/-! ## The host -/

def hostReadByte : Sim UInt8 := do
  let w ← Driver.get
  match w.input.host with
  | [] => Driver.wait
  | b :: rest => do
      Driver.modify (fun w => { w with input := { w.input with host := rest } })
      pure b

def hostReadBytes : Nat → Sim (List UInt8)
  | 0 => pure []
  | n + 1 => do
      let b ← hostReadByte
      let rest ← hostReadBytes n
      pure (b :: rest)

def hostWrite (bytes : List UInt8) : Sim Unit :=
  Driver.modify (fun w => { w with toHost := w.toHost ++ bytes })

/-- `lrc ^= b` for each byte -/
def lrcOf (lrc : UInt8) (bytes : List UInt8) : UInt8 := bytes.foldl (· ^^^ ·) lrc

/-- A frame as `host_write_frame` sends it. -/
def hostFrame (header data : List UInt8) : List UInt8 :=
  [serialSync, serialAck] ++ header ++ data
    ++ [lrcOf (lrcOf (serialSync ^^^ serialAck) header) data]

def hostWriteFrame (header data : List UInt8) : Sim Unit := hostWrite (hostFrame header data)

def hostWriteNak : Sim Unit := hostWrite [serialSync, serialNak, serialSync ^^^ serialNak]

/-- `while (host_read_byte() != SERIAL_SYNC)`, over the bytes that are left. -/
def hostAwaitSync : Nat → Sim Unit
  | 0 => Driver.wait
  | n + 1 => do
      let b ← hostReadByte
      if b ≠ serialSync then hostAwaitSync n else pure ()

/-- `host_read_message`; `none` stands for `false`. -/
def hostReadMessage : Sim (Option Message) := do
  let w ← Driver.get
  hostAwaitSync w.input.host.length
  let second ← hostReadByte
  if second ≠ serialAck then pure none
  else do
    let header ← hostReadBytes ccidHeaderSize
    let size := ofLeBytes ((header.drop ccidOffsetLength).take 4)
    if size > ccidMaxDataSize then pure none
    else do
      let data ← hostReadBytes size
      let last ← hostReadByte
      if last = lrcOf (lrcOf (serialSync ^^^ serialAck) header) data then
        pure (some { header, data })
      else pure none

def hostEchoMessage (m : Message) : Sim Unit := hostWriteFrame m.header m.data

/-- The header of a reply. -/
def replyHeader (request : Message) (type : UInt8) (active failed : Bool) (error specific : UInt8)
    (size : Nat) : List UInt8 :=
  let status := if active then ccidIccActive else ccidIccInactive
  [type, UInt8.ofNat size, UInt8.ofNat (size >>> 8), 0, 0, request.byte ccidOffsetSlot,
    request.byte ccidOffsetSeq, if failed then status ||| ccidCommandFailed else status, error,
    specific]

def hostReply (request : Message) (type : UInt8) (failed : Bool) (error specific : UInt8)
    (data : List UInt8) : Sim Unit := do
  let w ← Driver.get
  hostWriteFrame (replyHeader request type w.reader.iccActive failed error specific data.length)
    data

def hostReplySlotStatus (request : Message) (failed : Bool) (error : UInt8) : Sim Unit :=
  hostReply request rdrToPcSlotStatus failed error 0 []

def hostReplyParameters (request : Message) (failed : Bool) (error : UInt8) : Sim Unit := do
  let w ← Driver.get
  hostReply request rdrToPcParameters failed error 0 w.reader.t0Parameters

/-! ## Handlers -/

def t0ParametersReset : Sim Unit := do
  setReader (fun r => { r with t0Parameters := defaultT0Parameters })
  setBrf simDefaultBrf

def hostHandlePowerOn (request : Message) : Sim Unit := do
  t0ParametersReset
  let size ← simPowerOn
  setReader (fun r => { r with iccActive := decide (size ≠ 0) })
  if size = 0 then hostReply request rdrToPcDataBlock true ccidErrorIccMute 0 []
  else do
    let w ← Driver.get
    hostReply request rdrToPcDataBlock false 0 0 (bufferBytes w .atr size)

def hostHandlePowerOff (request : Message) : Sim Unit := do
  simPowerOff
  setReader (fun r => { r with iccActive := false })
  hostReplySlotStatus request false 0

/-- `is_pps` -/
def Message.isPps (m : Message) : Bool := decide (m.data.length ≠ 0 ∧ m.data.getD 0 0 = simPpss)

/-- The exchange of `host_handle_xfr_block`: the size of the response, or `none`. -/
def hostExchange (request : Message) : Sim (Option Nat) :=
  if request.isPps then do
    let exchanged ← simExchangePps request.data
    pure (if exchanged then some request.data.length else none)
  else simExchangeTpdu request.data

def hostHandleXfrBlock (request : Message) : Sim Unit := do
  let w ← Driver.get
  if !w.reader.iccActive || (!request.isPps && decide (request.data.length < simHeaderSize)) then
    hostReply request rdrToPcDataBlock true ccidErrorHwError 0 []
  else do
    let exchanged ← hostExchange request
    match exchanged with
    | none => hostReply request rdrToPcDataBlock true ccidErrorIccMute 0 []
    | some size => do
        let w ← Driver.get
        hostReply request rdrToPcDataBlock false 0 0 (bufferBytes w .response size)

def hostHandleSetParameters (request : Message) : Sim Unit := do
  let isT0 := decide (request.byte ccidOffsetProtocol = 0 ∧
    request.data.length = ccidT0ParametersSize)
  let brf := if isT0 then simFidiToBrf (request.data.getD ccidT0Fidi 0) else 0
  if brf = 0 then hostReplyParameters request true ccidErrorBadFidi
  else do
    setReader (fun r => { r with t0Parameters := request.data.take ccidT0ParametersSize })
    setBrf brf
    hostReplyParameters request false 0

/-- `phone_power_off` does not return. -/
def phonePowerOff : Sim Unit := do
  simPowerOff
  Driver.wait

def hostHandleEscape (request : Message) : Sim Unit := do
  let command := if request.data.length ≠ 0 then request.data.getD 0 0 else 0
  if command = escapeGetFirmware then hostReply request rdrToPcEscape false 0 0 firmware
  else do
    hostReply request rdrToPcEscape false 0 0 []
    if command = escapePowerOff then phonePowerOff else pure ()

def hostHandleMessage (request : Message) : Sim Unit :=
  let type := request.byte ccidOffsetType
  if type = pcToRdrIccPowerOn then hostHandlePowerOn request
  else if type = pcToRdrIccPowerOff then hostHandlePowerOff request
  else if type = pcToRdrGetSlotStatus then hostReplySlotStatus request false 0
  else if type = pcToRdrXfrBlock then hostHandleXfrBlock request
  else if type = pcToRdrGetParameters then hostReplyParameters request false 0
  else if type = pcToRdrResetParameters then do
    t0ParametersReset
    hostReplyParameters request false 0
  else if type = pcToRdrSetParameters then hostHandleSetParameters request
  else if type = pcToRdrEscape then hostHandleEscape request
  else hostReplySlotStatus request true ccidErrorCmdNotSupported

/-- One pass of the loop of `main`. -/
def mainRound : Sim Unit := do
  let request ← hostReadMessage
  match request with
  | none => hostWriteNak
  | some request => do
      hostEchoMessage request
      hostHandleMessage request

/-- What `main` does before its loop. -/
def mainStart : Sim Unit := do
  t0ParametersReset
  hostWrite ("SIM reader ready\n".toList.map (fun c => UInt8.ofNat c.toNat))
  hostWrite [0]

/-! ## Runs -/

/-- New input from outside; what was sent is taken away. -/
def World.feed (w : World) (input : Input) : World := { w with input, toHost := [], toCard := [] }

/-- The states in which the main loop starts a pass, over all runs whose passes are of the kind `P`;
    `start` is the state at power-up. -/
inductive AtLoop (P : World → Prop) (start : World) : World → Prop where
  | init {w : World} (h : mainStart start = (.done (), w)) : AtLoop P start w
  | step {w w' : World} {input : Input} (h : AtLoop P start w) (hP : P (w.feed input))
      (hrun : mainRound (w.feed input) = (.done (), w')) : AtLoop P start w'

end Pmb887x.SimReader
