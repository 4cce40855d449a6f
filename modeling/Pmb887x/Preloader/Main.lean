import Pmb887x.Library.Link
import Pmb887x.Library.Crc
import Pmb887x.Preloader.Lz4

set_option autoImplicit false

/-! # The preloader's command loop (`preloader/src/main.c`, `crc.c`)

Each command is a program on the serial link (`Prog`) that takes the device state and ends with the
new one. `mainRound` is one round of the `while (1)` loop of `main`: it reads a command byte and
runs the command. The two places where the C code leaves that loop are kept in `Device.control`:
the wait for a ping after a speed change, and the payload that `GOTO` calls, which is a parameter.

Serving the watchdog, flushing the transmit FIFO and synchronising the caches have no effect that
the link or the memory shows and are left out. -/

namespace Pmb887x.Preloader

open Library

/-! ## Constants -/

def dtcmAddress : Nat := 0x01002000
def lz4BlockSize : Nat := 0x00001000

def cmdPingByte : UInt8 := 0x41
def cmdInitExtramByte : UInt8 := 0x45
def cmdGotoByte : UInt8 := 0x47
def cmdSetSpeedByte : UInt8 := 0x48
def cmdWriteRamLz4Byte : UInt8 := 0x4C
def cmdRamWriteByte : UInt8 := 0x57

def statusFailure : UInt8 := 0x1C
def statusPong : UInt8 := 0x52
def statusReady : UInt8 := 0xA5
def statusSuccess : UInt8 := 0xC1

/-! ## The device -/

/-- The external-bus registers that `cmd_init_extram` programs. -/
structure Ebu where
  addrsel1 : Nat
  buscon1 : Nat
  sdrmref0 : Nat
  sdrmcon0 : Nat
  sdrmod0 : Nat

/-- Which loop the preloader is in. -/
inductive Control where
  /-- the command loop of `main` -/
  | command
  /-- `while (usart_getc(USART0) != CMD_PING)` in `cmd_set_speed` -/
  | awaitPing
  deriving DecidableEq

/-- The state of the preloader between two rounds. -/
structure Device where
  memory : Memory
  ebu : Ebu
  baudRate : Nat
  dtcmEnabled : Bool
  control : Control

/-! ## `crc32_update` -/

def crc32Polynomial : BitVec 32 := 0xEDB88320#32
def crc32InitialValue : BitVec 32 := 0xFFFFFFFF#32

/-- The inner loop: `n` shifts of the register. -/
def crc32Shifts : Nat → BitVec 32 → BitVec 32
  | 0, crc => crc
  | n + 1, crc =>
      let lowBit := crc &&& 1#32
      let crc := crc >>> 1
      crc32Shifts n (if lowBit ≠ 0#32 then crc ^^^ crc32Polynomial else crc)

/-- `crc32_update(crc, data + offset, size)` -/
def crc32Update (m : Memory) (crc : BitVec 32) (data offset : Nat) : Nat → BitVec 32
  | 0 => crc
  | size + 1 =>
      let crc := crc ^^^ BitVec.ofNat 32 (m.read data offset).toNat
      crc32Update m (crc32Shifts 8 crc) data (offset + 1) size

/-! ## Serial input -/

/-- `usart_read(USART0, data + offset, size)` -/
def usartRead (m : Memory) (data offset : Nat) : Nat → Prog Memory
  | 0 => pure m
  | size + 1 => do
      let value ← Prog.getc
      usartRead (m.write data offset value) data (offset + 1) size

/-- `usart_read` into a local `uint32_t`. -/
def usartReadU32 : Prog Nat := do
  let bytes ← Prog.recvAll 4
  pure (ofLeBytes bytes)

/-! ## Commands -/

def cmdPing (d : Device) : Prog Device := do
  Prog.putc statusPong
  pure d

/-- The register values `cmd_init_extram` writes for an accepted window. -/
def extramRegisters (address size : Nat) : Ebu :=
  let mask := 27 - size.log2
  { addrsel1 := address ||| (mask <<< 4) ||| 1
    buscon1 := 0x30000000 ||| (1 <<< 22) ||| (3 <<< 20) ||| (1 <<< 17) ||| (1 <<< 9)
    sdrmref0 := 6
    sdrmcon0 := (2 <<< 22) ||| (1 <<< 19) ||| (1 <<< 16) ||| (1 <<< 12) ||| (3 <<< 10)
      ||| (7 <<< 4)
    sdrmod0 := (2 <<< 4) ||| 3 }

def cmdInitExtram (d : Device) : Prog Device := do
  let address ← usartReadU32
  let size ← usartReadU32
  if size < 0x00001000 then
    Prog.putc statusFailure
    pure d
  else if size > 0x08000000 then
    Prog.putc statusFailure
    pure d
  else if size &&& (size - 1) ≠ 0 then
    Prog.putc statusFailure
    pure d
  else if address &&& (size - 1) ≠ 0 then
    Prog.putc statusFailure
    pure d
  else
    Prog.putc statusSuccess
    pure { d with ebu := extramRegisters address size }

def cmdSetSpeed (d : Device) : Prog Device := do
  let baudRate ← usartReadU32
  pure { d with baudRate := baudRate, control := .awaitPing }

/-- The receive loop of `cmd_ram_write`, 256 bytes at a time. -/
def readBatches (m : Memory) (data size offset : Nat) : Prog Memory :=
  if offset < size then do
    let batchSize := min (size - offset) 256
    let m ← usartRead m data offset batchSize
    readBatches m data size (offset + batchSize)
  else pure m
termination_by size - offset

/-- The checksum loop of `cmd_ram_write`, 256 bytes at a time. -/
def crcBatches (m : Memory) (data size offset : Nat) (crc : BitVec 32) : BitVec 32 :=
  if offset < size then
    let batchSize := min (size - offset) 256
    crcBatches m data size (offset + batchSize) (crc32Update m crc data offset batchSize)
  else crc
termination_by size - offset

def cmdRamWrite (d : Device) : Prog Device := do
  let address ← usartReadU32
  let size ← usartReadU32
  let memory ← readBatches d.memory address size 0
  let receivedCrc ← usartReadU32
  let crc := crcBatches memory address size 0 crc32InitialValue
  if BitVec.ofNat 32 receivedCrc ≠ ~~~crc then
    Prog.putc statusFailure
    pure { d with memory := memory }
  else
    Prog.putc statusSuccess
    pure { d with memory := memory }

/-- `discard_data`: the bytes go to a local buffer. -/
def discardData (size offset : Nat) : Prog Unit :=
  if offset < size then do
    let batchSize := min (size - offset) 256
    let _ ← Prog.recvAll batchSize
    discardData size (offset + batchSize)
  else pure ()
termination_by size - offset

def cmdWriteRamLz4 (d : Device) : Prog Device := do
  let address ← usartReadU32
  let compressedSize ← usartReadU32
  let outputSize ← usartReadU32
  let (valid, memory) ← (do
    if compressedSize > lz4BlockSize then
      discardData compressedSize 0
      pure (false, d.memory)
    else if outputSize > lz4BlockSize then
      discardData compressedSize 0
      pure (false, d.memory)
    else
      let memory ← usartRead d.memory dtcmAddress 0 compressedSize
      pure (lz4Decompress memory dtcmAddress compressedSize address outputSize))
  let receivedCrc ← usartReadU32
  let valid :=
    if valid then
      decide (BitVec.ofNat 32 receivedCrc
        = ~~~crc32Update memory crc32InitialValue address 0 outputSize)
    else valid
  Prog.putc (if valid then statusSuccess else statusFailure)
  pure { d with memory := memory }

section Main

-- what the code at an address does when it is called, and the state it returns with
variable (payload : Nat → Device → Prog Device)

def cmdGoto (d : Device) : Prog Device := do
  let address ← usartReadU32
  Prog.putc statusSuccess
  payload address { d with dtcmEnabled := false }

/-- The dispatch of `main`; an unknown command byte is skipped. -/
def command (d : Device) (byte : UInt8) : Prog Device :=
  if byte = cmdPingByte then cmdPing d
  else if byte = cmdInitExtramByte then cmdInitExtram d
  else if byte = cmdGotoByte then cmdGoto payload d
  else if byte = cmdSetSpeedByte then cmdSetSpeed d
  else if byte = cmdWriteRamLz4Byte then cmdWriteRamLz4 d
  else if byte = cmdRamWriteByte then cmdRamWrite d
  else pure d

/-- One round of the loop the preloader is in. -/
def mainRound (d : Device) : Prog Device := do
  let byte ← Prog.getc
  match d.control with
  | .command => command payload d byte
  | .awaitPing =>
      if byte ≠ cmdPingByte then pure d else cmdPing { d with control := .command }

/-- What `main` does before its loop. -/
def mainEntry (d : Device) : Prog Device := do
  Prog.putc statusReady
  pure { d with dtcmEnabled := true, control := .command }

end Main

end Pmb887x.Preloader
