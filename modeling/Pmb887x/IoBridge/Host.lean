import Pmb887x.IoBridge.Main

set_option autoImplicit false

/-! # The I/O bridge on the host (`io_bridge.pm`)

The host asks the phone for each access of the emulator. A reply that was given in the interrupt handler ends
with the number of the interrupt, and `write_irq` passes it on when it has changed. -/

namespace Pmb887x.IoBridge

open Library Library.Prog

inductive HostError where
  /-- `"write(%08X, %08X): invalid ack = %02X\n"` -/
  | invalidWriteAck (addr value : UInt32) (ack : UInt8)
  /-- `"read(%08X): invalid ack = %02X\n"` -/
  | invalidReadAck (addr : UInt32) (ack : UInt8)
  /-- `"PING ERROR (c=%02X (%s)%s)"` -/
  | ping (c : UInt8)
  deriving DecidableEq

/-- `$last_irq`, and what was written to `$sock_irq`. -/
structure IrqSocket where
  lastIrq : Int
  written : List UInt8
  deriving DecidableEq

/-- `$write_irq` -/
def writeIrq (socket : IrqSocket) (irq : UInt8) : IrqSocket :=
  if socket.lastIrq ≠ irq.toNat then ⟨irq.toNat, socket.written ++ [irq]⟩ else socket

def handleIrq (socket : IrqSocket) : Prog IrqSocket := do
  let c ← getc
  return writeIrq socket c

/-- The bytes of a word, the highest first. -/
def beBytes (value : UInt32) : List UInt8 :=
  [(value >>> 24).toUInt8, (value >>> 16).toUInt8, (value >>> 8).toUInt8, value.toUInt8]

/-- `unpack("V", $buf)` -/
def unpackV (buf : List UInt8) : UInt32 := UInt32.ofNat (ofLeBytes buf)

/-- The letter of a command for a size. -/
def writeLetter (size : Nat) : UInt8 :=
  if size = 1 then 'o'.toUInt8 else if size = 2 then 'w'.toUInt8 else if size = 3 then 'O'.toUInt8
  else 'W'.toUInt8

def readLetter (size : Nat) : UInt8 :=
  if size = 1 then 'i'.toUInt8 else if size = 2 then 'r'.toUInt8 else if size = 3 then 'I'.toUInt8
  else 'R'.toUInt8

def writeRequest (addr : UInt32) (size : Nat) (value : UInt32) : List UInt8 :=
  writeLetter size :: beBytes addr ++ beBytes value

def readRequest (addr : UInt32) (size : Nat) : List UInt8 := readLetter size :: beBytes addr

/-- `cmd_write_unaligned`, on a port that does not time out. -/
def cmdWriteUnaligned (addr : UInt32) (size : Nat) (value : UInt32) (socket : IrqSocket) :
    Prog (Except HostError Unit × IrqSocket) := do
  sendAll (writeRequest addr size value)
  let ack ← getc
  if ack = '!'.toUInt8 then
    let socket ← handleIrq socket
    return (.ok (), socket)
  else if ack = ';'.toUInt8 then return (.ok (), socket)
  else return (.error (.invalidWriteAck addr value ack), socket)

/-- `cmd_read_unaligned` -/
def cmdReadUnaligned (addr : UInt32) (size : Nat) (socket : IrqSocket) :
    Prog (Except HostError UInt32 × IrqSocket) := do
  sendAll (readRequest addr size)
  let buf ← recvAll 4
  let ack ← getc
  if ack = '!'.toUInt8 then
    let socket ← handleIrq socket
    return (.ok (unpackV buf), socket)
  else if ack = ';'.toUInt8 then return (.ok (unpackV buf), socket)
  else return (.error (.invalidReadAck addr ack), socket)

/-- `cmd_ping` -/
def cmdPing (socket : IrqSocket) : Prog (Except HostError Unit × IrqSocket) := do
  sendAll ['.'.toUInt8]
  let c ← getc
  if c = ','.toUInt8 then
    let socket ← handleIrq socket
    return (.ok (), socket)
  else if c = '.'.toUInt8 then return (.ok (), socket)
  else return (.error (.ping c), socket)

end Pmb887x.IoBridge
