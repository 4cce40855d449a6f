import Pmb887x.Library.Bytes
import Pmb887x.Library.Link

set_option autoImplicit false

/-! # The I/O bridge on the phone (`main.c`)

The host sends reads and writes of registers and the phone carries them out, from the main loop by a software
interrupt or, once a device has interrupted, in the interrupt handler, until the host has acknowledged the
interrupt. What is behind the addresses is a parameter. -/

namespace Pmb887x.IoBridge

open Library Library.Prog

inductive Cpu where
  | pmb8875
  | pmb8876
  deriving DecidableEq

/-! ## Registers -/

def vicIrqAck : UInt32 := 0xF2800014
def vicIrqCurrent : UInt32 := 0xF280001C
def cguStat : UInt32 := 0xF45000B0
def difTb : UInt32 := 0xF1B00020

def i2cClc : Cpu → UInt32
  | .pmb8875 => 0xF4800000
  | .pmb8876 => 0xF7600000

/-- `MOD_CLC_RMC` -/
def modClcRmc : UInt32 := 0xFF00

/-- The address that stands for none. -/
def noAddress : UInt32 := 0xFFFFFFFF

/-- What is behind the addresses: an access may change it, whether it reads or writes. -/
structure Bus (σ : Type) where
  reg : UInt32 → σ → UInt32 × σ
  regShort : UInt32 → σ → UInt16 × σ
  regByte : UInt32 → σ → UInt8 × σ
  setReg : UInt32 → UInt32 → σ → σ
  setRegShort : UInt32 → UInt16 → σ → σ
  setRegByte : UInt32 → UInt8 → σ → σ

/-- The globals of the program, and what is behind the addresses. -/
structure Device (σ : Type) where
  bus : σ
  currentIrq : UInt32
  i : UInt32

/-! ## Commands -/

/-- Four bytes, the highest first. -/
def beWord (a b c d : UInt8) : UInt32 :=
  a.toUInt32 <<< 24 ||| b.toUInt32 <<< 16 ||| c.toUInt32 <<< 8 ||| d.toUInt32

def getWord : Prog UInt32 := do
  let a ← getc
  let b ← getc
  let c ← getc
  let d ← getc
  return beWord a b c d

def putWord (value : UInt32) : Prog Unit := do
  putc (value >>> 0).toUInt8
  putc (value >>> 8).toUInt8
  putc (value >>> 16).toUInt8
  putc (value >>> 24).toUInt8

def isRead (c : UInt8) : Bool := c = 'R'.toUInt8 ∨ c = 'r'.toUInt8 ∨ c = 'I'.toUInt8 ∨ c = 'i'.toUInt8

def isWrite (c : UInt8) : Bool := c = 'W'.toUInt8 ∨ c = 'w'.toUInt8 ∨ c = 'O'.toUInt8 ∨ c = 'o'.toUInt8

variable {σ : Type}

/-- The access of a read command. -/
def readAccess (bus : Bus σ) (c : UInt8) (addr : UInt32) (s : σ) : UInt32 × σ :=
  if c = 'R'.toUInt8 then bus.reg addr s
  else if c = 'r'.toUInt8 then
    let (value, s) := bus.regShort addr s
    (value.toUInt32, s)
  else if c = 'I'.toUInt8 then
    let (short, s) := bus.regShort addr s
    let (byte, s) := bus.regByte addr s
    (short.toUInt32 <<< 8 ||| byte.toUInt32, s)
  else
    let (value, s) := bus.regByte addr s
    (value.toUInt32, s)

/-- `value` of a read command. -/
def readValue (bus : Bus σ) (c : UInt8) (addr : UInt32) (d : Device σ) : UInt32 × Device σ :=
  let (value, d) :=
    if addr = vicIrqCurrent then (d.currentIrq, d)
    else if addr = noAddress then (0, d)
    else
      let (value, s) := readAccess bus c addr d.bus
      (value, { d with bus := s })
  (if addr = cguStat then 0x2000 else value, d)

/-- What a write command puts in place of its value. -/
def replacedValue (cpu : Cpu) (addr value : UInt32) (d : Device σ) : UInt32 × Device σ :=
  match cpu with
  | .pmb8876 => (if addr = i2cClc .pmb8876 then 0xFF00 else value, d)
  | .pmb8875 =>
      let value :=
        if addr = i2cClc .pmb8875 ∧ value &&& modClcRmc ≠ 0 then (value &&& ~~~modClcRmc) ||| 0x800 else value
      if addr = difTb ∧ value = 0x1FF0 then
        (if d.i % 2 ≠ 0 then 0x1FF0 else 0x1000, { d with i := d.i + 1 })
      else (value, d)

/-- The access of a write command. -/
def writeAccess (bus : Bus σ) (c : UInt8) (addr value : UInt32) (s : σ) : σ :=
  if c = 'W'.toUInt8 then bus.setReg addr value s
  else if c = 'w'.toUInt8 then bus.setRegShort addr value.toUInt16 s
  else if c = 'O'.toUInt8 then bus.setRegShort addr (value >>> 8).toUInt16 (bus.setRegByte addr value.toUInt8 s)
  else bus.setRegByte addr value.toUInt8 s

def writeValue (cpu : Cpu) (bus : Bus σ) (c : UInt8) (addr value : UInt32) (irq : Bool) (d : Device σ) :
    Device σ :=
  let (value, d) := replacedValue cpu addr value d
  let d := if addr = noAddress then d else { d with bus := writeAccess bus c addr value d.bus }
  if irq ∧ addr = vicIrqAck then { d with currentIrq := 0 } else d

/-- `command_handler` returns, or `onerr` sends a byte for ever. -/
inductive HandlerEnd (σ : Type) where
  | returned (result : Nat) (d : Device σ)
  | onerr (c : UInt8)

/-- The end of a reply. -/
def putStatus (irq : Bool) (currentIrq : UInt32) : Prog Unit :=
  if irq then do
    putc '!'.toUInt8
    putc currentIrq.toUInt8
  else putc ';'.toUInt8

/-- `command_handler` with a byte in the FIFO; `irq` says that it runs in the interrupt handler. The
watchdog is left out. -/
def commandHandler (cpu : Cpu) (bus : Bus σ) (irq : Bool) (d : Device σ) : Prog (HandlerEnd σ) := do
  let c ← getc
  if c = '.'.toUInt8 then
    if irq then
      putc ','.toUInt8
      putc d.currentIrq.toUInt8
    else putc '.'.toUInt8
    return .returned 1 d
  else if isRead c then
    let addr ← getWord
    let (value, d) := readValue bus c addr d
    putWord value
    putStatus irq d.currentIrq
    return .returned 1 d
  else if isWrite c then
    let addr ← getWord
    let value ← getWord
    let d := writeValue cpu bus c addr value irq d
    putStatus irq d.currentIrq
    return .returned (if irq ∧ d.currentIrq = 0 then 2 else 1) d
  else return .onerr 0xE6

end Pmb887x.IoBridge
