import Pmb887x.Library.Link
import Pmb887x.Library.Bytes
import Pmb887x.Library.Memory

set_option autoImplicit false

/-! # The PV boot loader (`boot/pv_boot_x85.S`)

The assembly program that `chaos-boot.py` runs on a phone. A label that is called or jumped to is a function
here, under its name, and the registers that the label reads are its arguments. A loop that counts down
behind its body makes 2³² passes for a count of zero.

Every address is RAM: it keeps what is written to it, and the code and the stack of the boot loader are not
there. A write over them, or to a register or a flash memory, is not followed.

Serving the watchdog shows neither on the link nor in the memory. The commands for flash memory and the
tests, which `chaos-boot.py` does not send in a session, are a parameter, as are the contents of the
information block and the program that `G` jumps to. -/

namespace Pmb887x.ChaosBoot

open Library

/-! ## Letters and answers -/

def pingLetter : UInt8 := 0x41
def speedLetter : UInt8 := 0x48
def infoLetter : UInt8 := 0x49
def readLetter : UInt8 := 0x52
def writeLetter : UInt8 := 0x57
def gotoLetter : UInt8 := 0x47
def keepAliveLetter : UInt8 := 0x2E

/-- What `startwait` waits for. -/
def startByte : UInt8 := 0x55

def answerR : UInt8 := 0x52
def answerOk : List UInt8 := [0x4F, 0x4B]
def answerChecksum : List UInt8 := [0xBB, 0xBB]
def answerMain : UInt8 := 0xAA

/-- The letters of the other commands: `Q`, `T`, `F`, `E`, `P`, `O`, `C`, `X` and `V`. -/
def otherLetters : List UInt8 := [0x51, 0x54, 0x46, 0x45, 0x50, 0x4F, 0x43, 0x58, 0x56]

/-- `iSpeeds`: the values of `USART0_BG` and `USART0_FDV`. -/
def iSpeeds : List UInt32 :=
  [0x001901D8, 0x000C01D8, 0x000501B4, 0x00000092, 0x000000C3, 0x00000127, 0x0000018A, 0x00000000, 0x000001D0]

/-- Where the information block is, behind `start`. -/
def infoOffset : Nat := 0x1E00
def infoSize : Nat := 128

/-! ## The device -/

/-- Where the boot loader waits. -/
inductive Control where
  | startwait
  | mainLoop
  /-- `cs_a`: the speed is set -/
  | awaitPing
  | called (address : Nat)
  deriving DecidableEq

structure Device where
  memory : Memory
  /-- the word of `iSpeeds` that was set last; `none` for one behind the table -/
  speed : Option UInt32
  control : Control

/-- What is not in the boot loader. -/
structure Phone where
  start : Nat
  /-- `read_info`: fills the information block -/
  readInfo : Memory → Memory
  otherCommand : UInt8 → Device → Prog Device
  /-- the program at an address -/
  program : Nat → Prog Unit

/-- How often a loop is gone through that counts down to zero behind its body. -/
def passes (count : Nat) : Nat := if count = 0 then 2 ^ 32 else count

/-! ## Input and output -/

def rxByte : Prog UInt8 := Prog.getc

def txByte (r0 : UInt8) : Prog Unit := Prog.putc r0

def rxWord : Prog Nat := do
  let a ← rxByte
  let b ← rxByte
  let c ← rxByte
  let d ← rxByte
  pure (a.toNat <<< 24 ||| b.toNat <<< 16 ||| c.toNat <<< 8 ||| d.toNat)

/-- The loop `cf_r`; the result has the checksum of the bytes. -/
def rxMemblkLoop (r4 : Nat) : Nat → Memory → Nat → UInt8 → Prog (Memory × UInt8)
  | 0, memory, _, r8 => pure (memory, r8)
  | count + 1, memory, offset, r8 => do
      let r0 ← rxByte
      rxMemblkLoop r4 count (memory.write r4 offset r0) (offset + 1) (r8 ^^^ r0)

/-- The flag says that the checksum is right. -/
def rxMemblk (memory : Memory) (r4 r5 : Nat) : Prog (Memory × Bool) := do
  let (memory, r8) ← rxMemblkLoop r4 (passes r5) memory 0 0
  let chk ← rxByte
  pure (memory, chk = r8)

/-- The loop `r_loop`; the result is the checksum of the bytes. -/
def txMemLoop (memory : Memory) (r6 : Nat) : Nat → Nat → UInt8 → Prog UInt8
  | 0, _, r8 => pure r8
  | count + 1, offset, r8 => do
      txByte (memory.read r6 offset)
      txMemLoop memory r6 count (offset + 1) (r8 ^^^ memory.read r6 offset)

/-! ## Commands -/

def cmdWrite (d : Device) : Prog Device := do
  let r6 ← rxWord
  let r7 ← rxWord
  let (memory, same) ← rxMemblk d.memory r6 r7
  Prog.sendAll (if same then answerOk else answerChecksum)
  pure { d with memory := memory }

def cmdRead (d : Device) : Prog Device := do
  let r6 ← rxWord
  let r7 ← rxWord
  let r8 ← txMemLoop d.memory r6 (passes r7) 0 0
  Prog.sendAll answerOk
  txByte r8
  txByte 0
  pure d

def cmdGoto (d : Device) : Prog Device := do
  let r6 ← rxWord
  let r7 ← rxWord
  if r6 = r7 then
    -- `cjmpr6`: the address goes back lowest byte first
    Prog.sendAll (leBytes 4 r6)
    pure { d with control := .called r6 }
  else
    txByte answerMain
    pure d

def cmdSpeed (d : Device) : Prog Device := do
  let r6 ← rxByte
  txByte 0x68
  pure { d with speed := iSpeeds[r6.toNat]?, control := .awaitPing }

section Main

variable (phone : Phone)

def cmdInfo (d : Device) : Prog Device := do
  Prog.sendAll (d.memory.readBytes (phone.start + infoOffset) 0 infoSize)
  pure d

/-- One round of `main_loop`. -/
def mainRound (d : Device) : Prog Device := do
  let r0 ← rxByte
  if r0 = pingLetter then
    txByte answerR
    pure d
  else if r0 = speedLetter then cmdSpeed d
  else if r0 = infoLetter then cmdInfo phone d
  else if r0 = readLetter then cmdRead d
  else if r0 = writeLetter then cmdWrite d
  else if r0 = gotoLetter then cmdGoto d
  else if r0 ∈ otherLetters then phone.otherCommand r0 d
  else pure d

/-- One round of `startwait`. -/
def startRound (d : Device) : Prog Device := do
  let r0 ← rxByte
  if r0 = startByte then
    txByte answerMain
    pure { d with memory := phone.readInfo d.memory, control := .mainLoop }
  else pure d

/-- One round of `cs_a`. -/
def pingRound (d : Device) : Prog Device := do
  let r0 ← rxByte
  if r0 = pingLetter then
    txByte 0x48
    pure { d with control := .mainLoop }
  else pure d

/-- What the processor does next. A called program keeps it; what it does to the memory is not followed. -/
def bootRound (d : Device) : Prog Device :=
  match d.control with
  | .startwait => startRound phone d
  | .mainLoop => mainRound phone d
  | .awaitPing => pingRound d
  | .called address => do
      phone.program address
      pure d

end Main

end Pmb887x.ChaosBoot
