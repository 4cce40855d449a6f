import Pmb887x.Library.TimedLink
import Pmb887x.ChaosBoot.PvBoot

set_option autoImplicit false

/-! # The client of the PV boot loader (`chaos-boot.py`)

From the moment the boot loader has answered, with the options for a PV boot loader. Every read has a time
limit, so a host is a `TimedProg` that may exit. `chaos_goto` repeats its request in a loop without an end:
`stageProgram` is one pass of it, and the loop is that of the stages. Progress, printing and the rate of the
port are left out. A session has `--exec` or `--linux`: `main` runs one behind the other where both are given,
and the second then speaks to the program that the first has called. -/

namespace Pmb887x.ChaosBoot

open Library

/-! ## The port -/

/-- How `chaos-boot.py` ends early. -/
inductive Exit where
  /-- `sys.exit(1)` -/
  | one
  /-- `return 1` in `main` -/
  | mainReturnsOne
  /-- `sys.exit("Can't read phone info!")` -/
  | cannotReadPhoneInfo
  /-- `sys.exit("NOT SUPPORTED YET …")` -/
  | flashNotSupported
  /-- `sys.exit("Unknown flasher command: %s")` -/
  | unknownFlasherCommand
  /-- `sys.exit("load error")` -/
  | loadError
  /-- `sys.exit("Invalid kernel addr")` -/
  | invalidKernelAddr
  /-- `struct.error`: the address of the device tree does not fit its field -/
  | structError
  deriving DecidableEq

abbrev Host := ExceptT Exit TimedProg

/-- `port.write(data)` -/
def portWrite (data : List UInt8) : Host Unit := ExceptT.lift (TimedProg.sendAll data)

/-- `port.read(wanted)` -/
def portRead (wanted : Nat) : Host (List UInt8) := ExceptT.lift (TimedProg.recvUpTo wanted)

/-- `port.readb()`; `none` is `-1`. -/
def readb : Host (Option UInt8) := ExceptT.lift TimedProg.getc

/-- `if not ok: sys.exit(…)` -/
def exitUnless (e : Exit) (ok : Bool) : Host Unit := if ok then pure () else throw e

def xorChecksum (data : List UInt8) : UInt8 := data.foldl (· ^^^ ·) 0

/-- `struct.pack(">I", value & 0xFFFFFFFF)` -/
def packBe32 (value : Nat) : List UInt8 := (leBytes 4 (value &&& 0xFFFFFFFF)).reverse

/-! ## Single commands -/

def chaosPing : Host Bool := do
  portWrite [pingLetter]
  let c ← readb
  pure (c = some answerR)

def chaosKeepAlive : Host Unit := portWrite [keepAliveLetter]

/-- `CHAOS_SPEEDS` -/
def chaosSpeeds : List (Nat × UInt8) :=
  [(57600, 0x00), (115200, 0x01), (230400, 0x02), (460800, 0x03), (614400, 0x04), (921600, 0x05),
    (1228800, 0x06), (1600000, 0x07), (1500000, 0x08), (1625000, 0x07), (3250000, 0x09)]

def chaosSetSpeed (speed : Nat) : Host Bool :=
  match chaosSpeeds.lookup speed with
  | none => pure false
  | some code => do
      portWrite [speedLetter, code]
      let c ← readb
      if c = some 0x68 then
        portWrite [pingLetter]
        let c ← readb
        pure (c = some 0x48)
      else pure false

/-- The fields of the answer that a session looks at. -/
structure PhoneInfo where
  flashBase : Nat
  flashSize : Nat
  deriving DecidableEq

/-- `struct.unpack("<16s16s16s16sI12sIB…", raw)` -/
def unpackInfo (raw : List UInt8) : PhoneInfo where
  flashBase := ofLeBytes ((raw.drop 64).take 4)
  flashSize := 1 <<< (raw.getD 84 0).toNat

def chaosReadInfo : Host (Option PhoneInfo) := do
  portWrite [infoLetter]
  let raw ← portRead infoSize
  pure (if raw.length ≠ infoSize then none else some (unpackInfo raw))

/-! ## Memory -/

/-- The blocks of a range: offsets and sizes. -/
def cut (total chunk : Nat) : List (Nat × Nat) :=
  (List.range' 0 ((total + chunk - 1) / chunk) chunk).map fun j => (j, min chunk (total - j))

/-- What `chaos_read_ram` makes of an answer: the bytes, if the answer is complete and its checksum right. -/
def readAnswer (size : Nat) (buf : List UInt8) : Option (List UInt8) :=
  if buf.length < size + 4 then none
  else
    let ok := (buf.drop size).take 2
    let chk := (buf.getD (size + 3) 0).toNat <<< 8 ||| (buf.getD (size + 2) 0).toNat
    if ok ≠ answerOk then none
    else
      let buf := buf.take size
      if chk ≠ (xorChecksum buf).toNat then none else some buf

/-- One request for a block and its answer. -/
def readOnce (request : List UInt8) (size : Nat) : Host (Option (List UInt8)) := do
  portWrite request
  let buf ← portRead (size + 4)
  pure (readAnswer size buf)

/-- The loop for one block of `chaos_read_ram`, with `tries` left. -/
def readBlock (request : List UInt8) (size : Nat) : Nat → Host (List UInt8)
  | 0 => do
      match ← readOnce request size with
      | some data => pure data
      | none => throw .one
  | tries + 1 => do
      match ← readOnce request size with
      | some data => pure data
      | none => if ← chaosPing then readBlock request size tries else throw .one

def readRequest (addr size : Nat) : List UInt8 := [readLetter] ++ packBe32 addr ++ packBe32 size

def chaosReadRam (readAddr readSize chunk : Nat) : Host (List UInt8) := do
  let parts ← (cut readSize chunk).mapM fun (j, size) => readBlock (readRequest (readAddr + j) size) size 10
  pure parts.flatten

/-- A block of `make_write_blocks(b"W", …)`. -/
def writeRequest (addr : Nat) (tmp : List UInt8) : List UInt8 :=
  [writeLetter] ++ packBe32 addr ++ packBe32 tmp.length ++ tmp ++ [xorChecksum tmp]

/-- The blocks of `make_write_blocks`: their addresses and bytes. -/
def makeWriteBlocks (dstAddr : Nat) (buff : List UInt8) (chunk : Nat) : List (Nat × List UInt8) :=
  (cut buff.length chunk).map fun (j, size) => (dstAddr + j, (buff.drop j).take size)

/-- One request to write a block; the flag says that the answer is `OK`. -/
def writeOnce (request : List UInt8) : Host Bool := do
  portWrite request
  let ok ← portRead 2
  pure (ok = answerOk)

/-- The loop for one block of `chaos_write_ram`, with `tries` left. -/
def writeBlock (request : List UInt8) : Nat → Host Unit
  | 0 => do
      if !(← writeOnce request) then throw .one
  | tries + 1 => do
      if !(← writeOnce request) then
        chaosKeepAlive
        writeBlock request tries

/-- `tries` -/
def writeTries : Nat := 999999

def chaosWriteRam (dstAddr : Nat) (buff : List UInt8) (chunk : Nat) : Host Bool := do
  (makeWriteBlocks dstAddr buff chunk).forM fun (addr, tmp) => writeBlock (writeRequest addr tmp) writeTries
  pure true

/-! ## Sessions -/

def chunkSize : Nat := 1024 * 4

/-- `int(1024 * 3.5)` -/
def flasherChunkSize : Nat := 3584

/-- A task of the flasher; a write has the contents of its file. -/
inductive Task where
  | read (addr size : Nat)
  | write (addr : Nat) (raw : List UInt8)
  | erase (addr : Nat)

def Task.addr : Task → Nat
  | .read addr _ => addr
  | .write addr _ => addr
  | .erase addr => addr

/-- One task of `run_flasher`; the result is what is written to the file of a read. -/
def runTask (info : PhoneInfo) (task : Task) : Host (Option (List UInt8)) :=
  let inFlash := decide (info.flashBase ≤ task.addr ∧ task.addr ≤ info.flashBase + info.flashSize)
  match task with
  | .read addr size => do
      chaosKeepAlive
      let res ← chaosReadRam addr size flasherChunkSize
      pure (some res)
  | .write addr raw => do
      exitUnless .flashNotSupported (!inFlash)
      chaosKeepAlive
      let _ ← chaosWriteRam addr raw flasherChunkSize
      pure none
  | .erase _ => throw .unknownFlasherCommand

def runFlasher (tasks : List Task) : Host (List (Option (List UInt8))) := do
  match ← chaosReadInfo with
  | none => throw .cannotReadPhoneInfo
  | some info => tasks.mapM (runTask info)

/-- `--exec` or `--linux`, with the contents of the files. -/
inductive Launch where
  | exec (execAddr : Nat) (raw : List UInt8)
  | linux (execAddr : Nat) (kernel dtb : List UInt8)

/-- `run_exec` in front of `chaos_goto`. -/
def runExec (execAddr : Nat) (raw : List UInt8) : Host Unit := do
  chaosKeepAlive
  exitUnless .loadError (← chaosWriteRam execAddr raw flasherChunkSize)

def kernelAddr (execAddr : Nat) : Nat := execAddr + 0x8000

/-- `dtb_addr` -/
def dtbAddr (execAddr : Nat) (kernel : List UInt8) : Nat :=
  let dtbAddr := kernelAddr execAddr + kernel.length
  let align := (1 <<< 20) * 4
  if dtbAddr % align ≠ 0 then dtbAddr + (align - dtbAddr % align) else dtbAddr

/-- The code of `linux_boot.S`. -/
def linuxBoot : List UInt8 :=
  [0x00, 0x00, 0xA0, 0xE3, 0x10, 0x80, 0x8F, 0xE2, 0x00, 0x10, 0x98, 0xE5, 0x0C, 0x80, 0x8F, 0xE2,
    0x00, 0x20, 0x98, 0xE5, 0x1C, 0x80, 0x4F, 0xE2, 0x02, 0xF9, 0x88, 0xE2]

/-- `preloader`: the code, the machine and the address of the device tree. -/
def linuxPreloader (dtbAddr : Nat) : List UInt8 := linuxBoot ++ leBytes 4 0xFFFFFFFF ++ leBytes 4 dtbAddr

/-- `run_linux` in front of `chaos_goto`. -/
def runLinux (execAddr : Nat) (kernel dtb : List UInt8) : Host Unit := do
  exitUnless .invalidKernelAddr (execAddr &&& 0xFFFFF = 0)
  let dtbAddr := dtbAddr execAddr kernel
  exitUnless .structError (dtbAddr < 2 ^ 32)
  chaosKeepAlive
  exitUnless .loadError (← chaosWriteRam execAddr (linuxPreloader dtbAddr) chunkSize)
  exitUnless .loadError (← chaosWriteRam dtbAddr dtb chunkSize)
  exitUnless .loadError (← chaosWriteRam (kernelAddr execAddr) kernel chunkSize)

def runLaunch : Option Launch → Host Unit
  | none => pure ()
  | some (.exec execAddr raw) => runExec execAddr raw
  | some (.linux execAddr kernel dtb) => runLinux execAddr kernel dtb

/-- What `chaos_goto` is called with. -/
def Launch.entry : Launch → Nat
  | .exec execAddr _ => execAddr
  | .linux execAddr _ _ => execAddr

structure Options where
  bootSpeed : Nat
  speed : Nat
  tasks : List Task
  launch : Option Launch

/-- What a session has read, for each task, and where it jumps to. -/
structure Outcome where
  files : List (Option (List UInt8))
  entry : Option Nat

/-- `chaos_set_speed`, where `--speed` differs from the speed of the boot. -/
def changeSpeed (opts : Options) : Host Bool :=
  if opts.speed ≠ opts.bootSpeed then chaosSetSpeed opts.speed else pure true

/-- `main` from `port.write(b"\x55")` to `Chaos Bootloader - OK`. -/
def openSession (opts : Options) : Host Unit := do
  portWrite [startByte]
  let c ← readb
  exitUnless .mainReturnsOne (c = some answerMain)
  exitUnless .mainReturnsOne (← chaosPing)
  (List.range 4).forM fun _ => chaosKeepAlive
  exitUnless .mainReturnsOne (← changeSpeed opts)
  chaosKeepAlive

def runTasks (tasks : List Task) : Host (List (Option (List UInt8))) :=
  if tasks.isEmpty then pure [] else runFlasher tasks

/-- The whole of it, without the jump. -/
def session (opts : Options) : Host Outcome := do
  openSession opts
  let files ← runTasks opts.tasks
  runLaunch opts.launch
  pure ⟨files, opts.launch.map Launch.entry⟩

/-- Where the client is. -/
inductive Stage where
  /-- in the loop of `chaos_goto` -/
  | goto (files : List (Option (List UInt8))) (entry : Nat)
  | ended (result : Except Exit (List (Option (List UInt8))))

def sessionStage : Except Exit Outcome → Stage
  | .error e => .ended (.error e)
  | .ok ⟨files, none⟩ => .ended (.ok files)
  | .ok ⟨files, some entry⟩ => .goto files entry

def client (opts : Options) : TimedProg Stage := do
  let result ← (session opts).run
  pure (sessionStage result)

def gotoRequest (addr : Nat) : List UInt8 := [gotoLetter] ++ packBe32 addr ++ packBe32 addr ++ packBe32 addr

/-- One pass of the loop of `chaos_goto`. An answer with another address is only printed. -/
def gotoPass (files : List (Option (List UInt8))) (entry : Nat) : TimedProg Stage := do
  TimedProg.sendAll (gotoRequest entry)
  let data ← TimedProg.recvUpTo 4
  if data.length < 4 then
    if data.take 1 = [answerMain] then
      TimedProg.sendAll [keepAliveLetter]
      pure (.goto files entry)
    else pure (.ended (.error .one))
  else pure (.ended (.ok files))

def stageProgram : Stage → Option (TimedProg Stage)
  | .goto files entry => some (gotoPass files entry)
  | .ended _ => none

end Pmb887x.ChaosBoot
