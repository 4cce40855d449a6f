import Pmb887x.CfiIntel.BlankBlock
import Pmb887x.CfiIntel.Commands
import Pmb887x.CfiIntel.TestBlock
import Pmb887x.UnitTest.Report

set_option autoImplicit false

/-! # Programming and erasing a block (`unit/cfi-intel/rw.c`)

The test is destructive for one blank block: it programs words and buffers there, with a suspension where the
chip has one, and erases the block again. -/

namespace Pmb887x.CfiIntel

open Library Library.Nor Library.Nor.Chip BusProgram
open UnitTest (Call Text hex)
open Boot.Output (ascii)

/-- A test on the bus, with its calls to report. -/
abbrev Test := BusProgram Call

/-! ## Assertions -/

/-- `STATUS_ERRORS` -/
def statusErrors : UInt16 := 0x033A

def testCheck (name : String) (condition : Bool) : Test Unit := tell (.check (ascii name) condition)

def testEqU32 (name : String) (expected actual : UInt32) : Test Unit := tell (.eqU32 (ascii name) expected actual)

def testSkip (name reason : String) : Test Unit := tell (.skip (ascii name) (ascii reason))

/-- A byte on a bus of 16 bits. -/
def readByte (address : Nat) : Test UInt8 := do
  let word ← readWord (address - address % 2)
  return if address % 2 = 0 then word.toUInt8 else (word >>> 8).toUInt8

/-- The pairs that `test_eq_memory` looks at, up to the first difference. -/
def compareMemory : (expected : List UInt8) → (address : Nat) → Test (List (UInt8 × UInt8))
  | [], _ => return []
  | byte :: expected, address => do
      let actual ← readByte address
      if byte = actual then
        let rest ← compareMemory expected (wrap32 (address + 1))
        return (byte, actual) :: rest
      else return [(byte, actual)]

def testEqMemory (name : String) (expected : List UInt8) (address : Nat) : Test Unit := do
  let pairs ← compareMemory expected address
  tell (.eqMemory (ascii name) pairs)

/-- What `test_operation` asks of a status. -/
def completes (status : UInt16) : Bool := status &&& statusReady ≠ 0 && (status &&& statusErrors) = 0

def testOperation (name : String) (status : UInt16) : Test Unit := do
  testCheck name (completes status)
  if completes status then return ()
  else tell (.comment (ascii "# status=" ++ hex 4 status.toNat))

def clearStatusErrors (address : Nat) : Test Unit := do
  let status ← cfiClearStatus address
  testEqU32 "status errors are cleared" 0 (status &&& statusErrors).toUInt32

/-- `memcpy` of so many words. -/
def readWords : (words address : Nat) → Test (List UInt16)
  | 0, _ => return []
  | words + 1, address => do
      let word ← readWord address
      let rest ← readWords words (wrap32 (address + 2))
      return word :: rest

/-- Words as they lie in memory. -/
def memoryBytes (words : List UInt16) : List UInt8 :=
  words.flatMap fun (word : UInt16) => [word.toUInt8, (word >>> 8).toUInt8]

/-! ## Operations of the test -/

section

variable (flash : FlashDevice) (block size : Nat)

def testLockedOperation (erase : Bool) (name : String) : Test Unit := do
  let status ← (if erase then cfiEraseBlock block false else cfiProgramWord flash block 0x5AA5 false : Test UInt16)
  testCheck name (status &&& (statusReady ||| 0x02) = (statusReady ||| 0x02))
  let word ← readWord block
  testEqU32 "locked operation preserves data" 0xFFFF word.toUInt32
  clearStatusErrors block

def programBuffer (address : Nat) (data : Nat → UInt16) (words : Nat) : Test Unit := do
  let statuses ← cfiProgramBuffer flash address data words
  testCheck "write buffer is ready" (statuses.1 &&& statusReady ≠ 0)
  testOperation "buffer program completes" statuses.2

/-- What the two tests of a suspension differ in. -/
structure Suspension where
  bit : UInt16
  entered : String
  completed : String
  reading : String
  resumed : String

def programSuspension : Suspension where
  bit := 0x04
  entered := "buffer program enters suspend"
  completed := "program completed before suspend"
  reading := "program suspend allows reading another block"
  resumed := "program suspend clears after resume"

def eraseSuspension : Suspension where
  bit := 0x40
  entered := "erase enters suspend"
  completed := "erase completed before suspend"
  reading := "erase suspend allows reading another block"
  resumed := "erase suspend clears after resume"

/-- An operation has begun: suspend it, read another block, resume it. -/
def suspendAndResume (suspension : Suspension) (address : Nat) (readSample : List UInt16) (readAddress : Nat) :
    Test UInt16 := do
  writeWord address 0xB0
  writeWord address 0x70
  let status ← cfiWaitReady address
  if status &&& suspension.bit = 0 then
    testSkip suspension.entered suspension.completed
    cfiEnterReadArray address
    return status
  else
    testCheck suspension.entered (status &&& statusErrors = 0)
    cfiEnterReadArray address
    testEqMemory suspension.reading (memoryBytes readSample) readAddress
    writeWord address 0xD0
    writeWord address 0x70
    let status ← cfiWaitReady address
    testEqU32 suspension.resumed 0 (status &&& suspension.bit).toUInt32
    cfiEnterReadArray address
    return status

def programBufferWithSuspend (address : Nat) (data : Nat → UInt16) (words : Nat) (readSample : List UInt16)
    (readAddress : Nat) : Test UInt16 := do
  let bufferStatus ← askForBuffer flash address
  testCheck "suspended write buffer is ready" (bufferStatus &&& statusReady ≠ 0)
  loadBuffer address data words
  suspendAndResume programSuspension address readSample readAddress

def eraseWithSuspend (address : Nat) (readSample : List UInt16) (readAddress : Nat) : Test UInt16 := do
  writeWord address 0x50
  writeWord address 0x20
  writeWord address 0xD0
  suspendAndResume eraseSuspension address readSample readAddress

/-! ## The test -/

/-- `if (flash->manufacturer == 0x0020)` -/
def onSt (test : Test Unit) : Test Unit := if flash.manufacturer = 0x0020 then test else return ()

def testBlank (name : String) : Test Unit := do
  let blankStatus ← cfiBlankCheck block
  testCheck name (blankStatus &&& (statusReady ||| 0x20) = statusReady)

def testProgrammed (name : String) : Test Unit := do
  let blankStatus ← cfiBlankCheck block
  testCheck name (blankStatus &&& 0x20 ≠ 0)

def testLockState (name : String) (expected : UInt32) : Test Unit := do
  let status ← cfiReadLock block
  testEqU32 name expected (status &&& 0x3).toUInt32

def testUnlock (name : String) : Test Unit := do
  let status ← cfiUnlockBlock block false
  testOperation name status

def testLock (name : String) : Test Unit := do
  let status ← cfiLockBlock block false
  testOperation name status

/-- `uint16_t buffer[512]` with the words that are filled in front of those that lie on the stack. -/
def bufferWord (stack : Nat → UInt16) (word : Nat) : UInt16 :=
  if word < flash.writeBufferSize / 2 then 0xA500 ^^^ UInt16.ofNat word else stack word

/-- The first bytes of the buffer. -/
def bufferBytes (stack : Nat → UInt16) (bytes : Nat) : List UInt8 :=
  (memoryBytes ((List.range 512).map (bufferWord flash stack))).take bytes

/-- The first part of `test_program_and_cleanup`, on the locked block. -/
def testLockedBlock : Test Unit := do
  testLockState block "test block starts locked" 1
  testLockedOperation flash block false "locked word program is rejected"
  testLockedOperation flash block true "locked erase is rejected"
  onSt flash (testBlank block "blank check reports erased block")
  testUnlock block "block unlock completes"
  testLockState block "test block is unlocked" 0

/-- The buffer at the end of the block, with a suspension where the chip has one. -/
def testFullBuffer (fullBuffer : Nat) (buffer : Nat → UInt16) (words : Nat) (previousBlock : List UInt16) : Test Unit :=
  if flash.features.testBit 2 then do
    let fullStatus ← programBufferWithSuspend flash fullBuffer buffer words previousBlock (sub32 block mapSampleSize)
    testOperation "resumed buffer program completes" fullStatus
  else do
    testSkip "buffer program suspend" "not supported"
    programBuffer flash fullBuffer buffer words

/-- The second part: words and buffers are programmed. -/
def testPrograms (stack : Nat → UInt16) (previousBlock : List UInt16) : Test Unit := do
  let buffer := bufferWord flash stack
  let words := flash.writeBufferSize / 2
  let status ← cfiProgramWord flash block 0x5AA5 false
  testOperation "single-word program completes" status
  let word ← readWord block
  testEqU32 "single word reads back" 0x5AA5 word.toUInt32
  let shortBuffer := wrap32 (block + flash.writeBufferSize)
  programBuffer flash shortBuffer buffer 1
  testEqMemory "one-word buffer reads back" (bufferBytes flash stack 2) shortBuffer
  let oddBuffer := wrap32 (block + flash.writeBufferSize * 2)
  programBuffer flash oddBuffer buffer 7
  testEqMemory "seven-word buffer reads back" (bufferBytes flash stack 14) oddBuffer
  let fullBuffer := sub32 (wrap32 (block + size)) flash.writeBufferSize
  testFullBuffer flash block fullBuffer buffer words previousBlock
  testEqMemory "full buffer reads back" (bufferBytes flash stack flash.writeBufferSize) fullBuffer
  onSt flash (testProgrammed block "blank check reports programmed block")

def cleanupErase (previousBlock : List UInt16) : Test UInt16 :=
  if flash.features.testBit 1 then eraseWithSuspend block previousBlock (sub32 block mapSampleSize)
  else do
    testSkip "erase suspend" "not supported"
    cfiEraseBlock block false

/-- The third part: the block is locked, unlocked and erased. -/
def testErase (previousBlock : List UInt16) : Test Unit := do
  testLock block "block lock completes"
  testLockState block "test block is locked again" 1
  testUnlock block "block unlock completes"
  let eraseStatus ← cleanupErase flash block previousBlock
  testOperation "cleanup erase completes" eraseStatus

/-- The fourth part: the neighbours, and the locks. The state of the block that was locked down and unlocked. -/
def testLocks (previousBlock nextBlock : List UInt16) : Test UInt16 := do
  onSt flash (testBlank block "blank check accepts cleaned block")
  testEqMemory "previous block is unchanged" (memoryBytes previousBlock) (sub32 block mapSampleSize)
  testEqMemory "next block is unchanged" (memoryBytes nextBlock) (wrap32 (block + size))
  testLock block "block lock completes"
  testLockState block "clean block is locked" 1
  let lockDownStatus ← cfiLockDownBlock block false
  testOperation "block lock-down completes" lockDownStatus
  testLockState block "clean block is locked-down" 3
  testUnlock block "locked-down block unlock completes"
  let unlocked ← cfiReadLock block
  return unlocked &&& 0x3

/-- The last part: the block is left locked. -/
def testFinalLock (unlockedState : UInt16) : Test Unit := do
  testCheck "locked-down block unlock state is valid" (unlockedState = 0 || unlockedState = 2)
  testLock block "block final lock completes"
  testLockState block "clean block final lock state" (if unlockedState = 0 then 1 else 3)

def testProgramAndCleanup (stack : Nat → UInt16) : Test Unit := do
  let previousBlock ← readWords 4 (sub32 block mapSampleSize)
  let nextBlock ← readWords 4 (wrap32 (block + size))
  testLockedBlock flash block
  testPrograms flash block size stack previousBlock
  testErase flash block previousBlock
  let blank ← busRangeIsBlank block size
  testCheck "cleanup erased the complete block" blank
  let unlockedState ← testLocks flash block size previousBlock nextBlock
  testFinalLock block unlockedState

end

/-! ## Reading keeps the chip as it is -/

section

variable {chip : Nor.Chip} {s : Nor.State}

/-- The state is not changed by reads. -/
def Still (chip : Nor.Chip) (s : Nor.State) : Prop := ∀ address value s', chip.Reads s address value s' → s' = s

theorem still_of_ready (hready : s.phase = .ready) : Still chip s := by
  intro address value s' h
  simp only [Reads, hready] at h
  exact h.2

theorem still_of_suspended {operation : Operation} {t : Target} (hphase : s.phase = .suspended operation t) :
    Still chip s := by
  intro address value s' h
  simp only [Reads, hphase] at h
  exact h.2

variable (hstill : Still chip s)
include hstill

theorem stays_readByte (address : Nat) : Stays chip.device s (readByte address) :=
  .bind (.readWord (hstill _)) fun _ => .pure _

theorem stays_compareMemory (expected : List UInt8) (address : Nat) :
    Stays chip.device s (compareMemory expected address) := by
  induction expected generalizing address with
  | nil => exact .pure _
  | cons byte expected ih =>
      refine .bind (stays_readByte hstill address) fun actual => .ite ?_ (.pure _)
      exact .bind (ih _) fun _ => .pure _

theorem stays_testEqMemory (name : String) (expected : List UInt8) (address : Nat) :
    Stays chip.device s (testEqMemory name expected address) :=
  .bind (stays_compareMemory hstill expected address) fun _ => .tell _

theorem stays_readWords (words address : Nat) : Stays chip.device s (readWords words address) := by
  induction words generalizing address with
  | zero => exact .pure _
  | succ words ih =>
      refine .bind (.readWord (hstill _)) fun word => ?_
      exact .bind (ih _) fun _ => .pure _

end

/-! ## Operations keep the other blocks -/

section

variable {chip : Nor.Chip} {s s' : Nor.State} {l : List Call} {operation : Operation} {t : Target}
  {R : Nor.State → Nor.State → Prop} [Std.Refl R] {block : Nat}

theorem keeps_testOperation (name : String) (status : UInt16) :
    Keeps chip.device Idle R (testOperation name status) :=
  .of_stays fun _ _ => .bind (.tell _) fun _ => .ite (.pure _) (.tell _)

theorem keeps_testEqMemory (name : String) (expected : List UInt8) (address : Nat) :
    Keeps chip.device Idle R (testEqMemory name expected address) :=
  .of_stays fun _ hidle => stays_testEqMemory (still_of_ready hidle.phase) name expected address

theorem keeps_readWord (address : Nat) : Keeps chip.device Idle R (readWord address : Test UInt16) :=
  .of_stays fun _ hidle => .readWord (still_of_ready hidle.phase address)

theorem keeps_cfiReadLock (address : Nat) : Keeps chip.device Idle R (cfiReadLock address : Test UInt16) :=
  .of_stays fun _ hidle _ _ _ h => (runs_cfiReadLock hidle h).1

theorem keeps_testLockState (name : String) (expected : UInt32) :
    Keeps chip.device Idle R (testLockState block name expected) :=
  .of_stays fun _ hidle => .bind (fun _ _ _ h => (runs_cfiReadLock hidle h).1) fun _ => .tell _

theorem keeps_clearStatusErrors : Keeps chip.device Idle R (clearStatusErrors block) :=
  .of_stays fun _ hidle => .bind (fun _ _ _ h => runs_cfiClearStatus hidle h) fun _ => .tell _

theorem keeps_onSt {flash : FlashDevice} {test : Test Unit} (h : Keeps chip.device Idle R test) :
    Keeps chip.device Idle R (onSt flash test) :=
  .ite h (.pure _)

variable (hchip : chip.polls ≤ waitPolls)
include hchip

omit [Std.Refl R] in
/-- Whether or not the chip suspends the operation, it ends. -/
theorem runs_suspendAndResume {suspension : Suspension} {address readAddress : Nat} {readSample : List UInt16}
    {status : UInt16} (hphase : s.phase = .busy operation t false) (hbit : suspension.bit = operation.suspendBit)
    (h : Runs chip.device (suspendAndResume suspension address readSample readAddress) s status l s') :
    Idle s' ∧ chip.Affects operation t s s' := by
  obtain ⟨_, _, s₁, _, hsuspend, hp₁, -⟩ := Runs.bind_iff.mp h
  obtain ⟨_, _, s₂, _, hstatus, hp₂, -⟩ := Runs.bind_iff.mp hp₁
  obtain ⟨value, _, s₃, _, hwait, hp₃, -⟩ := Runs.bind_iff.mp hp₂
  obtain ⟨haffects₁, hphase₁⟩ := busy_of_writes hphase (.inl rfl) (Runs.writeWord_iff.mp hsuspend).1
  obtain ⟨haffects₂, hphase₂⟩ := busy_of_writes hphase₁ (.inr rfl) (Runs.writeWord_iff.mp hstatus).1
  obtain ⟨-, -, haffects₃, -, hphase₃⟩ := runs_cfiWaitReady hchip hphase₂ hwait
  have haffects := (haffects₁.trans haffects₂).trans haffects₃
  by_cases hset : value &&& suspension.bit = 0
  · -- the operation was faster
    rw [if_pos hset] at hp₃
    have hready : s₃.phase = .ready := by
      rw [hphase₃]
      exact if_neg fun hand => hand.2 (hbit ▸ hset)
    obtain ⟨_, _, s₄, _, hskip, hp₄, -⟩ := Runs.bind_iff.mp hp₃
    obtain ⟨hs₄, -⟩ := Runs.tell_iff.mp hskip
    rw [hs₄] at hp₄
    obtain ⟨-, hs', hidle⟩ := idle_of_array hready hp₄
    refine ⟨hidle, haffects.trans ?_⟩
    rw [hs']
    exact SameCells.affects rfl rfl
  · rw [if_neg hset] at hp₃
    have hsuspended : s₃.phase = .suspended operation t := by
      rw [hphase₃]
      exact if_pos ⟨rfl, hbit ▸ hset⟩
    obtain ⟨_, _, s₄, _, hcheck, hp₄, -⟩ := Runs.bind_iff.mp hp₃
    obtain ⟨hs₄, -⟩ := Runs.tell_iff.mp hcheck
    rw [hs₄] at hp₄
    obtain ⟨_, _, s₅, _, harray, hp₅, -⟩ := Runs.bind_iff.mp hp₄
    have hs₅ := writes_suspended_mode hsuspended rfl (Runs.writeWord_iff.mp harray).1
    have hsuspended₅ : s₅.phase = .suspended operation t := by rw [hs₅, hsuspended]
    obtain ⟨_, _, s₆, _, hread, hp₆, -⟩ := Runs.bind_iff.mp hp₅
    have hs₆ := stays_testEqMemory (still_of_suspended hsuspended₅) _ _ _ _ _ _ hread
    rw [hs₆] at hp₆
    obtain ⟨_, _, s₇, _, hresume, hp₇, -⟩ := Runs.bind_iff.mp hp₆
    have hbegins := begins_of_resume hsuspended₅ (Runs.writeWord_iff.mp hresume).1
    obtain ⟨_, _, s₈, _, hlook, hp₈, -⟩ := Runs.bind_iff.mp hp₇
    obtain ⟨haffects₈, hphase₈⟩ := busy_of_writes hbegins.phase (.inr rfl) (Runs.writeWord_iff.mp hlook).1
    obtain ⟨last, _, s₉, _, hagain, hp₉, -⟩ := Runs.bind_iff.mp hp₈
    obtain ⟨hready, haffects₉⟩ := ready_of_wait hchip hphase₈ hagain
    obtain ⟨_, _, s₁₀, _, hresumed, hp₁₀, -⟩ := Runs.bind_iff.mp hp₉
    obtain ⟨hs₁₀, -⟩ := Runs.tell_iff.mp hresumed
    rw [hs₁₀] at hp₁₀
    obtain ⟨-, hs', hidle⟩ := idle_of_array hready hp₁₀
    have hback : chip.Affects operation t s₃ s₅ := by
      rw [hs₅]
      exact SameCells.affects rfl rfl
    have hresumes := ((hback.trans hbegins.affects).trans haffects₈).trans haffects₉
    refine ⟨hidle, (haffects.trans hresumes).trans ?_⟩
    rw [hs']
    exact SameCells.affects rfl rfl

omit [Std.Refl R] in
theorem keeps_programBufferWithSuspend (flash : FlashDevice) (data : Nat → UInt16) {address words : Nat}
    (readSample : List UInt16) (readAddress : Nat) (hfits : BufferFits chip address words) :
    Keeps chip.device Idle (chip.Within (chip.target .main address))
      (programBufferWithSuspend flash address data words readSample readAddress) := by
  intro s status l s' hidle h
  obtain ⟨bufferStatus, _, s₁, _, hask, h₁, -⟩ := Runs.bind_iff.mp h
  obtain ⟨_, _, s₂, _, htell, h₂, -⟩ := Runs.bind_iff.mp h₁
  obtain ⟨hs₂, -⟩ := Runs.tell_iff.mp htell
  obtain ⟨_, _, s₃, _, hload, hsuspend, -⟩ := Runs.bind_iff.mp h₂
  rw [hs₂] at hload
  have hbegins := begins_of_fill hchip hfits hidle hask hload
  obtain ⟨hidle', haffects⟩ := runs_suspendAndResume hchip hbegins.phase rfl hsuspend
  exact ⟨hidle', hbegins.affects.trans haffects⟩

omit [Std.Refl R] in
theorem keeps_eraseWithSuspend (readSample : List UInt16) (readAddress : Nat) :
    Keeps chip.device Idle (chip.Within (chip.target .main block))
      (eraseWithSuspend block readSample readAddress) := by
  intro s status l s' hidle h
  obtain ⟨_, _, s₁, _, hfirst, h₁, -⟩ := Runs.bind_iff.mp (runs_clearStatus_bind hidle.phase h)
  obtain ⟨_, _, s₂, _, hsecond, hsuspend, -⟩ := Runs.bind_iff.mp h₁
  have hbegins : chip.Begins .erase (chip.target .main block) s s₂ :=
    begins_of_writes hidle.phase rfl rfl (Runs.writeWord_iff.mp hfirst).1 (Runs.writeWord_iff.mp hsecond).1
  obtain ⟨hidle', haffects⟩ := runs_suspendAndResume hchip hbegins.phase rfl hsuspend
  exact ⟨hidle', hbegins.affects.trans haffects⟩

end

/-! ## The parts of the test -/

section

variable {chip : Nor.Chip} {flash : FlashDevice} {block size : Nat} (hchip : chip.polls ≤ waitPolls)
include hchip

/-- The relation of the part that must not change a cell. -/
theorem keeps_testLock (name : String) :
    Keeps chip.device Idle (SameCells (chip.target .main block)) (testLock block name) :=
  (keeps_cfiLockBlock hchip false).bind fun status => keeps_testOperation name status

theorem keeps_testUnlock (name : String) :
    Keeps chip.device Idle (SameCells (chip.target .main block)) (testUnlock block name) :=
  (keeps_cfiUnlockBlock hchip false).bind fun status => keeps_testOperation name status

theorem keeps_testBlank (name : String) :
    Keeps chip.device Idle (SameCells (chip.target .main block)) (testBlank block name) :=
  (keeps_cfiBlankCheck hchip).bind fun _ => .tell _

theorem keeps_testProgrammed (name : String) :
    Keeps chip.device Idle (SameCells (chip.target .main block)) (testProgrammed block name) :=
  (keeps_cfiBlankCheck hchip).bind fun _ => .tell _

theorem keeps_testLockedOperation (erase : Bool) (name : String) :
    Keeps chip.device Idle (chip.Within (chip.target .main block)) (testLockedOperation flash block erase name) := by
  refine .bind (.ite (keeps_cfiEraseBlock hchip false) (keeps_cfiProgramWord hchip flash 0x5AA5 false)) fun status => ?_
  refine .bind (.tell _) fun _ => .bind (keeps_readWord block) fun word => ?_
  exact .bind (.tell _) fun _ => keeps_clearStatusErrors

theorem keeps_testLockedBlock :
    Keeps chip.device Idle (chip.Within (chip.target .main block)) (testLockedBlock flash block) := by
  refine .bind (keeps_testLockState _ _) fun _ => ?_
  refine .bind (keeps_testLockedOperation hchip false _) fun _ => ?_
  refine .bind (keeps_testLockedOperation hchip true _) fun _ => ?_
  refine .bind (keeps_onSt ((keeps_testBlank hchip _).mono fun _ _ => SameCells.within)) fun _ => ?_
  refine .bind ((keeps_testUnlock hchip _).mono fun _ _ => SameCells.within) fun _ => ?_
  exact keeps_testLockState _ _

theorem keeps_programBuffer {address words : Nat} (data : Nat → UInt16) (hfits : BufferFits chip address words) :
    Keeps chip.device Idle (chip.Within (chip.target .main address)) (programBuffer flash address data words) :=
  (keeps_cfiProgramBuffer hchip flash data hfits).bind fun _ => .bind (.tell _) fun _ => keeps_testOperation _ _

/-- The addresses of the three buffers are in the block. -/
structure BuffersFit (chip : Nor.Chip) (flash : FlashDevice) (block size : Nat) : Prop where
  short : BufferFits chip (wrap32 (block + flash.writeBufferSize)) 1
  odd : BufferFits chip (wrap32 (block + flash.writeBufferSize * 2)) 7
  full : BufferFits chip (sub32 (wrap32 (block + size)) flash.writeBufferSize) (flash.writeBufferSize / 2)
  short_eq : chip.target .main (wrap32 (block + flash.writeBufferSize)) = chip.target .main block
  odd_eq : chip.target .main (wrap32 (block + flash.writeBufferSize * 2)) = chip.target .main block
  full_eq : chip.target .main (sub32 (wrap32 (block + size)) flash.writeBufferSize) = chip.target .main block

theorem keeps_testPrograms (hbuffers : BuffersFit chip flash block size) (stack : Nat → UInt16)
    (previousBlock : List UInt16) :
    Keeps chip.device Idle (chip.Within (chip.target .main block))
      (testPrograms flash block size stack previousBlock) := by
  have hshort := @keeps_programBuffer chip flash hchip _ _ (bufferWord flash stack) hbuffers.short
  have hodd := @keeps_programBuffer chip flash hchip _ _ (bufferWord flash stack) hbuffers.odd
  have hfull := @keeps_programBuffer chip flash hchip _ _ (bufferWord flash stack) hbuffers.full
  have hsuspend := keeps_programBufferWithSuspend hchip flash (bufferWord flash stack) previousBlock
    (sub32 block mapSampleSize) hbuffers.full
  rw [hbuffers.short_eq] at hshort
  rw [hbuffers.odd_eq] at hodd
  rw [hbuffers.full_eq] at hfull hsuspend
  refine .bind (keeps_cfiProgramWord hchip flash 0x5AA5 false) fun status => ?_
  refine .bind (keeps_testOperation _ _) fun _ => .bind (keeps_readWord block) fun word => ?_
  refine .bind (.tell _) fun _ => .bind hshort fun _ => .bind (keeps_testEqMemory _ _ _) fun _ => ?_
  refine .bind hodd fun _ => .bind (keeps_testEqMemory _ _ _) fun _ => ?_
  refine .bind (.ite ?_ ?_) fun _ => .bind (keeps_testEqMemory _ _ _) fun _ => ?_
  · exact .bind hsuspend fun fullStatus => keeps_testOperation _ _
  · exact .bind (.tell _) fun _ => hfull
  · exact keeps_onSt ((keeps_testProgrammed hchip _).mono fun _ _ => SameCells.within)

theorem keeps_testErase (previousBlock : List UInt16) :
    Keeps chip.device Idle (chip.Within (chip.target .main block)) (testErase flash block previousBlock) := by
  refine .bind ((keeps_testLock hchip _).mono fun _ _ => SameCells.within) fun _ => ?_
  refine .bind (keeps_testLockState _ _) fun _ => ?_
  refine .bind ((keeps_testUnlock hchip _).mono fun _ _ => SameCells.within) fun _ => ?_
  refine .bind (.ite (keeps_eraseWithSuspend hchip _ _) ?_) fun status => keeps_testOperation _ _
  exact .bind (.tell _) fun _ => keeps_cfiEraseBlock hchip false

/-- Behind the check of the erased block no cell is changed any more. -/
theorem keeps_testLocks (previousBlock nextBlock : List UInt16) :
    Keeps chip.device Idle (SameCells (chip.target .main block))
      (testLocks flash block size previousBlock nextBlock) := by
  refine .bind (keeps_onSt (keeps_testBlank hchip _)) fun _ => .bind (keeps_testEqMemory _ _ _) fun _ => ?_
  refine .bind (keeps_testEqMemory _ _ _) fun _ => .bind (keeps_testLock hchip _) fun _ => ?_
  refine .bind (keeps_testLockState _ _) fun _ => .bind (keeps_cfiLockDownBlock hchip false) fun _ => ?_
  refine .bind (keeps_testOperation _ _) fun _ => .bind (keeps_testLockState _ _) fun _ => ?_
  exact .bind (keeps_testUnlock hchip _) fun _ => .bind (keeps_cfiReadLock _) fun unlocked => .pure _

/-- The last report is about the lock that the block is left with. -/
theorem runs_testFinalLock {s s' : Nor.State} {l : List Call} {u : Unit} {unlockedState : UInt16} (hidle : Idle s)
    (h : Runs chip.device (testFinalLock block unlockedState) s u l s') :
    Idle s' ∧ SameCells (chip.target .main block) s s' ∧
      ∃ status, chip.ShowsLocks s' (wrap32 (block + 4)) status ∧
        Call.eqU32 (ascii "clean block final lock state") (if unlockedState = 0 then 1 else 3)
          (status &&& 0x3).toUInt32 ∈ l := by
  obtain ⟨_, l₁, s₁, _, hvalid, hp₁, hl₁⟩ := Runs.bind_iff.mp h
  obtain ⟨_, l₂, s₂, _, hlock, hp₂, hl₂⟩ := Runs.bind_iff.mp hp₁
  obtain ⟨status, l₃, s₃, _, hread, htell, hl₃⟩ := Runs.bind_iff.mp hp₂
  obtain ⟨hs₁, -⟩ := Runs.tell_iff.mp hvalid
  rw [hs₁] at hlock
  obtain ⟨hidle₂, hsame⟩ := keeps_testLock hchip _ _ _ _ _ hidle hlock
  obtain ⟨hs₃, hshows⟩ := runs_cfiReadLock hidle₂ hread
  obtain ⟨hs', hl⟩ := Runs.tell_iff.mp htell
  rw [hs', hs₃]
  refine ⟨hidle₂, hsame, status, hshows, ?_⟩
  rw [hl₁, hl₂, hl₃, hl]
  simp

end

/-! ## The whole test -/

/-- A block of the chip, with room for the buffers that the test programs. -/
structure SelectedBlock (chip : Nor.Chip) (flash : FlashDevice) (block size : Nat) : Prop where
  inside : ∀ a, block ≤ a → a < block + size → chip.block .main a = block
  outside : ∀ a, chip.block .main a = block → block ≤ a ∧ a < block + size
  end_lt : block + size < 2 ^ 32
  four_dvd_block : 4 ∣ block
  four_dvd_size : 4 ∣ size
  seven_words : 14 ≤ flash.writeBufferSize
  buffer_le : flash.writeBufferSize ≤ 1024
  odd_buffer : flash.writeBufferSize * 2 + 14 ≤ size
  bufferWords : flash.writeBufferSize / 2 ≤ chip.bufferWords

section

variable {chip : Nor.Chip} {flash : FlashDevice} {block size : Nat} (h : SelectedBlock chip flash block size)
include h

theorem SelectedBlock.target_eq {a : Nat} (hle : block ≤ a) (hlt : a < block + size) :
    chip.target .main a = ⟨.main, block⟩ :=
  congrArg (Target.mk .main) (h.inside a hle hlt)

theorem SelectedBlock.target_block : chip.target .main block = ⟨.main, block⟩ := by
  have hroom := h.odd_buffer
  exact h.target_eq (Nat.le_refl _) (by omega)

theorem SelectedBlock.bufferFits {address words : Nat} (hle : block ≤ address)
    (hend : address + words * 2 ≤ block + size) (hpos : 0 < words) (hwords : words ≤ flash.writeBufferSize / 2) :
    BufferFits chip address words where
  pos := hpos
  fits := Nat.le_trans hwords h.bufferWords
  count := by
    have hbuffer := h.buffer_le
    omega
  inBlock := by
    intro k hk
    have hlt := h.end_lt
    rw [wrap32_of_lt (by omega), h.target_eq (by omega) (by omega), h.target_eq hle (by omega)]

theorem SelectedBlock.buffersFit : BuffersFit chip flash block size := by
  have hlt := h.end_lt
  have hseven := h.seven_words
  have hodd := h.odd_buffer
  have hshort_eq : wrap32 (block + flash.writeBufferSize) = block + flash.writeBufferSize :=
    wrap32_of_lt (by omega)
  have hodd_eq : wrap32 (block + flash.writeBufferSize * 2) = block + flash.writeBufferSize * 2 :=
    wrap32_of_lt (by omega)
  have hfull_eq : sub32 (wrap32 (block + size)) flash.writeBufferSize = block + size - flash.writeBufferSize := by
    rw [wrap32_of_lt hlt, sub32_of_le (by omega) (by omega)]
  constructor
  case short =>
    rw [hshort_eq]
    exact h.bufferFits (by omega) (by omega) (by omega) (by omega)
  case odd =>
    rw [hodd_eq]
    exact h.bufferFits (by omega) (by omega) (by omega) (by omega)
  case full =>
    rw [hfull_eq]
    exact h.bufferFits (by omega) (by omega) (by omega) (by omega)
  case short_eq => rw [hshort_eq, h.target_block, h.target_eq (by omega) (by omega)]
  case odd_eq => rw [hodd_eq, h.target_block, h.target_eq (by omega) (by omega)]
  case full_eq => rw [hfull_eq, h.target_block, h.target_eq (by omega) (by omega)]

end

/-- A run of the test, from the check of the erased block on. -/
theorem runs_testProgramAndCleanup {chip : Nor.Chip} {flash : FlashDevice} {block size : Nat} {stack : Nat → UInt16}
    {s s' : Nor.State} {u : Unit} {calls : List Call} (h : SelectedBlock chip flash block size)
    (hchip : chip.polls ≤ waitPolls) (hidle : Idle s)
    (hrun : Runs chip.device (testProgramAndCleanup flash block size stack) s u calls s') :
    ∃ s₁ status expected, Idle s' ∧ chip.Within ⟨.main, block⟩ s s₁ ∧ SameCells ⟨.main, block⟩ s₁ s' ∧
      Call.check (ascii "cleanup erased the complete block")
        (cfiRangeIsBlank wrappingAdd (double (s₁.cells .main)) block size).run ∈ calls ∧
      chip.ShowsLocks s' (wrap32 (block + 4)) status ∧ (expected = 1 ∨ expected = 3) ∧
      Call.eqU32 (ascii "clean block final lock state") expected (status &&& 0x3).toUInt32 ∈ calls := by
  obtain ⟨previousBlock, l₁, s₁, _, hprevious, hp₁, hl₁⟩ := Runs.bind_iff.mp hrun
  obtain ⟨nextBlock, l₂, s₂, _, hnext, hp₂, hl₂⟩ := Runs.bind_iff.mp hp₁
  obtain ⟨_, l₃, s₃, _, hlocked, hp₃, hl₃⟩ := Runs.bind_iff.mp hp₂
  obtain ⟨_, l₄, s₄, _, hprograms, hp₄, hl₄⟩ := Runs.bind_iff.mp hp₃
  obtain ⟨_, l₅, s₅, _, herase, hp₅, hl₅⟩ := Runs.bind_iff.mp hp₄
  obtain ⟨blank, l₆, s₆, _, hblank, hp₆, hl₆⟩ := Runs.bind_iff.mp hp₅
  obtain ⟨_, l₇, s₇, _, htell, hp₇, hl₇⟩ := Runs.bind_iff.mp hp₆
  obtain ⟨unlockedState, l₈, s₈, _, hlocks, hfinal, hl₈⟩ := Runs.bind_iff.mp hp₇
  have hready : Still chip s := still_of_ready hidle.phase
  obtain rfl := stays_readWords hready _ _ _ _ _ hprevious
  obtain rfl := stays_readWords hready _ _ _ _ _ hnext
  obtain ⟨hidle₃, hwithin₃⟩ := keeps_testLockedBlock hchip _ _ _ _ hidle hlocked
  obtain ⟨hidle₄, hwithin₄⟩ := keeps_testPrograms hchip h.buffersFit stack previousBlock _ _ _ _ hidle₃ hprograms
  obtain ⟨hidle₅, hwithin₅⟩ := keeps_testErase hchip previousBlock _ _ _ _ hidle₄ herase
  obtain ⟨hs₆, hverdict⟩ := runs_busRangeIsBlankFrom hidle₅.phase (by rw [hidle₅.mode]; rfl) hblank
  obtain ⟨hs₇, hl⟩ := Runs.tell_iff.mp htell
  rw [hs₇, hs₆] at hlocks
  obtain ⟨hidle₈, hsame₈⟩ := keeps_testLocks hchip previousBlock nextBlock _ _ _ _ hidle₅ hlocks
  obtain ⟨hidle', hsame', status, hshows, hreport⟩ := runs_testFinalLock hchip hidle₈ hfinal
  rw [h.target_block] at hwithin₃ hwithin₄ hwithin₅ hsame₈ hsame'
  refine ⟨s₅, status, if unlockedState = 0 then 1 else 3, hidle',
    IsTrans.trans _ _ _ (IsTrans.trans _ _ _ hwithin₃ hwithin₄) hwithin₅,
    IsTrans.trans _ _ _ hsame₈ hsame', ?_, hshows, ?_, ?_⟩
  · rw [hl₁, hl₂, hl₃, hl₄, hl₅, hl₆, hl₇, hl, hverdict]
    simp [cfiRangeIsBlank]
  · split
    · exact .inl rfl
    · exact .inr rfl
  · rw [hl₁, hl₂, hl₃, hl₄, hl₅, hl₆, hl₇, hl₈]
    simp only [List.mem_append, hreport, or_true]

/-- The loop over a range of words finds whether all of them are blank. -/
theorem rangeIsBlank_iff (cells : Nat → UInt16) {block size : Nat} (hblock : 4 ∣ block) (hsize : 4 ∣ size)
    (hlt : block + size < 2 ^ 32) :
    (cfiRangeIsBlank wrappingAdd (double cells) block size).run = true ↔
      ∀ a, block ≤ a → a < block + size → 4 ∣ a → double cells a = 0xFFFFFFFF := by
  obtain ⟨w, rfl⟩ := hsize
  have hwords : (4 * w + 3) / 4 = w := by omega
  have hblank := @rangeIsBlankFrom_eq Id _ wrappingAdd (double cells) _ block
    (fun offset => block + offset) w 0 (fun k hk => wrap32_of_lt (by omega)) (fun k hk => wrap32_of_lt (by omega))
  rw [cfiRangeIsBlank, hwords, hblank, Id.run_pure, decide_eq_true_eq]
  constructor
  · intro hall a hle hend hd
    obtain ⟨b, rfl⟩ := hblock
    obtain ⟨c, rfl⟩ := hd
    have hword := hall (c - b) (by omega)
    rwa [Nat.zero_add, show 4 * b + 4 * (c - b) = 4 * c by omega] at hword
  · intro hall k hk
    exact hall _ (by omega) (by omega) (by omega)

/-- The words of a range are blank. -/
def BlankRange (s : Nor.State) (block size : Nat) : Prop :=
  ∀ a, block ≤ a → a < block + size → 4 ∣ a → double (s.cells .main) a = 0xFFFFFFFF

theorem SelectedBlock.blank_iff {chip : Nor.Chip} {flash : FlashDevice} {block size : Nat}
    (h : SelectedBlock chip flash block size) (s : Nor.State) :
    (cfiRangeIsBlank wrappingAdd (double (s.cells .main)) block size).run = true ↔ BlankRange s block size :=
  rangeIsBlank_iff (s.cells .main) h.four_dvd_block h.four_dvd_size h.end_lt

/-- How a chip is divided at a block, and that it takes as many words at a time as its table says. -/
structure AgreesAt (chip : Nor.Chip) (flash : FlashDevice) (block size : Nat) : Prop where
  inside : ∀ a, block ≤ a → a < block + size → chip.block .main a = block
  outside : ∀ a, chip.block .main a = block → block ≤ a ∧ a < block + size
  bufferWords : flash.writeBufferSize / 2 ≤ chip.bufferWords

/-- What the search finds, with the room that the test takes. -/
theorem selectedBlock_of_blankBlock {chip : Nor.Chip} {table : Chip} {flash : FlashDevice} {block size : Nat}
    (hprobed : Probed flash) (hfound : BlankBlock table flash block size) (hagrees : AgreesAt chip flash block size)
    (hseven : 14 ≤ flash.writeBufferSize) (hodd : flash.writeBufferSize * 2 + 14 ≤ size) :
    SelectedBlock chip flash block size := by
  obtain ⟨o, rfl, hlaid, -, hend, -⟩ := hfound
  have hbase := base_add_size_lt hprobed
  have hfour : ∀ x ∈ flash.blockSizes, 4 ∣ x := fun x hx =>
    Nat.dvd_trans (show 4 ∣ 256 by decide) (blockSizes_read hprobed hx).1
  obtain ⟨hdo, hds⟩ := hlaid.dvd hfour
  exact {
    inside := hagrees.inside
    outside := hagrees.outside
    end_lt := by omega
    four_dvd_block := Nat.dvd_add (four_dvd_base hprobed) hdo
    four_dvd_size := hds
    seven_words := hseven
    buffer_le := hprobed.writeBufferSize_le
    odd_buffer := hodd
    bufferWords := hagrees.bufferWords
  }

/-- What the test leaves of a chip that it finds in `s`. -/
structure Leaves (block size : Nat) (s : Nor.State) (calls : List Call) (s' : Nor.State) : Prop where
  /-- the verdict on the erased block is true -/
  verdict : ∃ blank, Call.check (ascii "cleanup erased the complete block") blank ∈ calls ∧
    (blank = true ↔ BlankRange s' block size)
  /-- nothing is lost by a run that passes -/
  restored : (∀ call ∈ calls, call.fails = false) →
    ∀ a, 4 ∣ a → double (s'.cells .main) a = double (s.cells .main) a
  locked : (∀ call ∈ calls, call.fails = false) → s'.locks ⟨.main, block⟩ = 1 ∨ s'.locks ⟨.main, block⟩ = 3

/-- The words outside of the block are kept. -/
theorem double_eq_of_within {chip : Nor.Chip} {plane : Plane} {block size : Nat}
    (houtside : ∀ a, chip.block plane a = block → block ≤ a ∧ a < block + size) (hblock : 4 ∣ block)
    (hsize : 4 ∣ size) {s s' : Nor.State} (hwithin : chip.Within ⟨plane, block⟩ s s') {a : Nat} (hd : 4 ∣ a)
    (hout : ¬ (block ≤ a ∧ a < block + size)) : double (s'.cells plane) a = double (s.cells plane) a := by
  have hother : ∀ b, ¬ (block ≤ b ∧ b < block + size) → s'.cells plane b = s.cells plane b := by
    intro b hb
    refine hwithin.cells plane b fun htarget => hb (houtside b ?_)
    exact congrArg Target.block htarget
  rw [double, double, hother a hout, hother (a + 2) (by omega)]

/-- Two bits of a status that pass as locked. -/
theorem locked_of_bits {bits : UInt16} {expected : UInt32} {lock : Fin 4} (hexpected : expected = 1 ∨ expected = 3)
    (hbits : bits.toNat = lock) (hequal : bits.toUInt32 = expected) : lock = 1 ∨ lock = 3 := by
  rw [← UInt16.toNat_toUInt32, hequal] at hbits
  rcases hexpected with rfl | rfl
  · exact .inl (Fin.ext hbits.symm)
  · exact .inr (Fin.ext hbits.symm)

theorem lock_of_shows {chip : Nor.Chip} {flash : FlashDevice} {block size : Nat}
    (h : SelectedBlock chip flash block size) {s : Nor.State} {status : UInt16} {expected : UInt32}
    (hexpected : expected = 1 ∨ expected = 3) (hshows : chip.ShowsLocks s (wrap32 (block + 4)) status)
    (hequal : (status &&& 0x3).toUInt32 = expected) :
    s.locks ⟨.main, block⟩ = 1 ∨ s.locks ⟨.main, block⟩ = 3 := by
  have hlt := h.end_lt
  have hroom := h.odd_buffer
  rw [wrap32_of_lt (by omega)] at hshows
  have hlock := (hshows block rfl).1 (h.inside _ (by omega) (by omega))
  refine locked_of_bits hexpected ?_ hequal
  rw [← hlock, UInt16.toNat_and]
  exact Nat.and_two_pow_sub_one_eq_mod status.toNat 2

section

variable {chip : Nor.Chip} {table : Chip} {flash : FlashDevice} {block size : Nat}

/-- **The test changes no other block.** On a chip that is done with an operation before `cfi_wait_ready` gives
up, and in a block with room for the three buffers, it has runs, and all of them end with a chip that is ready and
shows its array, and with the cells and locks of the other blocks as they were. -/
theorem testProgramAndCleanup_keeps (hprobed : Probed flash) (hfound : BlankBlock table flash block size)
    (hagrees : AgreesAt chip flash block size) (hseven : 14 ≤ flash.writeBufferSize)
    (hodd : flash.writeBufferSize * 2 + 14 ≤ size) (hpolls : chip.polls ≤ waitPolls) (stack : Nat → UInt16)
    {s : Nor.State} (hidle : Idle s) :
    (∃ u calls s', Runs chip.device (testProgramAndCleanup flash block size stack) s u calls s') ∧
      Ends chip.device s (testProgramAndCleanup flash block size stack) fun _ _ s' =>
        Idle s' ∧ chip.Within ⟨.main, block⟩ s s' := by
  have h := selectedBlock_of_blankBlock hprobed hfound hagrees hseven hodd
  refine ⟨exists_runs chip.total_device _ s, fun u calls s' hrun => ?_⟩
  obtain ⟨s₁, status, expected, hidle', hwithin, hsame, -⟩ := runs_testProgramAndCleanup h hpolls hidle hrun
  exact ⟨hidle', IsTrans.trans _ _ _ hwithin hsame.within⟩

/-- **A run that passes has restored the chip.** In every run the verdict on the erased block is right. If no
assertion fails, every word of the array is what it was when the block was found, and the block is locked. -/
theorem testProgramAndCleanup_restores (hprobed : Probed flash) (hfound : BlankBlock table flash block size)
    (hagrees : AgreesAt chip flash block size) (hseven : 14 ≤ flash.writeBufferSize)
    (hodd : flash.writeBufferSize * 2 + 14 ≤ size) (hpolls : chip.polls ≤ waitPolls) (stack : Nat → UInt16)
    {s : Nor.State} (hidle : Idle s) (harray : table.array = double (s.cells .main)) :
    Ends chip.device s (testProgramAndCleanup flash block size stack) fun _ calls s' =>
      Leaves block size s calls s' := by
  have h := selectedBlock_of_blankBlock hprobed hfound hagrees hseven hodd
  have hblank : BlankRange s block size := by
    obtain ⟨o, -, -, -, -, hall⟩ := hfound
    rwa [harray] at hall
  intro u calls s' hrun
  obtain ⟨s₁, status, expected, hidle', hwithin, hsame, hcheck, hshows, hexpected, hlock⟩ :=
    runs_testProgramAndCleanup h hpolls hidle hrun
  have hrange : BlankRange s₁ block size ↔ BlankRange s' block size := by
    rw [BlankRange, BlankRange, hsame.cells]
  constructor
  case verdict => exact ⟨_, hcheck, (h.blank_iff s₁).trans hrange⟩
  case restored =>
    intro hpasses a hd
    have hverdict : (cfiRangeIsBlank wrappingAdd (double (s₁.cells .main)) block size).run = true := by
      simpa only [Call.fails, Bool.not_eq_false'] using hpasses _ hcheck
    by_cases hin : block ≤ a ∧ a < block + size
    · rw [hrange.mp ((h.blank_iff s₁).mp hverdict) a hin.1 hin.2 hd, hblank a hin.1 hin.2 hd]
    · have hwhole : chip.Within ⟨.main, block⟩ s s' := IsTrans.trans _ _ _ hwithin hsame.within
      exact double_eq_of_within h.outside h.four_dvd_block h.four_dvd_size hwhole hd hin
  case locked =>
    intro hpasses
    refine lock_of_shows h hexpected hshows ?_
    simpa only [Call.fails, bne_eq_false_iff_eq] using hpasses _ hlock

/-! ### An instance -/

/-- Blocks of 64 KiB, and a buffer of 16 words. -/
def uniformChip : Nor.Chip where
  block _ address := address / 2 ^ 16 * 2 ^ 16
  bufferWords := 16
  polls := 1000

/-- A locked chip without data. -/
def blankState : Nor.State where
  cells _ _ := 0xFFFF
  locks _ := 1
  mode := .array
  phase := .ready
  polls := 0

theorem array_blankChip : (blankChip uniformWords).array = double (blankState.cells .main) := by
  funext address
  change (0xFFFFFFFF : UInt32) = (0xFFFF : UInt16).toUInt32 ||| (0xFFFF : UInt16).toUInt32 <<< 16
  decide

theorem probed_uniform : Probed (sampleFlash [⟨16, 2 ^ 16⟩]) :=
  probed_of_cfiProbe (show cfiProbe (blankChip uniformWords) .zero = some (sampleFlash [⟨16, 2 ^ 16⟩]) from rfl)

theorem blankBlock_uniform :
    BlankBlock (blankChip uniformWords) (sampleFlash [⟨16, 2 ^ 16⟩]) (windowBase + 2 ^ 16) (2 ^ 16) := by
  refine ⟨2 ^ 16, rfl, ?_, by decide, by decide, fun _ _ _ _ => rfl⟩
  exact LaidAt.replicate (n := 16) (k := 1) (by decide) (2 ^ 16)

theorem agreesAt_uniform :
    AgreesAt uniformChip (sampleFlash [⟨16, 2 ^ 16⟩]) (windowBase + 2 ^ 16) (2 ^ 16) := by
  constructor
  case inside =>
    intro a hle hlt
    change a / 2 ^ 16 * 2 ^ 16 = windowBase + 2 ^ 16
    rw [windowBase] at hle hlt ⊢
    omega
  case outside =>
    intro a ha
    change a / 2 ^ 16 * 2 ^ 16 = windowBase + 2 ^ 16 at ha
    rw [windowBase] at ha ⊢
    omega
  case bufferWords => decide

theorem testProgramAndCleanup_keeps_uniform :
    (∃ u calls s', Runs uniformChip.device
      (testProgramAndCleanup (sampleFlash [⟨16, 2 ^ 16⟩]) (windowBase + 2 ^ 16) (2 ^ 16) fun _ => 0)
      blankState u calls s') ∧
      Ends uniformChip.device blankState
        (testProgramAndCleanup (sampleFlash [⟨16, 2 ^ 16⟩]) (windowBase + 2 ^ 16) (2 ^ 16) fun _ => 0)
        fun _ _ s' => Idle s' ∧ uniformChip.Within ⟨.main, windowBase + 2 ^ 16⟩ blankState s' :=
  testProgramAndCleanup_keeps probed_uniform blankBlock_uniform agreesAt_uniform (by decide) (by decide)
    (by decide) (fun _ => 0) ⟨rfl, rfl⟩

theorem testProgramAndCleanup_restores_uniform :
    Ends uniformChip.device blankState
      (testProgramAndCleanup (sampleFlash [⟨16, 2 ^ 16⟩]) (windowBase + 2 ^ 16) (2 ^ 16) fun _ => 0)
      fun _ calls s' => Leaves (windowBase + 2 ^ 16) (2 ^ 16) blankState calls s' :=
  testProgramAndCleanup_restores probed_uniform blankBlock_uniform agreesAt_uniform (by decide) (by decide)
    (by decide) (fun _ => 0) ⟨rfl, rfl⟩ array_blankChip

end

end Pmb887x.CfiIntel
