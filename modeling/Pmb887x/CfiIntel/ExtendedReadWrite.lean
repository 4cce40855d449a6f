import Pmb887x.CfiIntel.ReadWrite

set_option autoImplicit false

/-! # The extended array (`unit/cfi-intel/efa-rw.c`)

The test looks for a blank block of the extended array, programs a word of it and erases it again. The extended
array has the addresses of the main one, and reads show it only behind a command of its own. -/

namespace Pmb887x.CfiIntel

open Library Library.Nor Library.Nor.Chip BusProgram
open UnitTest (Call Text)
open Boot.Output (ascii)

/-! ## The test -/

section

variable (flash : FlashDevice)

/-- `cfi_find_blank_efa_block`, with so many blocks left. -/
def cfiFindBlankEfaBlockFrom : (blocks block : Nat) → Test (Option Nat)
  | 0, _ => return none
  | blocks + 1, block => do
      let candidate := wrap32 (flash.base + block * flash.efaBlockSize)
      let blank ← cfiEfaRangeIsBlank candidate flash.efaBlockSize
      if blank then return some candidate else cfiFindBlankEfaBlockFrom blocks (block + 1)

def cfiFindBlankEfaBlock : Test (Option Nat) := cfiFindBlankEfaBlockFrom flash flash.efaBlocks 0

variable (address : Nat)

def testEfaLockState (name : String) (expected : UInt32) : Test Unit := do
  let status ← cfiReadEfaLockStatus address
  testEqU32 name expected status.toUInt32

def testEfaUnlock (name : String) : Test Unit := do
  let status ← cfiUnlockBlock address true
  testOperation name status

def testEfaLock (name : String) : Test Unit := do
  let status ← cfiLockBlock address true
  testOperation name status

/-- The first part of `test_efa_program_and_cleanup`: a word is programmed. -/
def testEfaProgram (mainArray : List UInt16) : Test Unit := do
  testEfaLockState address "EFA block starts locked" 1
  testEfaUnlock address "EFA block unlock completes"
  testEfaLockState address "EFA block is unlocked" 0
  let status ← cfiProgramWord flash address 0xA55A true
  testOperation "EFA word program completes" status
  let word ← cfiReadEfaWord address
  testEqU32 "EFA word reads back" 0xA55A word.toUInt32
  testEqMemory "main array is unchanged" (memoryBytes mainArray) flash.base

/-- The second part: the block is locked, unlocked and erased. -/
def testEfaErase : Test Unit := do
  testEfaLock address "EFA block lock completes"
  testEfaLockState address "EFA block is locked again" 1
  testEfaUnlock address "EFA block unlock completes"
  let status ← cfiEraseBlock address true
  testOperation "EFA cleanup erase completes" status

/-- The third part: the locks. The state of the block that was locked down and unlocked. -/
def testEfaLocks (mainArray : List UInt16) : Test UInt16 := do
  testEfaLock address "EFA block lock completes"
  testEfaLockState address "clean EFA block is locked" 1
  testEqMemory "cleanup preserves main array" (memoryBytes mainArray) flash.base
  let status ← cfiLockDownBlock address true
  testOperation "EFA block lock-down completes" status
  testEfaLockState address "clean EFA block is locked-down" 3
  testEfaUnlock address "locked-down EFA block unlock completes"
  cfiReadEfaLockStatus address

/-- The last part: the block is left locked. -/
def testEfaFinalLock (unlockedState : UInt16) : Test Unit := do
  testCheck "locked-down EFA block unlock state is valid" (unlockedState = 0 || unlockedState = 2)
  testEfaLock address "EFA block final lock completes"
  testEfaLockState address "clean EFA block final lock state" (if unlockedState = 0 then 1 else 3)

def testEfaProgramAndCleanup : Test Unit := do
  let mainArray ← readWords 4 flash.base
  testEfaProgram flash address mainArray
  testEfaErase address
  let blank ← cfiEfaRangeIsBlank address flash.efaBlockSize
  testCheck "EFA cleanup erased the complete block" blank
  let unlockedState ← testEfaLocks flash address mainArray
  testEfaFinalLock address unlockedState

/-- `main` behind the discovery of the flash. -/
def efaReadWrite : Test Unit := do
  match ← cfiFindBlankEfaBlock flash with
  | none => testSkip "blank EFA block is found" "all EFA blocks contain data"
  | some address =>
      testCheck "blank EFA block is found" true
      testEfaProgramAndCleanup flash address

end

/-! ## Reading the extended array -/

section

variable {chip : Nor.Chip} {flash : FlashDevice} {s s' : Nor.State} {l : List Call} {address : Nat}

theorem runs_cfiReadEfaWord {value : UInt16} (hidle : Idle s)
    (h : Runs chip.device (cfiReadEfaWord address) s value l s') : s' = s := by
  have hextended := runs_mode_bind hidle.phase rfl h
  obtain ⟨value', -, hrest⟩ := runs_read_bind (s := { s with mode := .extended }) hidle.phase hextended
  obtain ⟨-, -, rfl⟩ := Runs.pure_iff.mp (runs_mode_bind (s := { s with mode := .extended }) hidle.phase rfl hrest)
  exact hidle.eta

theorem runs_cfiReadEfaLockStatus {value : UInt16} (hidle : Idle s)
    (h : Runs chip.device (cfiReadEfaLockStatus address) s value l s') :
    s' = s ∧ ∃ status, chip.ShowsLocks s (wrap32 (address + 4)) status ∧ value = status >>> 4 &&& 3 := by
  obtain ⟨status, _, s₁, _, hread, hrest, -⟩ := Runs.bind_iff.mp h
  obtain ⟨rfl, hshows⟩ := runs_cfiReadLock hidle hread
  obtain ⟨hvalue, -, hs'⟩ := Runs.pure_iff.mp hrest
  exact ⟨hs', status, hshows, hvalue⟩

/-- The verdict is about the cells of the extended array. -/
theorem runs_cfiEfaRangeIsBlank {size : Nat} {blank : Bool} (hidle : Idle s)
    (h : Runs chip.device (cfiEfaRangeIsBlank address size) s blank l s') :
    s' = s ∧ blank = (cfiRangeIsBlank wrappingAdd (double (s.cells .extended)) address size).run := by
  have hextended := runs_mode_bind hidle.phase rfl h
  obtain ⟨found, _, s₁, _, hrange, hrest, -⟩ := Runs.bind_iff.mp hextended
  obtain ⟨rfl, hfound⟩ :=
    runs_busRangeIsBlankFrom (s := { s with mode := .extended }) hidle.phase rfl hrange
  obtain ⟨hblank, hs', -⟩ := idle_of_array (s := { s with mode := .extended }) hidle.phase hrest
  exact ⟨hs'.trans hidle.eta, hblank.trans hfound⟩

/-- The search changes nothing, and what it finds is blank. -/
theorem runs_cfiFindBlankEfaBlockFrom {blocks block : Nat} {found : Option Nat} (hidle : Idle s)
    (h : Runs chip.device (cfiFindBlankEfaBlockFrom flash blocks block) s found l s') :
    s' = s ∧ ∀ address, found = some address →
      ∃ k < block + blocks, address = wrap32 (flash.base + k * flash.efaBlockSize) ∧
        (cfiRangeIsBlank wrappingAdd (double (s.cells .extended)) address flash.efaBlockSize).run = true := by
  induction blocks generalizing block l with
  | zero =>
      obtain ⟨rfl, -, hs'⟩ := Runs.pure_iff.mp h
      exact ⟨hs', nofun⟩
  | succ blocks ih =>
      obtain ⟨blank, _, s₁, _, hrange, hrest, -⟩ := Runs.bind_iff.mp h
      obtain ⟨rfl, hblank⟩ := runs_cfiEfaRangeIsBlank hidle hrange
      cases blank with
      | true =>
          obtain ⟨rfl, -, hs'⟩ := Runs.pure_iff.mp hrest
          refine ⟨hs', fun address haddress => ?_⟩
          obtain rfl := Option.some.inj haddress
          exact ⟨block, by omega, rfl, hblank.symm⟩
      | false =>
          obtain ⟨hs', hfound⟩ := ih hrest
          refine ⟨hs', fun address haddress => ?_⟩
          obtain ⟨k, hk, hrest⟩ := hfound address haddress
          exact ⟨k, by omega, hrest⟩

end

/-! ## The parts of the test -/

section

variable {chip : Nor.Chip} {flash : FlashDevice} {address : Nat}

theorem keeps_testEfaLockState {R : Nor.State → Nor.State → Prop} [Std.Refl R] (name : String) (expected : UInt32) :
    Keeps chip.device Idle R (testEfaLockState address name expected) :=
  .of_stays fun _ hidle => .bind (fun _ _ _ h => (runs_cfiReadEfaLockStatus hidle h).1) fun _ => .tell _

theorem keeps_cfiReadEfaWord {R : Nor.State → Nor.State → Prop} [Std.Refl R] :
    Keeps chip.device Idle R (cfiReadEfaWord address : Test UInt16) :=
  .of_stays fun _ hidle _ _ _ h => runs_cfiReadEfaWord hidle h

variable (hchip : chip.polls ≤ waitPolls)
include hchip

theorem keeps_testEfaLock (name : String) :
    Keeps chip.device Idle (SameCells (chip.target .extended address)) (testEfaLock address name) :=
  (keeps_cfiLockBlock hchip true).bind fun status => keeps_testOperation name status

theorem keeps_testEfaUnlock (name : String) :
    Keeps chip.device Idle (SameCells (chip.target .extended address)) (testEfaUnlock address name) :=
  (keeps_cfiUnlockBlock hchip true).bind fun status => keeps_testOperation name status

theorem keeps_testEfaProgram (mainArray : List UInt16) :
    Keeps chip.device Idle (chip.Within (chip.target .extended address))
      (testEfaProgram flash address mainArray) := by
  refine .bind (keeps_testEfaLockState _ _) fun _ => ?_
  refine .bind ((keeps_testEfaUnlock hchip _).mono fun _ _ => SameCells.within) fun _ => ?_
  refine .bind (keeps_testEfaLockState _ _) fun _ => ?_
  refine .bind (keeps_cfiProgramWord hchip flash 0xA55A true) fun status => ?_
  refine .bind (keeps_testOperation _ _) fun _ => .bind keeps_cfiReadEfaWord fun word => ?_
  exact .bind (.tell _) fun _ => keeps_testEqMemory _ _ _

theorem keeps_testEfaErase :
    Keeps chip.device Idle (chip.Within (chip.target .extended address)) (testEfaErase address) := by
  refine .bind ((keeps_testEfaLock hchip _).mono fun _ _ => SameCells.within) fun _ => ?_
  refine .bind (keeps_testEfaLockState _ _) fun _ => ?_
  refine .bind ((keeps_testEfaUnlock hchip _).mono fun _ _ => SameCells.within) fun _ => ?_
  exact .bind (keeps_cfiEraseBlock hchip true) fun status => keeps_testOperation _ _

/-- Behind the check of the erased block no cell is changed any more. -/
theorem keeps_testEfaLocks (mainArray : List UInt16) :
    Keeps chip.device Idle (SameCells (chip.target .extended address)) (testEfaLocks flash address mainArray) := by
  refine .bind (keeps_testEfaLock hchip _) fun _ => .bind (keeps_testEfaLockState _ _) fun _ => ?_
  refine .bind (keeps_testEqMemory _ _ _) fun _ => .bind (keeps_cfiLockDownBlock hchip true) fun status => ?_
  refine .bind (keeps_testOperation _ _) fun _ => .bind (keeps_testEfaLockState _ _) fun _ => ?_
  refine .bind (keeps_testEfaUnlock hchip _) fun _ => .of_stays fun _ hidle => ?_
  exact fun _ _ _ h => (runs_cfiReadEfaLockStatus hidle h).1

/-- The last report is about the lock that the block is left with. -/
theorem runs_testEfaFinalLock {s s' : Nor.State} {l : List Call} {u : Unit} {unlockedState : UInt16} (hidle : Idle s)
    (h : Runs chip.device (testEfaFinalLock address unlockedState) s u l s') :
    Idle s' ∧ SameCells (chip.target .extended address) s s' ∧
      ∃ status, chip.ShowsLocks s' (wrap32 (address + 4)) status ∧
        Call.eqU32 (ascii "clean EFA block final lock state") (if unlockedState = 0 then 1 else 3)
          (status >>> 4 &&& 3).toUInt32 ∈ l := by
  obtain ⟨_, l₁, s₁, _, hvalid, hp₁, hl₁⟩ := Runs.bind_iff.mp h
  obtain ⟨_, l₂, s₂, _, hlock, hp₂, hl₂⟩ := Runs.bind_iff.mp hp₁
  obtain ⟨value, l₃, s₃, _, hread, htell, hl₃⟩ := Runs.bind_iff.mp hp₂
  obtain ⟨hs₁, -⟩ := Runs.tell_iff.mp hvalid
  rw [hs₁] at hlock
  obtain ⟨hidle₂, hsame⟩ := keeps_testEfaLock hchip _ _ _ _ _ hidle hlock
  obtain ⟨hs₃, status, hshows, hvalue⟩ := runs_cfiReadEfaLockStatus hidle₂ hread
  obtain ⟨hs', hl⟩ := Runs.tell_iff.mp htell
  rw [hs', hs₃]
  refine ⟨hidle₂, hsame, status, hshows, ?_⟩
  rw [hl₁, hl₂, hl₃, hl, ← hvalue]
  simp

/-- A run of the test, from the check of the erased block on. -/
theorem runs_testEfaProgramAndCleanup {s s' : Nor.State} {u : Unit} {calls : List Call} (hidle : Idle s)
    (hrun : Runs chip.device (testEfaProgramAndCleanup flash address) s u calls s') :
    ∃ s₁ status expected, Idle s' ∧ chip.Within (chip.target .extended address) s s₁ ∧
      SameCells (chip.target .extended address) s₁ s' ∧
      Call.check (ascii "EFA cleanup erased the complete block")
        (cfiRangeIsBlank wrappingAdd (double (s₁.cells .extended)) address flash.efaBlockSize).run ∈ calls ∧
      chip.ShowsLocks s' (wrap32 (address + 4)) status ∧ (expected = 1 ∨ expected = 3) ∧
      Call.eqU32 (ascii "clean EFA block final lock state") expected (status >>> 4 &&& 3).toUInt32 ∈ calls := by
  obtain ⟨mainArray, l₁, s₁, _, hmain, hp₁, hl₁⟩ := Runs.bind_iff.mp hrun
  obtain ⟨_, l₂, s₂, _, hprogram, hp₂, hl₂⟩ := Runs.bind_iff.mp hp₁
  obtain ⟨_, l₃, s₃, _, herase, hp₃, hl₃⟩ := Runs.bind_iff.mp hp₂
  obtain ⟨blank, l₄, s₄, _, hblank, hp₄, hl₄⟩ := Runs.bind_iff.mp hp₃
  obtain ⟨_, l₅, s₅, _, htell, hp₅, hl₅⟩ := Runs.bind_iff.mp hp₄
  obtain ⟨unlockedState, l₆, s₆, _, hlocks, hfinal, hl₆⟩ := Runs.bind_iff.mp hp₅
  obtain rfl := stays_readWords (still_of_ready hidle.phase) _ _ _ _ _ hmain
  obtain ⟨hidle₂, hwithin₂⟩ := keeps_testEfaProgram hchip mainArray _ _ _ _ hidle hprogram
  obtain ⟨hidle₃, hwithin₃⟩ := keeps_testEfaErase hchip _ _ _ _ hidle₂ herase
  obtain ⟨hs₄, hverdict⟩ := runs_cfiEfaRangeIsBlank hidle₃ hblank
  obtain ⟨hs₅, hl⟩ := Runs.tell_iff.mp htell
  rw [hs₅, hs₄] at hlocks
  obtain ⟨hidle₆, hsame₆⟩ := keeps_testEfaLocks hchip mainArray _ _ _ _ hidle₃ hlocks
  obtain ⟨hidle', hsame', status, hshows, hreport⟩ := runs_testEfaFinalLock hchip hidle₆ hfinal
  refine ⟨s₃, status, if unlockedState = 0 then 1 else 3, hidle', IsTrans.trans _ _ _ hwithin₂ hwithin₃,
    IsTrans.trans _ _ _ hsame₆ hsame', ?_, hshows, ?_, ?_⟩
  · rw [hl₁, hl₂, hl₃, hl₄, hl₅, hl, hverdict]
    simp
  · split
    · exact .inl rfl
    · exact .inr rfl
  · rw [hl₁, hl₂, hl₃, hl₄, hl₅, hl₆]
    simp only [List.mem_append, hreport, or_true]

end

/-! ## The whole test -/

/-- The chip divides its extended array as the record says, below the end of the address space. -/
structure ExtendedBlocks (chip : Nor.Chip) (flash : FlashDevice) : Prop where
  inside : ∀ k < flash.efaBlocks, ∀ a, flash.base + k * flash.efaBlockSize ≤ a →
    a < flash.base + k * flash.efaBlockSize + flash.efaBlockSize →
    chip.block .extended a = flash.base + k * flash.efaBlockSize
  outside : ∀ k < flash.efaBlocks, ∀ a, chip.block .extended a = flash.base + k * flash.efaBlockSize →
    flash.base + k * flash.efaBlockSize ≤ a ∧ a < flash.base + k * flash.efaBlockSize + flash.efaBlockSize
  end_lt : flash.base + flash.efaBlocks * flash.efaBlockSize < 2 ^ 32
  /-- what `find_test_flash` asks for, in the units of the table -/
  size_pos : 0 < flash.efaBlockSize
  size_dvd : 256 ∣ flash.efaBlockSize

/-- What the test leaves of the block of the extended array that it has chosen. -/
structure LeavesBlock (chip : Nor.Chip) (block size : Nat) (s : Nor.State) (calls : List Call) (s' : Nor.State) :
    Prop where
  /-- the block was blank -/
  blank : ∀ a, block ≤ a → a < block + size → 4 ∣ a → double (s.cells .extended) a = 0xFFFFFFFF
  within : chip.Within ⟨.extended, block⟩ s s'
  /-- the verdict on the erased block is true -/
  verdict : ∃ blank, Call.check (ascii "EFA cleanup erased the complete block") blank ∈ calls ∧
    (blank = true ↔ ∀ a, block ≤ a → a < block + size → 4 ∣ a → double (s'.cells .extended) a = 0xFFFFFFFF)
  /-- nothing is lost by a run that passes -/
  restored : (∀ call ∈ calls, call.fails = false) →
    ∀ a, 4 ∣ a → double (s'.cells .extended) a = double (s.cells .extended) a
  locked : (∀ call ∈ calls, call.fails = false) → s'.locks ⟨.extended, block⟩ = 1 ∨ s'.locks ⟨.extended, block⟩ = 3

section

variable {chip : Nor.Chip} {flash : FlashDevice} (hprobed : Probed flash) (hblocks : ExtendedBlocks chip flash)

/-- What holds of the block with the number `k`. -/
structure ExtendedBlock (chip : Nor.Chip) (block size : Nat) : Prop where
  inside : ∀ a, block ≤ a → a < block + size → chip.block .extended a = block
  outside : ∀ a, chip.block .extended a = block → block ≤ a ∧ a < block + size
  end_lt : block + size < 2 ^ 32
  four_dvd_block : 4 ∣ block
  four_dvd_size : 4 ∣ size
  four_lt_size : 4 < size

include hprobed hblocks in
theorem ExtendedBlocks.block {k : Nat} (hk : k < flash.efaBlocks) :
    ExtendedBlock chip (flash.base + k * flash.efaBlockSize) flash.efaBlockSize := by
  have hend := hblocks.end_lt
  have hlast : (k + 1) * flash.efaBlockSize ≤ flash.efaBlocks * flash.efaBlockSize := Nat.mul_le_mul_right _ hk
  rw [Nat.succ_mul] at hlast
  have hfour : 4 ∣ flash.efaBlockSize := Nat.dvd_trans (by decide) hblocks.size_dvd
  have hle := Nat.le_of_dvd hblocks.size_pos hblocks.size_dvd
  exact {
    inside := hblocks.inside k hk
    outside := hblocks.outside k hk
    end_lt := by omega
    four_dvd_block := Nat.dvd_add (four_dvd_base hprobed) (Nat.dvd_mul_left_of_dvd hfour k)
    four_dvd_size := hfour
    four_lt_size := by omega
  }

theorem ExtendedBlock.target_eq {block size : Nat} (h : ExtendedBlock chip block size) :
    chip.target .extended block = ⟨.extended, block⟩ := by
  have hsize := h.four_lt_size
  exact congrArg (Target.mk .extended) (h.inside block (Nat.le_refl _) (by omega))

theorem ExtendedBlock.lock_of_shows {block size : Nat} (h : ExtendedBlock chip block size) {s : Nor.State}
    {status : UInt16} {expected : UInt32} (hexpected : expected = 1 ∨ expected = 3)
    (hshows : chip.ShowsLocks s (wrap32 (block + 4)) status)
    (hequal : (status >>> 4 &&& 3).toUInt32 = expected) :
    s.locks ⟨.extended, block⟩ = 1 ∨ s.locks ⟨.extended, block⟩ = 3 := by
  have hlt := h.end_lt
  have hsize := h.four_lt_size
  rw [wrap32_of_lt (by omega)] at hshows
  have hlock := (hshows block rfl).2 (h.inside _ (by omega) (by omega))
  refine locked_of_bits hexpected ?_ hequal
  rw [← hlock, UInt16.toNat_and, UInt16.toNat_shiftRight]
  change status.toNat >>> 4 &&& 3 = status.toNat / 16 % 4
  rw [Nat.shiftRight_eq_div_pow]
  exact Nat.and_two_pow_sub_one_eq_mod (status.toNat / 16) 2

/-- Every run leaves the block that was blank blank, or says that it is not. -/
theorem ExtendedBlock.leaves {block : Nat} (h : ExtendedBlock chip block flash.efaBlockSize)
    (hpolls : chip.polls ≤ waitPolls) {s s' : Nor.State} {u : Unit} {calls : List Call} (hidle : Idle s)
    (hblank : (cfiRangeIsBlank wrappingAdd (double (s.cells .extended)) block flash.efaBlockSize).run = true)
    (hrun : Runs chip.device (testEfaProgramAndCleanup flash block) s u calls s') :
    Idle s' ∧ LeavesBlock chip block flash.efaBlockSize s calls s' := by
  obtain ⟨s₁, status, expected, hidle', hwithin, hsame, hcheck, hshows, hexpected, hlock⟩ :=
    runs_testEfaProgramAndCleanup hpolls hidle hrun
  rw [h.target_eq] at hwithin hsame
  have hwhole : chip.Within ⟨.extended, block⟩ s s' := IsTrans.trans _ _ _ hwithin hsame.within
  have hrange (cells : Nat → UInt16) := rangeIsBlank_iff cells h.four_dvd_block h.four_dvd_size h.end_lt
  refine ⟨hidle', (hrange _).mp hblank, hwhole, ⟨_, hcheck, ?_⟩, ?_, ?_⟩
  · rw [hsame.cells]
    exact hrange _
  · intro hpasses a hd
    have hverdict :
        (cfiRangeIsBlank wrappingAdd (double (s₁.cells .extended)) block flash.efaBlockSize).run = true := by
      simpa only [Call.fails, Bool.not_eq_false'] using hpasses _ hcheck
    by_cases hin : block ≤ a ∧ a < block + flash.efaBlockSize
    · rw [hsame.cells, (hrange _).mp hverdict a hin.1 hin.2 hd, (hrange _).mp hblank a hin.1 hin.2 hd]
    · exact double_eq_of_within h.outside h.four_dvd_block h.four_dvd_size hwhole hd hin
  · intro hpasses
    refine h.lock_of_shows hexpected hshows ?_
    simpa only [Call.fails, bne_eq_false_iff_eq] using hpasses _ hlock

include hprobed hblocks

/-- **The test keeps the main array, and gives the extended one back.** On a chip that is done with an operation
before `cfi_wait_ready` gives up, it has runs, and all of them end with a chip that is ready and shows its main
array. No cell and no lock of the main array has changed. Either nothing has changed at all, or one block that was
blank has been chosen: all other blocks are as they were, the verdict on the erased block is right, and a run in
which no assertion fails has restored every word and leaves the block locked. -/
theorem efaReadWrite_leaves (hpolls : chip.polls ≤ waitPolls) {s : Nor.State} (hidle : Idle s) :
    (∃ u calls s', Runs chip.device (efaReadWrite flash) s u calls s') ∧
      Ends chip.device s (efaReadWrite flash) fun _ calls s' =>
        Idle s' ∧ s'.cells .main = s.cells .main ∧ (∀ block, s'.locks ⟨.main, block⟩ = s.locks ⟨.main, block⟩) ∧
          (s' = s ∨ ∃ k < flash.efaBlocks,
            LeavesBlock chip (flash.base + k * flash.efaBlockSize) flash.efaBlockSize s calls s') := by
  refine ⟨exists_runs chip.total_device _ s, fun u calls s' hrun => ?_⟩
  obtain ⟨found, l₁, s₁, l₂, hfind, hrest, hcalls⟩ := Runs.bind_iff.mp hrun
  obtain ⟨rfl, hfound⟩ := runs_cfiFindBlankEfaBlockFrom hidle hfind
  cases found with
  | none =>
      obtain ⟨rfl, -⟩ := Runs.tell_iff.mp hrest
      exact ⟨hidle, rfl, fun _ => rfl, .inl rfl⟩
  | some address =>
      obtain ⟨_, l₃, s₂, l₄, htell, htest, hl₂⟩ := Runs.bind_iff.mp hrest
      obtain ⟨rfl, -⟩ := Runs.tell_iff.mp htell
      obtain ⟨k, hk, haddress, hblank⟩ := hfound address rfl
      rw [Nat.zero_add] at hk
      have hblock := hblocks.block hprobed hk
      have hlt := hblock.end_lt
      rw [wrap32_of_lt (by omega)] at haddress
      rw [haddress] at hblank htest
      obtain ⟨hidle', hleaves⟩ := hblock.leaves hpolls hidle hblank htest
      have hmain : ∀ a, chip.target .main a ≠ ⟨.extended, flash.base + k * flash.efaBlockSize⟩ := fun _ => nofun
      have hsub : ∀ call ∈ l₄, call ∈ calls := by
        intro call hcall
        rw [hcalls, hl₂]
        exact List.mem_append_right _ (List.mem_append_right _ hcall)
      obtain ⟨blank, hcheck, hiff⟩ := hleaves.verdict
      refine ⟨hidle', funext fun a => hleaves.within.cells .main a (hmain a),
        fun block => hleaves.within.locks _ nofun, .inr ⟨k, hk, ?_⟩⟩
      exact {
        blank := hleaves.blank
        within := hleaves.within
        verdict := ⟨blank, hsub _ hcheck, hiff⟩
        restored := fun hpasses => hleaves.restored fun call hcall => hpasses call (hsub call hcall)
        locked := fun hpasses => hleaves.locked fun call hcall => hpasses call (hsub call hcall)
      }

end

/-! ### An instance -/

/-- Four blocks of 64 KiB. -/
def extendedFlash : FlashDevice := { sampleFlash [⟨16, 2 ^ 16⟩] with efaBlocks := 4, efaBlockSize := 2 ^ 16 }

theorem probed_extendedFlash : Probed extendedFlash where
  base_eq := probed_uniform.base_eq
  size_eq := probed_uniform.size_eq
  size_le := probed_uniform.size_le
  regions_pos := probed_uniform.regions_pos
  length_erase := probed_uniform.length_erase
  erase := probed_uniform.erase
  two_le_writeBufferSize := probed_uniform.two_le_writeBufferSize
  writeBufferSize_le := probed_uniform.writeBufferSize_le

theorem extendedBlocks_uniform : ExtendedBlocks uniformChip extendedFlash := by
  constructor
  case inside =>
    intro k _ a hle hlt
    change windowBase + k * 2 ^ 16 ≤ a at hle
    change a < windowBase + k * 2 ^ 16 + 2 ^ 16 at hlt
    change a / 2 ^ 16 * 2 ^ 16 = windowBase + k * 2 ^ 16
    rw [windowBase] at hle hlt ⊢
    omega
  case outside =>
    intro k _ a ha
    change a / 2 ^ 16 * 2 ^ 16 = windowBase + k * 2 ^ 16 at ha
    change windowBase + k * 2 ^ 16 ≤ a ∧ a < windowBase + k * 2 ^ 16 + 2 ^ 16
    rw [windowBase] at ha ⊢
    omega
  case end_lt => decide
  case size_pos => decide
  case size_dvd => decide

theorem efaReadWrite_leaves_uniform :
    (∃ u calls s', Runs uniformChip.device (efaReadWrite extendedFlash) blankState u calls s') ∧
      Ends uniformChip.device blankState (efaReadWrite extendedFlash) fun _ calls s' =>
        Idle s' ∧ s'.cells .main = blankState.cells .main ∧
          (∀ block, s'.locks ⟨.main, block⟩ = blankState.locks ⟨.main, block⟩) ∧
          (s' = blankState ∨ ∃ k < 4,
            LeavesBlock uniformChip (windowBase + k * 2 ^ 16) (2 ^ 16) blankState calls s') :=
  efaReadWrite_leaves probed_extendedFlash extendedBlocks_uniform (by decide) ⟨rfl, rfl⟩

end Pmb887x.CfiIntel
