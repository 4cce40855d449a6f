import Pmb887x.CfiIntel.BufferAbort
import Pmb887x.Library.Nor

set_option autoImplicit false

/-! # Commands to a flash chip (`unit/cfi-intel/cfi.c`)

Each function gives a command, waits until the chip is ready and switches it back to reading the array. -/

namespace Pmb887x.CfiIntel

open Library Library.Nor Library.Nor.Chip BusProgram

variable {ρ : Type}

/-- `STATUS_READY` -/
def statusReady : UInt16 := 0x80

/-- The polls of `cfi_wait_ready`. -/
def waitPolls : Nat := 1000000

/-! ## The functions -/

def cfiEnterReadArray (base : Nat) : BusProgram ρ Unit := writeWord base 0xFF

def cfiEnterId (base : Nat) : BusProgram ρ Unit := writeWord base 0x90

def cfiEnterEfa (address : Nat) : BusProgram ρ Unit := writeWord address 0x94

/-- The rest of the loop of `cfi_wait_ready`, with the last status. -/
def cfiWaitReadyFrom (address : Nat) : (polls : Nat) → (status : UInt16) → BusProgram ρ UInt16
  | 0, status => pure status
  | polls + 1, _ => do
      let status ← readWord address
      if status &&& statusReady ≠ 0 then pure status else cfiWaitReadyFrom address polls status

def cfiWaitReady (address : Nat) : BusProgram ρ UInt16 := cfiWaitReadyFrom address waitPolls 0

/-- `cfi_read_lock_status` -/
def cfiReadLock (address : Nat) : BusProgram ρ UInt16 := do
  cfiEnterId address
  let status ← readWord (wrap32 (address + 2 * 2))
  cfiEnterReadArray address
  return status

def cfiClearStatus (address : Nat) : BusProgram ρ UInt16 := do
  writeWord address 0x50
  writeWord address 0x70
  let status ← readWord address
  cfiEnterReadArray address
  return status

/-- The end of every command of two cycles. -/
def cfiTwoCycles (address : Nat) (setup confirmation : UInt16) : BusProgram ρ UInt16 := do
  writeWord address setup
  writeWord address confirmation
  let status ← cfiWaitReady address
  cfiEnterReadArray address
  return status

def cfiUnlockBlock (address : Nat) (efa : Bool) : BusProgram ρ UInt16 := do
  writeWord address 0x50
  cfiTwoCycles address (if efa then 0x64 else 0x60) 0xD0

def cfiLockBlock (address : Nat) (efa : Bool) : BusProgram ρ UInt16 := do
  writeWord address 0x50
  cfiTwoCycles address (if efa then 0x64 else 0x60) 0x01

def cfiLockDownBlock (address : Nat) (efa : Bool) : BusProgram ρ UInt16 :=
  cfiTwoCycles address (if efa then 0x64 else 0x60) 0x2F

def cfiProgramWord (flash : FlashDevice) (address : Nat) (value : UInt16) (efa : Bool) :
    BusProgram ρ UInt16 := do
  writeWord address 0x50
  cfiTwoCycles address (if efa then 0x44 else if flash.manufacturer = 0x0020 then 0x41 else 0x40) value

/-- `for (uint32_t word = 0; word < words; word++)`, from one word on. -/
def writeBufferWords (address : Nat) (data : Nat → UInt16) : (words word : Nat) → BusProgram ρ Unit
  | 0, _ => pure ()
  | words + 1, word => do
      writeWord (wrap32 (address + word * 2)) (data word)
      writeBufferWords address data words (word + 1)

/-- A buffered program up to the status of the buffer. -/
def askForBuffer (flash : FlashDevice) (address : Nat) : BusProgram ρ UInt16 := do
  writeWord address 0x50
  writeWord address (if flash.manufacturer = 0x0020 then 0xE9 else 0xE8)
  cfiWaitReady address

/-- The words of a buffered program, with their number in front and the confirmation behind. -/
def loadBuffer (address : Nat) (data : Nat → UInt16) (words : Nat) : BusProgram ρ Unit := do
  writeWord address (UInt16.ofNat (words - 1))
  writeBufferWords address data words 0
  writeWord address 0xD0

/-- The status of the buffer and that of the program. -/
def cfiProgramBuffer (flash : FlashDevice) (address : Nat) (data : Nat → UInt16) (words : Nat) :
    BusProgram ρ (UInt16 × UInt16) := do
  let bufferStatus ← askForBuffer flash address
  loadBuffer address data words
  let status ← cfiWaitReady address
  cfiEnterReadArray address
  return (bufferStatus, status)

def cfiEraseBlock (address : Nat) (efa : Bool) : BusProgram ρ UInt16 := do
  writeWord address 0x50
  cfiTwoCycles address (if efa then 0x24 else 0x20) 0xD0

def cfiBlankCheck (address : Nat) : BusProgram ρ UInt16 := do
  let status ← cfiTwoCycles address 0xBC 0xD0
  writeWord address 0x50
  return status

def cfiReadEfaWord (address : Nat) : BusProgram ρ UInt16 := do
  cfiEnterEfa address
  let value ← readWord address
  cfiEnterReadArray address
  return value

def cfiReadEfaLockStatus (address : Nat) : BusProgram ρ UInt16 := do
  let status ← cfiReadLock address
  return status >>> 4 &&& 3

/-- `MMIO32`, on a bus of 16 bits. -/
def readDouble (address : Nat) : BusProgram ρ UInt32 := do
  let low ← readWord address
  let high ← readWord (address + 2)
  return low.toUInt32 ||| high.toUInt32 <<< 16

/-- The rest of the loop of `cfi_range_is_blank`. -/
def busRangeIsBlankFrom (address : Nat) : (words offset : Nat) → BusProgram ρ Bool
  | 0, _ => return true
  | words + 1, offset => do
      let value ← readDouble (wrap32 (address + offset))
      if value ≠ 0xFFFFFFFF then return false
      else busRangeIsBlankFrom address words (wrap32 (offset + 4))

/-- `cfi_range_is_blank` on a chip that is in use. -/
def busRangeIsBlank (address size : Nat) : BusProgram ρ Bool :=
  busRangeIsBlankFrom address ((size + 3) / 4) 0

def cfiEfaRangeIsBlank (address size : Nat) : BusProgram ρ Bool := do
  cfiEnterEfa address
  let blank ← busRangeIsBlank address size
  cfiEnterReadArray address
  return blank

/-! ## What they do to a chip

The chip must be done after as many looks at its status as `cfi_wait_ready` takes. -/

variable {chip : Nor.Chip} {s s' : Nor.State} {l : List ρ} {operation : Operation} {t : Target} {address : Nat}

theorem runs_cfiWaitReadyFrom {asked : Bool} {polls : Nat} {last status : UInt16} (hpolls : 0 < polls)
    (hdone : chip.polls ≤ s.polls + polls) (hphase : s.phase = .busy operation t asked)
    (h : Runs chip.device (cfiWaitReadyFrom address polls last) s status l s') :
    l = [] ∧ status &&& readyBit ≠ 0 ∧ chip.Affects operation t s s' ∧ s'.mode = s.mode ∧
      s'.phase =
        if asked = true ∧ status &&& operation.suspendBit ≠ 0 then .suspended operation t else .ready := by
  induction polls generalizing s last l with
  | zero => exact absurd hpolls (Nat.lt_irrefl 0)
  | succ polls ih =>
      obtain ⟨value, l₁, s₁, l₂, hread, hrest, hl⟩ := Runs.bind_iff.mp h
      obtain ⟨hreads, hl₁⟩ := Runs.readWord_iff.mp hread
      have hlooks : chip.Looks operation t asked s value s₁ := by
        simpa only [Chip.device, Chip.Reads, hphase] using hreads
      have hphase₁ := hlooks.phase
      by_cases hready : value &&& statusReady = 0
      · -- one look less for a chip that is one look closer to its end
        have hbusy : value &&& readyBit = 0 := hready
        obtain ⟨hlt, hcount⟩ := hlooks.polls hbusy
        rw [if_pos hbusy] at hphase₁
        rw [if_neg (not_not.mpr hready)] at hrest
        obtain ⟨hl₂, hstatus, haffects, hmode, hphase'⟩ := ih (by omega) (by omega) hphase₁ hrest
        refine ⟨by rw [hl, hl₁, hl₂, List.append_nil], hstatus, hlooks.affects.trans haffects, ?_, hphase'⟩
        rw [hmode, hlooks.mode]
      · have hnow : ¬ value &&& readyBit = 0 := hready
        rw [if_neg hnow] at hphase₁
        rw [if_pos hready] at hrest
        obtain ⟨rfl, hl₂, rfl⟩ := Runs.pure_iff.mp hrest
        exact ⟨by rw [hl, hl₁, hl₂, List.append_nil], hnow, hlooks.affects, hlooks.mode, hphase₁⟩

/-- `0x50` in front of a command clears errors and nothing else. -/
theorem runs_clearStatus_bind {α : Type} {p : BusProgram ρ α} {a : α} (hready : s.phase = .ready)
    (h : Runs chip.device (do writeWord address 0x50; p) s a l s') : Runs chip.device p s a l s' := by
  obtain ⟨_, l₁, s₁, l₂, hclear, hrest, hl⟩ := Runs.bind_iff.mp h
  obtain ⟨hwrites, hl₁⟩ := Runs.writeWord_iff.mp hclear
  obtain rfl := (writes_clearStatus hready).mp hwrites
  rwa [hl, hl₁]

/-- The commands that only choose what reads show. -/
theorem runs_mode_bind {α : Type} {p : BusProgram ρ α} {a : α} {value : UInt16} {mode : Mode}
    (hready : s.phase = .ready) (hmode : modeOf value = some mode)
    (h : Runs chip.device (do writeWord address value; p) s a l s') :
    Runs chip.device p { s with mode := mode } a l s' := by
  obtain ⟨_, l₁, s₁, l₂, hwrite, hrest, hl⟩ := Runs.bind_iff.mp h
  obtain ⟨hwrites, hl₁⟩ := Runs.writeWord_iff.mp hwrite
  obtain rfl := (writes_mode hready hmode).mp hwrites
  rwa [hl, hl₁]

/-- A read of a ready chip shows something and changes nothing. -/
theorem runs_read_bind {α : Type} {f : UInt16 → BusProgram ρ α} {a : α} (hready : s.phase = .ready)
    (h : Runs chip.device (readWord address >>= f) s a l s') :
    ∃ value, chip.Shows s address value ∧ Runs chip.device (f value) s a l s' := by
  obtain ⟨value, l₁, s₁, l₂, hread, hrest, hl⟩ := Runs.bind_iff.mp h
  obtain ⟨hreads, hl₁⟩ := Runs.readWord_iff.mp hread
  simp only [Nor.Chip.device, Reads, hready] at hreads
  obtain ⟨hshows, rfl⟩ := hreads
  exact ⟨value, hshows, by rwa [hl, hl₁]⟩

/-! ### Reading -/

theorem runs_cfiReadLock {status : UInt16} (hidle : Idle s)
    (h : Runs chip.device (cfiReadLock address) s status l s') :
    s' = s ∧ chip.ShowsLocks s (wrap32 (address + 4)) status := by
  have hid := runs_mode_bind hidle.phase rfl h
  obtain ⟨status', hshows, hrest⟩ := runs_read_bind (s := { s with mode := .id }) hidle.phase hid
  obtain ⟨rfl, -, rfl⟩ := Runs.pure_iff.mp (runs_mode_bind (s := { s with mode := .id }) hidle.phase rfl hrest)
  exact ⟨hidle.eta, hshows⟩

theorem runs_cfiClearStatus {status : UInt16} (hidle : Idle s)
    (h : Runs chip.device (cfiClearStatus address) s status l s') : s' = s := by
  have hstatus := runs_mode_bind hidle.phase rfl (runs_clearStatus_bind hidle.phase h)
  obtain ⟨status', -, hrest⟩ := runs_read_bind (s := { s with mode := .status }) hidle.phase hstatus
  obtain ⟨-, -, rfl⟩ := Runs.pure_iff.mp (runs_mode_bind (s := { s with mode := .status }) hidle.phase rfl hrest)
  exact hidle.eta

/-- The cells of a plane, two at a time. -/
def double (cells : Nat → UInt16) (address : Nat) : UInt32 :=
  (cells address).toUInt32 ||| (cells (address + 2)).toUInt32 <<< 16

/-- The plane that reads show, if it is one. -/
def shownPlane : Mode → Option Plane
  | .array => some .main
  | .extended => some .extended
  | _ => none

theorem shows_plane {plane : Plane} {value : UInt16} (hplane : shownPlane s.mode = some plane)
    (h : chip.Shows s address value) : value = s.cells plane address := by
  unfold shownPlane at hplane
  split at hplane
  case h_1 hmode =>
    cases hplane
    simpa only [Shows, hmode] using h
  case h_2 hmode =>
    cases hplane
    simpa only [Shows, hmode] using h
  case h_3 => cases hplane

theorem runs_readDouble_bind {α : Type} {plane : Plane} {f : UInt32 → BusProgram ρ α} {a : α}
    (hready : s.phase = .ready) (hplane : shownPlane s.mode = some plane)
    (h : Runs chip.device (readDouble address >>= f) s a l s') :
    Runs chip.device (f (double (s.cells plane) address)) s a l s' := by
  obtain ⟨value, l₁, s₁, l₂, hread, hrest, hl⟩ := Runs.bind_iff.mp h
  obtain ⟨low, hlow, hread⟩ := runs_read_bind hready hread
  obtain ⟨high, hhigh, hread⟩ := runs_read_bind hready hread
  obtain ⟨rfl, hl₁, rfl⟩ := Runs.pure_iff.mp hread
  rw [shows_plane hplane hlow, shows_plane hplane hhigh] at hrest
  rwa [hl, hl₁]

/-- The loop on the bus finds what the loop over the cells finds. -/
theorem runs_busRangeIsBlankFrom {plane : Plane} {words offset : Nat} {blank : Bool} (hready : s.phase = .ready)
    (hplane : shownPlane s.mode = some plane)
    (h : Runs chip.device (busRangeIsBlankFrom address words offset) s blank l s') :
    s' = s ∧ blank = (rangeIsBlankFrom wrappingAdd (double (s.cells plane)) address words offset).run := by
  induction words generalizing offset with
  | zero =>
      obtain ⟨hblank, -, hs'⟩ := Runs.pure_iff.mp h
      exact ⟨hs', hblank⟩
  | succ words ih =>
      have hrest := runs_readDouble_bind hready hplane h
      by_cases hword : double (s.cells plane) (wrap32 (address + offset)) ≠ 0xFFFFFFFF
      · rw [if_pos hword] at hrest
        obtain ⟨hblank, -, hs'⟩ := Runs.pure_iff.mp hrest
        refine ⟨hs', hblank.trans ?_⟩
        exact (if_pos hword).symm
      · rw [if_neg hword] at hrest
        obtain ⟨hs', hblank⟩ := ih hrest
        refine ⟨hs', hblank.trans ?_⟩
        exact (if_neg hword).symm

/-! ### Filling the buffer -/

theorem runs_cfiWaitReadyFrom_buffer {polls : Nat} {last status : UInt16} (hpolls : 0 < polls)
    (hdone : chip.polls ≤ s.polls + polls) (hphase : s.phase = .buffer t)
    (h : Runs chip.device (cfiWaitReadyFrom address polls last) s status l s') :
    ∃ p, s' = { s with phase := .loading t, polls := p } := by
  induction polls generalizing s last l with
  | zero => exact absurd hpolls (Nat.lt_irrefl 0)
  | succ polls ih =>
      obtain ⟨value, l₁, s₁, l₂, hread, hrest, -⟩ := Runs.bind_iff.mp h
      have hreads := (Runs.readWord_iff.mp hread).1
      simp only [Nor.Chip.device, Reads, hphase] at hreads
      by_cases hready : value &&& statusReady = 0
      · have hbusy : value &&& readyBit = 0 := hready
        rw [if_pos hbusy] at hreads
        rw [if_neg (not_not.mpr hready)] at hrest
        obtain ⟨hlt, hs₁⟩ := hreads
        have hpolls₁ : s₁.polls = s.polls + 1 := by rw [hs₁]
        have hphase₁ : s₁.phase = .buffer t := by rw [hs₁]
        obtain ⟨p, hs'⟩ := ih (by omega) (by omega) hphase₁ hrest
        exact ⟨p, by rw [hs', hs₁]⟩
      · have hnow : ¬ value &&& readyBit = 0 := hready
        rw [if_neg hnow] at hreads
        rw [if_pos hready] at hrest
        obtain ⟨-, -, rfl⟩ := Runs.pure_iff.mp hrest
        exact ⟨s.polls, hreads⟩

theorem runs_writeBufferWords {data : Nat → UInt16} {words word : Nat} {u : Unit}
    (hblock : ∀ k < word + words, chip.target t.plane (wrap32 (address + k * 2)) = t)
    (hphase : s.phase = .counted t words)
    (h : Runs chip.device (writeBufferWords address data words word) s u l s') :
    s' = { s with phase := .counted t 0 } := by
  induction words generalizing s word l with
  | zero =>
      obtain ⟨-, -, rfl⟩ := Runs.pure_iff.mp h
      rw [← hphase]
  | succ words ih =>
      obtain ⟨_, l₁, s₁, l₂, hwrite, hrest, -⟩ := Runs.bind_iff.mp h
      have hwrites := (Runs.writeWord_iff.mp hwrite).1
      simp only [Nor.Chip.device, Writes, hphase] at hwrites
      have hs₁ := hwrites (hblock word (by omega))
      have hs' := ih (fun k hk => hblock k (by omega)) (by rw [hs₁]) hrest
      rw [hs', hs₁]

/-! ### Commands of two cycles -/

/-- The plane that a command is for. -/
def planeOf (efa : Bool) : Plane := if efa then .extended else .main

theorem keeps_cleared {α : Type} {R : Nor.State → Nor.State → Prop} {p : BusProgram ρ α}
    (hp : Keeps chip.device Idle R p) : Keeps chip.device Idle R (do writeWord address 0x50; p) :=
  fun s a l s' hidle h => hp s a l s' hidle (runs_clearStatus_bind hidle.phase h)

theorem setupOf_lock (efa : Bool) : setupOf (if efa then 0x64 else 0x60) = some (.lock, planeOf efa) := by
  cases efa <;> rfl

theorem setupOf_erase (efa : Bool) : setupOf (if efa then 0x24 else 0x20) = some (.erase, planeOf efa) := by
  cases efa <;> rfl

theorem setupOf_program (flash : FlashDevice) (efa : Bool) :
    setupOf (if efa then 0x44 else if flash.manufacturer = 0x0020 then 0x41 else 0x40)
      = some (.program, planeOf efa) := by
  cases efa with
  | false =>
      by_cases hst : flash.manufacturer = 0x0020
      · simp [hst, planeOf, setupOf]
      · simp [hst, planeOf, setupOf]
  | true => rfl

variable (hchip : chip.polls ≤ waitPolls)
include hchip

theorem runs_cfiWaitReady {asked : Bool} {status : UInt16} (hphase : s.phase = .busy operation t asked)
    (h : Runs chip.device (cfiWaitReady address) s status l s') :
    l = [] ∧ status &&& readyBit ≠ 0 ∧ chip.Affects operation t s s' ∧ s'.mode = s.mode ∧
      s'.phase =
        if asked = true ∧ status &&& operation.suspendBit ≠ 0 then .suspended operation t else .ready :=
  runs_cfiWaitReadyFrom (by decide) (Nat.le_trans hchip (Nat.le_add_left _ _)) hphase h

/-- An operation that nobody asks to suspend ends. -/
theorem ready_of_wait {status : UInt16} (hphase : s.phase = .busy operation t false)
    (h : Runs chip.device (cfiWaitReady address) s status l s') :
    s'.phase = .ready ∧ chip.Affects operation t s s' := by
  obtain ⟨-, -, haffects, -, hphase'⟩ := runs_cfiWaitReady hchip hphase h
  rw [hphase']
  exact ⟨if_neg fun hand => absurd hand.1 (by decide), haffects⟩

omit hchip in
theorem idle_of_array {α : Type} {a b : α} (hready : s.phase = .ready)
    (h : Runs chip.device
      (do
        cfiEnterReadArray address
        return a) s b l s') :
    b = a ∧ s' = { s with mode := .array } ∧ Idle s' := by
  obtain ⟨rfl, -, rfl⟩ := Runs.pure_iff.mp (runs_mode_bind hready rfl h)
  exact ⟨rfl, rfl, hready, rfl⟩

/-- An operation that goes on is waited for. -/
theorem runs_finish {α : Type} {f : UInt16 → α} {a : α} (hphase : s.phase = .busy operation t false)
    (h : Runs chip.device
      (do
        let status ← cfiWaitReady address
        cfiEnterReadArray address
        return f status) s a l s') :
    Idle s' ∧ chip.Affects operation t s s' := by
  obtain ⟨value, _, s₁, _, hwait, h, -⟩ := Runs.bind_iff.mp h
  obtain ⟨hready, haffects⟩ := ready_of_wait hchip hphase hwait
  obtain ⟨-, rfl, hidle⟩ := idle_of_array hready h
  exact ⟨hidle, haffects.trans (SameCells.affects rfl rfl)⟩

/-- A command of two cycles comes back to the array, and changes what its operation may change. -/
theorem keeps_cfiTwoCycles {setup confirmation : UInt16} {plane : Plane}
    (hsetup : setupOf setup = some (operation, plane)) (hconfirm : operation.confirms confirmation = true) :
    Keeps chip.device Idle (chip.Affects operation (chip.target plane address))
      (cfiTwoCycles address setup confirmation : BusProgram ρ UInt16) := by
  intro s status l s' hidle h
  obtain ⟨_, _, s₁, _, hfirst, h, -⟩ := Runs.bind_iff.mp h
  obtain ⟨_, _, s₂, _, hsecond, hrest, -⟩ := Runs.bind_iff.mp h
  have hbegins := begins_of_writes hidle.phase hsetup hconfirm (Runs.writeWord_iff.mp hfirst).1
    (Runs.writeWord_iff.mp hsecond).1
  obtain ⟨hidle', haffects⟩ := runs_finish (f := id) hchip hbegins.phase hrest
  exact ⟨hidle', hbegins.affects.trans haffects⟩

theorem keeps_cfiUnlockBlock (efa : Bool) :
    Keeps chip.device Idle (SameCells (chip.target (planeOf efa) address))
      (cfiUnlockBlock address efa : BusProgram ρ UInt16) :=
  keeps_cleared (keeps_cfiTwoCycles hchip (setupOf_lock efa) rfl)

theorem keeps_cfiLockBlock (efa : Bool) :
    Keeps chip.device Idle (SameCells (chip.target (planeOf efa) address))
      (cfiLockBlock address efa : BusProgram ρ UInt16) :=
  keeps_cleared (keeps_cfiTwoCycles hchip (setupOf_lock efa) rfl)

theorem keeps_cfiLockDownBlock (efa : Bool) :
    Keeps chip.device Idle (SameCells (chip.target (planeOf efa) address))
      (cfiLockDownBlock address efa : BusProgram ρ UInt16) :=
  keeps_cfiTwoCycles hchip (setupOf_lock efa) rfl

theorem keeps_cfiProgramWord (flash : FlashDevice) (value : UInt16) (efa : Bool) :
    Keeps chip.device Idle (chip.Within (chip.target (planeOf efa) address))
      (cfiProgramWord flash address value efa : BusProgram ρ UInt16) :=
  keeps_cleared (keeps_cfiTwoCycles hchip (setupOf_program flash efa) rfl)

theorem keeps_cfiEraseBlock (efa : Bool) :
    Keeps chip.device Idle (chip.Within (chip.target (planeOf efa) address))
      (cfiEraseBlock address efa : BusProgram ρ UInt16) :=
  keeps_cleared (keeps_cfiTwoCycles hchip (setupOf_erase efa) rfl)

theorem keeps_cfiBlankCheck :
    Keeps chip.device Idle (SameCells (chip.target .main address))
      (cfiBlankCheck address : BusProgram ρ UInt16) := by
  intro s status l s' hidle h
  obtain ⟨value, _, s₁, _, hcycles, hrest, -⟩ := Runs.bind_iff.mp h
  have hcheck : Idle s₁ ∧ chip.Affects .check (chip.target .main address) s s₁ :=
    keeps_cfiTwoCycles hchip rfl rfl s value _ s₁ hidle hcycles
  obtain ⟨hidle₁, hsame⟩ := hcheck
  obtain ⟨-, -, rfl⟩ := Runs.pure_iff.mp (runs_clearStatus_bind hidle₁.phase hrest)
  exact ⟨hidle₁, hsame⟩

theorem runs_askForBuffer {flash : FlashDevice} {status : UInt16} (hidle : Idle s)
    (h : Runs chip.device (askForBuffer flash address) s status l s') :
    ∃ p, s' = { s with mode := .status, phase := .loading (chip.target .main address), polls := p } := by
  obtain ⟨_, _, s₁, _, hbuffer, hwait, -⟩ := Runs.bind_iff.mp (runs_clearStatus_bind hidle.phase h)
  have hs₁ : s₁ = { s with mode := .status, phase := .buffer (chip.target .main address), polls := 0 } := by
    have hwrites := (Runs.writeWord_iff.mp hbuffer).1
    by_cases hst : flash.manufacturer = 0x0020
    · rw [if_pos hst] at hwrites
      simpa [Nor.Chip.device, Writes, hidle.phase, Command, clearStatus, modeOf, setupOf, isBuffered] using hwrites
    · rw [if_neg hst] at hwrites
      simpa [Nor.Chip.device, Writes, hidle.phase, Command, clearStatus, modeOf, setupOf, isBuffered] using hwrites
  obtain ⟨p, hs'⟩ := runs_cfiWaitReadyFrom_buffer (t := chip.target .main address) (by decide)
    (Nat.le_trans hchip (Nat.le_add_left _ _)) (by rw [hs₁]) hwait
  exact ⟨p, by rw [hs', hs₁]⟩

omit hchip in
/-- All words go to addresses of one block, and fit into the buffer. -/
theorem begins_of_loadBuffer {data : Nat → UInt16} {words : Nat} {u : Unit}
    (hphase : s.phase = .loading (chip.target .main address)) (hpos : 0 < words)
    (hwords : words ≤ chip.bufferWords) (hcount : words ≤ 2 ^ 16)
    (hblock : ∀ k < words, chip.target .main (wrap32 (address + k * 2)) = chip.target .main address)
    (h : Runs chip.device (loadBuffer address data words) s u l s') :
    chip.Begins .program (chip.target .main address) s s' := by
  obtain ⟨_, _, s₁, _, hload, h, -⟩ := Runs.bind_iff.mp h
  obtain ⟨_, _, s₂, _, hfill, hconfirm, -⟩ := Runs.bind_iff.mp h
  have hvalue : (UInt16.ofNat (words - 1)).toNat = words - 1 := by
    rw [UInt16.toNat_ofNat', Nat.mod_eq_of_lt (by omega)]
  have hs₁ : s₁ = { s with phase := .counted (chip.target .main address) words } := by
    have hwrites := (Runs.writeWord_iff.mp hload).1
    simp only [Nor.Chip.device, Writes, hphase] at hwrites
    rw [hwrites rfl (by rw [hvalue]; omega), hvalue, Nat.sub_add_cancel hpos]
  have hs₂ := runs_writeBufferWords (t := chip.target .main address)
    (fun k hk => hblock k (by omega)) (by rw [hs₁]) hfill
  have hsame : chip.Affects .program (chip.target .main address) s s₂ := by
    rw [hs₂, hs₁]
    exact SameCells.affects rfl rfl
  have hbegins : chip.Begins .program (chip.target .main address) s₂ s' := by
    have hwrites := (Runs.writeWord_iff.mp hconfirm).1
    rw [hs₂] at hwrites ⊢
    exact hwrites rfl rfl
  exact ⟨hsame.trans hbegins.affects, hbegins.mode, hbegins.phase, hbegins.polls⟩

/-- The words fit into the buffer, and their addresses are in one block. -/
structure BufferFits (chip : Nor.Chip) (address words : Nat) : Prop where
  pos : 0 < words
  fits : words ≤ chip.bufferWords
  count : words ≤ 2 ^ 16
  inBlock : ∀ k < words, chip.target .main (wrap32 (address + k * 2)) = chip.target .main address

theorem begins_of_fill {flash : FlashDevice} {data : Nat → UInt16} {words : Nat} {status : UInt16} {u : Unit}
    {s₁ : Nor.State} {l₁ : List ρ} (hfits : BufferFits chip address words) (hidle : Idle s)
    (hask : Runs chip.device (askForBuffer flash address) s status l s₁)
    (hload : Runs chip.device (loadBuffer address data words) s₁ u l₁ s') :
    chip.Begins .program (chip.target .main address) s s' := by
  obtain ⟨p, hs₁⟩ := runs_askForBuffer hchip hidle hask
  have hbegins := begins_of_loadBuffer (by rw [hs₁]) hfits.pos hfits.fits hfits.count hfits.inBlock hload
  have hsame : chip.Affects .program (chip.target .main address) s s₁ := by
    rw [hs₁]
    exact SameCells.affects rfl rfl
  exact ⟨hsame.trans hbegins.affects, hbegins.mode, hbegins.phase, hbegins.polls⟩

theorem keeps_cfiProgramBuffer (flash : FlashDevice) (data : Nat → UInt16) {words : Nat}
    (hfits : BufferFits chip address words) :
    Keeps chip.device Idle (chip.Within (chip.target .main address))
      (cfiProgramBuffer flash address data words : BusProgram ρ (UInt16 × UInt16)) := by
  intro s statuses l s' hidle h
  obtain ⟨status, _, s₁, _, hask, h₁, -⟩ := Runs.bind_iff.mp h
  obtain ⟨_, _, s₂, _, hload, hrest, -⟩ := Runs.bind_iff.mp h₁
  have hbegins := begins_of_fill hchip hfits hidle hask hload
  obtain ⟨hidle', haffects⟩ := runs_finish (f := fun last => (status, last)) hchip hbegins.phase hrest
  exact ⟨hidle', hbegins.affects.trans haffects⟩

end Pmb887x.CfiIntel
