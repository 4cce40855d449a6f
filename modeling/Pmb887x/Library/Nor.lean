import Mathlib.Tactic.SplitIfs
import Pmb887x.Library.Bus

set_option autoImplicit false

/-! # A NOR flash with the Intel command set

Writes to the chip are commands, most of them in two cycles at addresses of one block. A command leaves the
chip busy until it shows the ready bit. What a busy chip has done so far is not known: a program or an erase
may have changed every cell of its block, also when it fails.

Only what a data sheet promises is stated. After a write that fits no command, anything may follow. -/

namespace Pmb887x.Library.Nor

open BusProgram

/-- The main array, or the extended one with blocks of its own at the same addresses. -/
inductive Plane where
  | main
  | extended
  deriving DecidableEq

/-- What reads show. -/
inductive Mode where
  | array
  | extended
  | id
  | query
  | status
  deriving DecidableEq

inductive Operation where
  | program
  | erase
  | lock
  | check
  deriving DecidableEq

/-- A block of a plane, by the address where it begins. -/
structure Target where
  plane : Plane
  block : Nat
  deriving DecidableEq

inductive Phase where
  | ready
  /-- the first cycle has been given -/
  | setup (operation : Operation) (target : Target)
  /-- a buffer has been asked for -/
  | buffer (target : Target)
  /-- the chip waits for the number of words -/
  | loading (target : Target)
  /-- so many words are left, then the confirmation -/
  | counted (target : Target) (left : Nat)
  /-- `asked` to suspend -/
  | busy (operation : Operation) (target : Target) (asked : Bool)
  | suspended (operation : Operation) (target : Target)
  deriving DecidableEq

structure Chip where
  /-- the block that an address is in -/
  block : Plane → Nat → Nat
  bufferWords : Nat
  /-- an operation is done after so many looks at the status -/
  polls : Nat

structure State where
  cells : Plane → Nat → UInt16
  locks : Target → Fin 4
  mode : Mode
  phase : Phase
  /-- the looks at the status since the operation began -/
  polls : Nat

/-! ## The commands -/

def readyBit : UInt16 := 0x80

/-- The bit that shows a suspended operation. -/
def Operation.suspendBit : Operation → UInt16
  | .program => 0x04
  | .erase => 0x40
  | _ => 0

def clearStatus : UInt16 := 0x50

/-- Confirmation, and resumption. -/
def confirm : UInt16 := 0xD0

def suspend : UInt16 := 0xB0

def readStatus : UInt16 := 0x70

def modeOf : UInt16 → Option Mode
  | 0xFF => some .array
  | 0x94 => some .extended
  | 0x90 => some .id
  | 0x98 => some .query
  | 0x70 => some .status
  | _ => none

/-- The first cycle of a command. -/
def setupOf : UInt16 → Option (Operation × Plane)
  | 0x40 => some (.program, .main)
  | 0x41 => some (.program, .main)
  | 0x44 => some (.program, .extended)
  | 0x20 => some (.erase, .main)
  | 0x24 => some (.erase, .extended)
  | 0x60 => some (.lock, .main)
  | 0x64 => some (.lock, .extended)
  | 0xBC => some (.check, .main)
  | _ => none

def isBuffered (value : UInt16) : Bool := value == 0xE8 || value == 0xE9

/-- The second cycle. -/
def Operation.confirms (operation : Operation) (value : UInt16) : Bool :=
  match operation with
  | .program => true
  | .erase => value == confirm
  | .check => value == confirm
  | .lock => value == 0x01 || value == 0x2F || value == confirm

namespace Chip

variable (chip : Chip)

def target (plane : Plane) (address : Nat) : Target := ⟨plane, chip.block plane address⟩

/-- Nothing outside of the block is changed. -/
structure Within (t : Target) (s s' : State) : Prop where
  cells : ∀ plane address, chip.target plane address ≠ t → s'.cells plane address = s.cells plane address
  locks : ∀ u, u ≠ t → s'.locks u = s.locks u

/-- No cell is changed, and no lock but that of the block. -/
structure SameCells (t : Target) (s s' : State) : Prop where
  cells : s'.cells = s.cells
  locks : ∀ u, u ≠ t → s'.locks u = s.locks u

/-- What an operation on a block may change. -/
def Affects (operation : Operation) (t : Target) (s s' : State) : Prop :=
  match operation with
  | .program | .erase => chip.Within t s s'
  | .lock | .check => SameCells t s s'

/-- A command to a chip that is ready. -/
def Command (s : State) (address : Nat) (value : UInt16) (s' : State) : Prop :=
  if value = clearStatus then s' = s
  else
    match modeOf value with
    | some mode => s' = { s with mode := mode }
    | none =>
        match setupOf value with
        | some (operation, plane) =>
            s' = { s with mode := .status, phase := .setup operation (chip.target plane address) }
        | none =>
            isBuffered value = true →
              s' = { s with mode := .status, phase := .buffer (chip.target .main address), polls := 0 }

/-- An operation begins, or goes on. -/
structure Begins (operation : Operation) (t : Target) (s s' : State) : Prop where
  affects : chip.Affects operation t s s'
  mode : s'.mode = .status
  phase : s'.phase = .busy operation t false
  polls : s'.polls = 0

/-- A write to a chip that is busy. -/
def Interrupts (operation : Operation) (t : Target) (asked : Bool) (s : State) (value : UInt16) (s' : State) : Prop :=
  (value = suspend ∨ value = readStatus) →
    chip.Affects operation t s s' ∧ s'.mode = .status ∧ s'.polls = 0 ∧
      s'.phase = .busy operation t (asked || value == suspend)

/-- A command to a chip that has suspended an operation. -/
def Meanwhile (operation : Operation) (t : Target) (s : State) (value : UInt16) (s' : State) : Prop :=
  if value = clearStatus then s' = s
  else if value = confirm then chip.Begins operation t s s'
  else ∀ mode, modeOf value = some mode → s' = { s with mode := mode }

/-- A write; the conditions of each phase say when the next state is known. -/
def Writes (s : State) (address : Nat) (value : UInt16) (s' : State) : Prop :=
  match s.phase with
  | .ready => chip.Command s address value s'
  | .setup operation t =>
      chip.target t.plane address = t → operation.confirms value = true → chip.Begins operation t s s'
  | .buffer _ => True
  | .loading t =>
      chip.target t.plane address = t → value.toNat < chip.bufferWords →
        s' = { s with phase := .counted t (value.toNat + 1) }
  | .counted t (left + 1) =>
      chip.target t.plane address = t → s' = { s with phase := .counted t left }
  | .counted t 0 =>
      chip.target t.plane address = t → value = confirm → chip.Begins .program t s s'
  | .busy operation t asked => chip.Interrupts operation t asked s value s'
  | .suspended operation t => chip.Meanwhile operation t s value s'

/-- What the ID mode shows of the locks, at the third word of a block. -/
def ShowsLocks (s : State) (address : Nat) (value : UInt16) : Prop :=
  ∀ block, address = block + 4 →
    (chip.block .main address = block → value.toNat % 4 = s.locks ⟨.main, block⟩) ∧
      (chip.block .extended address = block → value.toNat / 16 % 4 = s.locks ⟨.extended, block⟩)

/-- What a ready chip shows. -/
def Shows (s : State) (address : Nat) (value : UInt16) : Prop :=
  match s.mode with
  | .array => value = s.cells .main address
  | .extended => value = s.cells .extended address
  | .id => chip.ShowsLocks s address value
  | .query => True
  | .status => value &&& readyBit ≠ 0

/-- A look at the status of a busy chip. -/
structure Looks (operation : Operation) (t : Target) (asked : Bool) (s : State) (value : UInt16) (s' : State) :
    Prop where
  affects : chip.Affects operation t s s'
  mode : s'.mode = s.mode
  phase : s'.phase =
    if value &&& readyBit = 0 then .busy operation t asked
    else if asked = true ∧ value &&& operation.suspendBit ≠ 0 then .suspended operation t
    else .ready
  polls : value &&& readyBit = 0 → s.polls + 1 < chip.polls ∧ s'.polls = s.polls + 1

def Reads (s : State) (address : Nat) (value : UInt16) (s' : State) : Prop :=
  match s.phase with
  | .ready => chip.Shows s address value ∧ s' = s
  | .setup _ _ => s' = s
  | .buffer t =>
      if value &&& readyBit = 0 then s.polls + 1 < chip.polls ∧ s' = { s with polls := s.polls + 1 }
      else s' = { s with phase := .loading t }
  | .loading _ => s' = s
  | .counted _ _ => s' = s
  | .busy operation t asked => chip.Looks operation t asked s value s'
  | .suspended _ t =>
      (s.mode = .array → chip.target .main address ≠ t → value = s.cells .main address) ∧ s' = s

def device : BusDevice State := ⟨chip.Reads, chip.Writes⟩

/-! ## What is changed in between -/

variable {chip} {operation : Operation} {t : Target}

theorem SameCells.within {s s' : State} (h : SameCells t s s') : chip.Within t s s' :=
  ⟨fun plane address _ => congrFun (congrFun h.cells plane) address, h.locks⟩

theorem Affects.within {s s' : State} (h : chip.Affects operation t s s') : chip.Within t s s' := by
  cases operation with
  | program => exact h
  | erase => exact h
  | lock => exact SameCells.within h
  | check => exact SameCells.within h

theorem SameCells.affects {s s' : State} (hcells : s'.cells = s.cells) (hlocks : s'.locks = s.locks) :
    chip.Affects operation t s s' := by
  have hsame : SameCells t s s' := ⟨hcells, fun u _ => congrFun hlocks u⟩
  cases operation with
  | program => exact hsame.within
  | erase => exact hsame.within
  | lock => exact hsame
  | check => exact hsame

instance : Std.Refl (chip.Within t) := ⟨fun _ => ⟨fun _ _ _ => rfl, fun _ _ => rfl⟩⟩

instance : Std.Refl (SameCells t) := ⟨fun _ => ⟨rfl, fun _ _ => rfl⟩⟩

instance : IsTrans State (chip.Within t) where
  trans _ _ _ h₁ h₂ :=
    ⟨fun plane address h => (h₂.cells plane address h).trans (h₁.cells plane address h),
      fun u h => (h₂.locks u h).trans (h₁.locks u h)⟩

instance : IsTrans State (SameCells t) where
  trans _ _ _ h₁ h₂ := ⟨h₂.cells.trans h₁.cells, fun u h => (h₂.locks u h).trans (h₁.locks u h)⟩

instance : IsTrans State (chip.Affects operation t) where
  trans a b c h₁ h₂ := by
    cases operation with
    | program => exact IsTrans.trans (r := chip.Within t) a b c h₁ h₂
    | erase => exact IsTrans.trans (r := chip.Within t) a b c h₁ h₂
    | lock => exact IsTrans.trans (r := SameCells t) a b c h₁ h₂
    | check => exact IsTrans.trans (r := SameCells t) a b c h₁ h₂

/-! ## Rules for the commands -/

/-- The chip waits for a command and shows its cells. -/
structure Idle (s : State) : Prop where
  phase : s.phase = .ready
  mode : s.mode = .array

theorem Idle.eta {s : State} (hidle : Idle s) : { s with mode := .array } = s := by
  obtain ⟨cells, locks, mode, phase, polls⟩ := s
  obtain rfl : mode = .array := hidle.mode
  rfl

theorem Affects.trans {s s₁ s' : State} (h₁ : chip.Affects operation t s s₁)
    (h₂ : chip.Affects operation t s₁ s') : chip.Affects operation t s s' :=
  IsTrans.trans (r := chip.Affects operation t) _ _ _ h₁ h₂

theorem writes_mode {s s' : State} {address : Nat} {value : UInt16} {mode : Mode} (hready : s.phase = .ready)
    (hmode : modeOf value = some mode) : chip.Writes s address value s' ↔ s' = { s with mode := mode } := by
  have hvalue : value ≠ clearStatus := by
    rintro rfl
    cases hmode
  simp only [Writes, hready, Command, if_neg hvalue, hmode]

theorem writes_clearStatus {s s' : State} {address : Nat} (hready : s.phase = .ready) :
    chip.Writes s address clearStatus s' ↔ s' = s := by
  simp only [Writes, hready, Command, if_true]

theorem writes_setup {s s' : State} {address : Nat} {value : UInt16} {plane : Plane} (hready : s.phase = .ready)
    (hsetup : setupOf value = some (operation, plane)) :
    chip.Writes s address value s' ↔
      s' = { s with mode := .status, phase := .setup operation (chip.target plane address) } := by
  have hvalue : value ≠ clearStatus := by
    rintro rfl
    cases hsetup
  have hmode : modeOf value = none := by
    unfold setupOf at hsetup
    split at hsetup <;> first | rfl | cases hsetup
  simp only [Writes, hready, Command, if_neg hvalue, hmode, hsetup]

/-- The two cycles of a command, at one address. -/
theorem begins_of_writes {s s₁ s₂ : State} {address : Nat} {value confirmation : UInt16} {plane : Plane}
    (hready : s.phase = .ready) (hsetup : setupOf value = some (operation, plane))
    (hconfirm : operation.confirms confirmation = true) (h₁ : chip.Writes s address value s₁)
    (h₂ : chip.Writes s₁ address confirmation s₂) :
    chip.Begins operation (chip.target plane address) s s₂ := by
  have hs₁ := (writes_setup hready hsetup).mp h₁
  have hsame : chip.Affects operation (chip.target plane address) s s₁ := by
    rw [hs₁]
    exact SameCells.affects rfl rfl
  have hbegins : chip.Begins operation (chip.target plane address) s₁ s₂ := by
    rw [hs₁] at h₂ ⊢
    exact h₂ rfl hconfirm
  exact ⟨hsame.trans hbegins.affects, hbegins.mode, hbegins.phase, hbegins.polls⟩

/-- A busy chip can be asked for its status, and to suspend what it does. -/
theorem busy_of_writes {s s' : State} {address : Nat} {value : UInt16} {asked : Bool}
    (hphase : s.phase = .busy operation t asked) (hvalue : value = suspend ∨ value = readStatus)
    (h : chip.Writes s address value s') :
    chip.Affects operation t s s' ∧ s'.phase = .busy operation t (asked || value == suspend) := by
  simp only [Writes, hphase] at h
  obtain ⟨haffects, -, -, hphase'⟩ := h hvalue
  exact ⟨haffects, hphase'⟩

theorem writes_suspended_mode {s s' : State} {address : Nat} {value : UInt16} {mode : Mode}
    (hphase : s.phase = .suspended operation t) (hmode : modeOf value = some mode)
    (h : chip.Writes s address value s') : s' = { s with mode := mode } := by
  have hclear : value ≠ clearStatus := by
    rintro rfl
    cases hmode
  have hconfirm : value ≠ confirm := by
    rintro rfl
    cases hmode
  simp only [Writes, hphase, Meanwhile, if_neg hclear, if_neg hconfirm] at h
  rw [hphase]
  exact h mode hmode

theorem begins_of_resume {s s' : State} {address : Nat} (hphase : s.phase = .suspended operation t)
    (h : chip.Writes s address confirm s') : chip.Begins operation t s s' := by
  have hclear : confirm ≠ clearStatus := by decide
  simpa only [Writes, hphase, Meanwhile, if_neg hclear, if_true] using h

/-! ## Every chip has runs -/

variable (chip)

theorem exists_begins (operation : Operation) (t : Target) (s : State) : ∃ s', chip.Begins operation t s s' :=
  ⟨{ s with mode := .status, phase := .busy operation t false, polls := 0 },
    SameCells.affects rfl rfl, rfl, rfl, rfl⟩

theorem exists_lockWord (main extended : Fin 4) :
    ∃ value : UInt16, value.toNat % 4 = main ∧ value.toNat / 16 % 4 = extended := by
  have hvalue : main.val + 16 * extended.val < 2 ^ 16 := by omega
  refine ⟨UInt16.ofNat (main.val + 16 * extended.val), ?_⟩
  rw [UInt16.toNat_ofNat', Nat.mod_eq_of_lt hvalue]
  omega

theorem exists_shows (s : State) (address : Nat) : ∃ value, chip.Shows s address value := by
  cases hmode : s.mode with
  | array => exact ⟨s.cells .main address, by simp only [Shows, hmode]⟩
  | extended => exact ⟨s.cells .extended address, by simp only [Shows, hmode]⟩
  | query => exact ⟨0, by simp only [Shows, hmode]⟩
  | status => exact ⟨readyBit, by simp [Shows, hmode, readyBit]⟩
  | id =>
      -- both locks of the one block that the address can belong to
      obtain ⟨value, hmain, hextended⟩ :=
        exists_lockWord (s.locks ⟨.main, address - 4⟩) (s.locks ⟨.extended, address - 4⟩)
      refine ⟨value, ?_⟩
      simp only [Shows, hmode]
      intro block hblock
      obtain rfl : block = address - 4 := by omega
      exact ⟨fun _ => hmain, fun _ => hextended⟩

theorem exists_reads (s : State) (address : Nat) : ∃ value s', chip.Reads s address value s' := by
  cases hphase : s.phase with
  | ready =>
      obtain ⟨value, hvalue⟩ := chip.exists_shows s address
      exact ⟨value, s, by simp only [Reads, hphase]; exact ⟨hvalue, trivial⟩⟩
  | setup _ _ => exact ⟨0, s, by simp only [Reads, hphase]⟩
  | buffer t => exact ⟨readyBit, { s with phase := .loading t }, by simp [Reads, hphase, readyBit]⟩
  | loading _ => exact ⟨0, s, by simp only [Reads, hphase]⟩
  | counted _ _ => exact ⟨0, s, by simp only [Reads, hphase]⟩
  | busy operation t asked =>
      refine ⟨readyBit, { s with phase := .ready }, ?_⟩
      have hready : readyBit &&& readyBit ≠ 0 := by decide
      have hrunning : ¬ (asked = true ∧ readyBit &&& operation.suspendBit ≠ 0) := by
        rintro ⟨-, hbit⟩
        cases operation <;> exact absurd hbit (by decide)
      simp only [Reads, hphase]
      exact ⟨SameCells.affects rfl rfl, rfl, by rw [if_neg hready, if_neg hrunning], fun h => absurd h hready⟩
  | suspended _ t =>
      refine ⟨s.cells .main address, s, ?_⟩
      simp only [Reads, hphase]
      exact ⟨fun _ _ => trivial, trivial⟩

theorem exists_command (s : State) (address : Nat) (value : UInt16) :
    ∃ s', chip.Command s address value s' := by
  simp only [Command]
  split
  · exact ⟨s, rfl⟩
  · split
    · exact ⟨_, rfl⟩
    · split
      · exact ⟨_, rfl⟩
      · exact ⟨_, fun _ => rfl⟩

theorem exists_meanwhile (operation : Operation) (t : Target) (s : State) (value : UInt16) :
    ∃ s', chip.Meanwhile operation t s value s' := by
  simp only [Meanwhile]
  split
  · exact ⟨s, rfl⟩
  · split
    · exact chip.exists_begins operation t s
    · cases hmode : modeOf value with
      | none => exact ⟨s, fun mode h => nomatch h⟩
      | some mode => exact ⟨{ s with mode := mode }, fun _ h => by rw [← Option.some.inj h]⟩

theorem exists_writes (s : State) (address : Nat) (value : UInt16) : ∃ s', chip.Writes s address value s' := by
  cases hphase : s.phase with
  | ready =>
      obtain ⟨s', hs'⟩ := chip.exists_command s address value
      exact ⟨s', by simpa only [Writes, hphase] using hs'⟩
  | setup operation t =>
      obtain ⟨s', hs'⟩ := chip.exists_begins operation t s
      exact ⟨s', by simp only [Writes, hphase]; exact fun _ _ => hs'⟩
  | buffer _ => exact ⟨s, by simp only [Writes, hphase]⟩
  | loading t =>
      exact ⟨{ s with phase := .counted t (value.toNat + 1) }, by simp only [Writes, hphase]; exact fun _ _ => trivial⟩
  | counted t left =>
      cases left with
      | zero =>
          obtain ⟨s', hs'⟩ := chip.exists_begins .program t s
          exact ⟨s', by simp only [Writes, hphase]; exact fun _ _ => hs'⟩
      | succ left =>
          exact ⟨{ s with phase := .counted t left }, by simp only [Writes, hphase]; exact fun _ => trivial⟩
  | busy operation t asked =>
      refine ⟨{ s with mode := .status, phase := .busy operation t (asked || value == suspend), polls := 0 }, ?_⟩
      simp only [Writes, hphase]
      exact fun _ => ⟨SameCells.affects rfl rfl, rfl, rfl, rfl⟩
  | suspended operation t =>
      obtain ⟨s', hs'⟩ := chip.exists_meanwhile operation t s value
      exact ⟨s', by simpa only [Writes, hphase] using hs'⟩

theorem total_device : chip.device.Total := ⟨chip.exists_reads, chip.exists_writes⟩

end Chip

end Pmb887x.Library.Nor
