import Pmb887x.I2c.Drivers
import Pmb887x.Library.CrcDistance

set_option autoImplicit false

/-! # Checked register writes (`lib/i2c.c`, `lib/pmb681x.c`)

A command to the PMB681x PMIC carries a packet error code, and the PMIC answers with the code of what it
received. The code is the remainder of the frame by `x^8 + x^2 + x + 1`; it sees up to three wrong bits in a
frame of at most fifteen bytes, every odd number of them and every burst of up to eight
(`pec_detects_errors`). A register write succeeds only if the whole command was handed over and the answer is
its code (`pmb681xRegWrite_confirmed`). -/

namespace Pmb887x.I2c

open Library

/-! ## The packet error code -/

/-- The loop of `smbus_pec_update`, `n` passes of it. -/
def smbusPecShifts : Nat → UInt8 → UInt8
  | 0, pec => pec
  | n + 1, pec => smbusPecShifts n (if pec &&& 0x80 ≠ 0 then (pec <<< 1) ^^^ 0x07 else pec <<< 1)

def smbusPecUpdate (pec value : UInt8) : UInt8 := smbusPecShifts 8 (pec ^^^ value)

/-- `smbus_pec_update` for one byte after the other. -/
def smbusPecUpdates (pec : UInt8) (data : List UInt8) : UInt8 := data.foldl smbusPecUpdate pec

def i2cSmbusPecCalculate (address : UInt8) (data : List UInt8) : UInt8 :=
  smbusPecUpdates (smbusPecUpdate 0 (address <<< 1)) data

/-- The bits of a frame as the bus carries them, the highest of each byte first. -/
def frameBits (frame : List UInt8) : List Bool := frame.flatMap fun b => bitsDown b.toBitVec

theorem smbusPecShifts_toBitVec (n : Nat) (pec : UInt8) :
    (smbusPecShifts n pec).toBitVec = forwardShifts 0x07#8 n pec.toBitVec := by
  induction n generalizing pec with
  | zero => rfl
  | succ n ih =>
      rw [smbusPecShifts, forwardShifts, ih]
      congr 1
      have htop : pec &&& 0x80 ≠ 0 ↔ pec.toBitVec.msb = true := by
        have hall : ∀ v : BitVec 8, v &&& 0x80#8 ≠ 0#8 ↔ v.msb = true := by decide
        rw [← hall, Ne, ← UInt8.toBitVec_inj, UInt8.toBitVec_and]
        rfl
      rw [forwardBit, Bool.xor_false]
      by_cases hpec : pec.toBitVec.msb = true
      · rw [if_pos hpec, if_pos (htop.mpr hpec), UInt8.toBitVec_xor, UInt8.toBitVec_shiftLeft]
        rfl
      · rw [if_neg hpec, if_neg (mt htop.mp hpec), UInt8.toBitVec_shiftLeft]
        rfl

/-- The code is the bit-serial one. -/
theorem smbusPecUpdates_toBitVec (pec : UInt8) (data : List UInt8) :
    (smbusPecUpdates pec data).toBitVec = forwardBits 0x07#8 pec.toBitVec (frameBits data) := by
  induction data generalizing pec with
  | nil => rfl
  | cons b data ih =>
      have hbyte : (smbusPecUpdate pec b).toBitVec = forwardBits 0x07#8 pec.toBitVec (bitsDown b.toBitVec) := by
        rw [smbusPecUpdate, smbusPecShifts_toBitVec, UInt8.toBitVec_xor, forwardShifts_xor (by decide)]
      change (smbusPecUpdates (smbusPecUpdate pec b) data).toBitVec = _
      rw [ih, hbyte, ← forwardBits_append]
      rfl

theorem i2cSmbusPecCalculate_eq (address : UInt8) (data : List UInt8) :
    i2cSmbusPecCalculate address data = smbusPecUpdates 0 ((address <<< 1) :: data) := rfl

theorem length_frameBits (frame : List UInt8) : (frameBits frame).length = 8 * frame.length := by
  rw [frameBits, List.length_flatMap, Nat.mul_comm]
  simp [bitsDown]

theorem frameBits_inj {frame frame' : List UInt8} (h : frameBits frame = frameBits frame') :
    frame = frame' := by
  induction frame generalizing frame' with
  | nil =>
      have hlength := congrArg List.length h
      rw [length_frameBits, length_frameBits] at hlength
      exact (List.length_eq_zero_iff.mp (by simpa using hlength.symm)).symm
  | cons b frame ih =>
      cases frame' with
      | nil =>
          have hlength := congrArg List.length h
          rw [length_frameBits, length_frameBits] at hlength
          simp at hlength
      | cons b' frame' =>
          obtain ⟨hbyte, hrest⟩ := List.append_inj h (by simp [bitsDown])
          rw [ih hrest]
          congr 1
          refine UInt8.toBitVec_inj.mp (BitVec.eq_of_getMsbD_eq fun i hi => ?_)
          exact List.map_inj_left.mp hbyte i (List.mem_range.mpr hi)

/-! ## What the code sees -/

/-- The reflected generator has the root 1. -/
theorem root_pecPolynomial : (generatorPoly (0x07#8).reverse).eval 1 = 0 := by
  rw [eval_one_generatorPoly]
  decide

/-- No two errors within 127 bits cancel. -/
theorem seesTwo_pecPolynomial : SeesTwo (0x07#8).reverse 127 := by
  have hall : ∀ between < 126,
      crcBits (0xE0#8) 0#8 (true :: (List.replicate between false ++ [true])) ≠ 0#8 := by
    decide +kernel
  intro between hbetween
  rw [show (0x07#8).reverse = 0xE0#8 by decide]
  exact hall between (by omega)

theorem smbusPecUpdates_snoc (frame : List UInt8) :
    smbusPecUpdates 0 (frame ++ [smbusPecUpdates 0 frame]) = 0 := by
  rw [smbusPecUpdates, List.foldl_append]
  change smbusPecUpdate (smbusPecUpdates 0 frame) (smbusPecUpdates 0 frame) = 0
  rw [smbusPecUpdate, UInt8.xor_self]
  decide

/-- Errors that the code sees: a burst of eight bits, an odd number, or up to three in fifteen bytes. -/
def SeenErrors (frame frame' : List UInt8) : Prop :=
  DifferWithin 8 (frameBits frame) (frameBits frame') ∨
    Odd ((differences (frameBits frame) (frameBits frame')).count true) ∨
    (frame.length ≤ 15 ∧ (differences (frameBits frame) (frameBits frame')).count true ≤ 3)

theorem smbusPecUpdates_ne {frame frame' : List UInt8} (hlength : frame.length = frame'.length)
    (hne : frame ≠ frame') (hseen : SeenErrors frame frame') :
    smbusPecUpdates 0 frame ≠ smbusPecUpdates 0 frame' := by
  intro hpec
  have hbits : (frameBits frame).length = (frameBits frame').length := by
    rw [length_frameBits, length_frameBits, hlength]
  have hsame : forwardBits 0x07#8 0#8 (frameBits frame) = forwardBits 0x07#8 0#8 (frameBits frame') := by
    have h := congrArg UInt8.toBitVec hpec
    rwa [smbusPecUpdates_toBitVec, smbusPecUpdates_toBitVec] at h
  rcases hseen with hburst | hodd | ⟨hshort, hfew⟩
  · exact forwardBits_ne (crcBits_ne_of_differWithin (by decide) _ hburst) hsame
  · exact forwardBits_ne (crcBits_ne_of_odd (by decide) root_pecPolynomial _ hbits hodd) hsame
  · refine forwardBits_ne (crcBits_ne_of_few (by decide) root_pecPolynomial (by decide)
      seesTwo_pecPolynomial _ hbits ?_ (fun h => hne (frameBits_inj h)) hfew) hsame
    rw [length_frameBits]
    omega

/-- **What the packet error code sees.** The code over an intact frame and its code is zero. Over a frame of
    the same length it is not zero if the bits differ within eight consecutive places, or in an odd number of
    places, or, up to fifteen bytes in all, in at most three places. -/
theorem pec_detects_errors (address : UInt8) (data received : List UInt8) :
    let sent := (address <<< 1) :: data ++ [i2cSmbusPecCalculate address data]
    smbusPecUpdates 0 sent = 0 ∧
      (received.length = sent.length → received ≠ sent → SeenErrors sent received →
        smbusPecUpdates 0 received ≠ 0) := by
  intro sent
  have hsent : smbusPecUpdates 0 sent = 0 := smbusPecUpdates_snoc ((address <<< 1) :: data)
  refine ⟨hsent, fun hlength hne hseen hzero => ?_⟩
  exact smbusPecUpdates_ne hlength.symm hne.symm hseen (hsent.trans hzero.symm)

/-- Three wrong bits in a register command. -/
theorem pec_detects_errors_example :
    smbusPecUpdates 0 [0x63, 0x04, 0x90, i2cSmbusPecCalculate 0x31 [0x05, 0x80]] ≠ 0 :=
  (pec_detects_errors 0x31 [0x05, 0x80] [0x63, 0x04, 0x90, i2cSmbusPecCalculate 0x31 [0x05, 0x80]]).2
    rfl (by decide) (.inr (.inr ⟨by decide, by decide +kernel⟩))

/-! ## A register write -/

section RegWrite

variable {ρ : Type}

/-- Memory behind the stores of some accesses. -/
def memoryAfter (mem : Memory) (l : List (Access ρ)) : Memory :=
  (Access.stored l).foldl (fun mem s => mem.write s.1 0 s.2) mem

/-- A program together with the memory it leaves. -/
def withMemory {α : Type} (mem : Memory) (p : Mmio ρ α) : Mmio ρ (α × Memory) := fun answers =>
  let r := p answers
  ((r.1, memoryAfter mem r.2.2), r.2.1, r.2.2)

theorem withMemory_runs {α : Type} {mem : Memory} {p : Mmio ρ α} {Q : α → List (Access ρ) → Prop}
    (h : Mmio.Runs p Q) :
    Mmio.Runs (withMemory mem p) (fun r l => Q r.1 l ∧ r.2 = memoryAfter mem l) :=
  fun answers => ⟨h answers, rfl⟩

-- the two drivers behind `i2c_hw_write` and `i2c_hw_read`, and `PMB6812_I2C_ADDR`
variable (hwWrite : Memory → WriteArgs → Mmio ρ Bool)
  (hwRead : Memory → (address : UInt8) → (data size : Nat) → Mmio ρ Bool) (pmb6812I2cAddr : UInt8)

/-- `i2c_smbus_write_pec`; its local `pec` is at `pecAt`. -/
def i2cSmbusWritePec (mem : Memory) (pecAt : Nat) (address : UInt8) (data size : Nat) : Mmio ρ Bool :=
  let pec := i2cSmbusPecCalculate address (mem.readBytes data 0 size)
  hwWrite (mem.write pecAt 0 pec) { address, prefixAt := data, prefixSize := size, data := pecAt, size := 1 }

/-- The stack of `pmb681x_reg_write` and of the function it calls. -/
structure Locals where
  command : Nat
  pec : Nat
  confirmation : Nat
  command_lt : command + 2 ≤ addressSpace
  pec_apart : Memory.Disjoint command 2 pec 1

def pmb681xRegWrite (mem : Memory) (locals : Locals) (reg value : UInt8) : Mmio ρ Bool := do
  let mem := mem.writeBytes locals.command 0 [reg, value]
  let expected := i2cSmbusPecCalculate pmb6812I2cAddr (mem.readBytes locals.command 0 2)
  let written ← i2cSmbusWritePec hwWrite mem locals.pec pmb6812I2cAddr locals.command 2
  if !written then
    pure false
  else do
    let (complete, mem) ← withMemory mem (hwRead mem pmb6812I2cAddr locals.confirmation 1)
    pure (complete && mem.read locals.confirmation 0 == expected)

/-- What a controller's driver does: a write hands over the frame in the register `tx`, a read stores what
    comes in the register `rx`. -/
structure Drives [DecidableEq ρ] (tx rx : ρ) : Prop where
  write : ∀ (mem : Memory) (args : WriteArgs), args.address.toNat < 128 →
    args.prefixSize + args.size + 1 < 2 ^ 32 →
    Mmio.Runs (hwWrite mem args) fun ok l => HandsOver (args.frame mem) (Access.written tx l) ok
  read : ∀ (mem : Memory) (address : UInt8) (data size : Nat),
    Mmio.Runs (hwRead mem address data size) fun ok l => StoresReceived rx data size ok l

end RegWrite

theorem drives_v1 (passes : Nat) :
    Drives (fun mem args => V1.hwWrite mem passes args)
      (fun mem address data size => V1.hwRead mem passes address data size) .rtb .rtb where
  write mem _ haddress _ := (V1.hwWrite_handsOver mem passes haddress).mono fun _ _ h => h.1
  read mem address data size := V1.hwRead_runs mem passes address data size

theorem drives_v2 :
    Drives V2.hwWrite (fun _ address data size => V2.hwRead address data size) .txd .rxd where
  write mem _ _ hsize := (V2.hwWrite_handsOver mem hsize).mono fun _ _ h => h.1
  read _ address data size := V2.hwRead_runs address data size

section Confirmed

variable {ρ : Type} [DecidableEq ρ]

/-- The only byte of a delivery is the lowest one of a received word. -/
theorem Delivers.of_singleton {r : ρ} {rx : Nat} {b : UInt8} {l : List (Access ρ)}
    (h : Delivers r rx [b] l) :
    Access.stored l = [(rx, b)] ∧ ∃ v ∈ Access.received r l, v.toUInt8 = b := by
  obtain ⟨hstored, counts, -, -, hbytes⟩ := h
  refine ⟨hstored, ?_⟩
  have hmem : b ∈ (counts.zipWith (fun n v => leBytes n v.toNat) (Access.received r l)).flatten :=
    hbytes ▸ List.mem_singleton_self b
  obtain ⟨piece, hpiece, hb⟩ := List.mem_flatten.mp hmem
  -- a piece of the one byte has no second one
  have hlength : piece.length ≤ 1 := by
    have hall := congrArg List.length hbytes
    rw [List.length_singleton, List.length_flatten] at hall
    rw [hall]
    exact List.single_le_sum (fun _ _ => Nat.zero_le _) _ (List.mem_map_of_mem hpiece)
  rw [← List.map_uncurry_zip_eq_zipWith, List.mem_map] at hpiece
  obtain ⟨⟨n, v⟩, hzip, rfl⟩ := hpiece
  refine ⟨v, (List.of_mem_zip hzip).2, ?_⟩
  rw [Function.uncurry_apply_pair] at hb hlength
  rw [leBytes_length] at hlength
  cases n with
  | zero => cases hb
  | succ n =>
      obtain rfl : n = 0 := by omega
      rw [leBytes, leBytes, List.mem_singleton] at hb
      rw [hb]
      rfl

/-- What a true result of `pmb681x_reg_write` says about the accesses `l`. -/
def Confirmed (tx rx : ρ) (locals : Locals) (frame : List UInt8) (pec : UInt8) (l : List (Access ρ)) :
    Prop :=
  ∃ l₁ l₂, l = l₁ ++ l₂ ∧ Access.written tx l₁ = [word frame] ∧
    Access.stored l₂ = [(locals.confirmation, pec)] ∧ ∃ v ∈ Access.received rx l₂, v.toUInt8 = pec

variable {hwWrite : Memory → WriteArgs → Mmio ρ Bool}
  {hwRead : Memory → UInt8 → Nat → Nat → Mmio ρ Bool} {tx rx : ρ}

theorem pmb681xRegWrite_runs (hdrives : Drives hwWrite hwRead tx rx) {pmb6812I2cAddr : UInt8}
    (haddress : pmb6812I2cAddr.toNat < 128) (mem : Memory) (locals : Locals) (reg value : UInt8) :
    Mmio.Runs (pmb681xRegWrite hwWrite hwRead pmb6812I2cAddr mem locals reg value) fun ok l =>
      ok = true → Confirmed tx rx locals
        [pmb6812I2cAddr <<< 1, reg, value, i2cSmbusPecCalculate pmb6812I2cAddr [reg, value]]
        (i2cSmbusPecCalculate pmb6812I2cAddr [reg, value]) l := by
  have hcommand : (mem.writeBytes locals.command 0 [reg, value]).readBytes locals.command 0 2
      = [reg, value] :=
    (Memory.holds_writeBytes mem locals.command [reg, value]
      (by simp [addressSpace])).readBytes_eq
  unfold pmb681xRegWrite i2cSmbusWritePec
  simp only [hcommand]
  generalize i2cSmbusPecCalculate pmb6812I2cAddr [reg, value] = pec
  -- the frame of the write
  have hframe : WriteArgs.frame ((mem.writeBytes locals.command 0 [reg, value]).write locals.pec 0 pec)
      { address := pmb6812I2cAddr, prefixAt := locals.command, prefixSize := 2, data := locals.pec, size := 1 }
      = [pmb6812I2cAddr <<< 1, reg, value, pec] := by
    have hkept : ((mem.writeBytes locals.command 0 [reg, value]).write locals.pec 0 pec).readBytes
        locals.command 0 2 = [reg, value] := by
      refine Eq.trans ?_ hcommand
      refine List.map_congr_left fun i hi => Memory.read_write_of_ne ?_
      rw [Nat.zero_add]
      exact locals.pec_apart i (List.mem_range.mp hi) 0 Nat.one_pos
    have hlast : ((mem.writeBytes locals.command 0 [reg, value]).write locals.pec 0 pec).readBytes
        locals.pec 0 1 = [pec] := by
      rw [readBytes_succ, readBytes_zero, Memory.read_write_self]
    rw [WriteArgs.frame, hkept, hlast]
    rfl
  have hwrite := hdrives.write ((mem.writeBytes locals.command 0 [reg, value]).write locals.pec 0 pec)
    { address := pmb6812I2cAddr, prefixAt := locals.command, prefixSize := 2, data := locals.pec, size := 1 }
    haddress (by simp)
  rw [hframe] at hwrite
  refine hwrite.bind fun written l₁ hl₁ => Mmio.Runs.ite (fun _ => ?_) (fun hwritten => ?_)
  · exact Mmio.Runs.pure fun h => absurd h Bool.false_ne_true
  · have hall := hl₁.2 (by simpa using hwritten)
    refine (withMemory_runs (hdrives.read (mem.writeBytes locals.command 0 [reg, value]) pmb6812I2cAddr
      locals.confirmation 1)).bind ?_
    rintro ⟨complete, memory⟩ l₂ ⟨⟨bs, -, hdelivers, hcomplete⟩, hmemory⟩
    refine Mmio.Runs.pure fun hok => ?_
    rw [Bool.and_eq_true, beq_iff_eq] at hok
    obtain ⟨hdone, hequal⟩ := hok
    obtain ⟨b, rfl⟩ := List.length_eq_one_iff.mp (hcomplete hdone)
    obtain ⟨hstored, v, hv, hb⟩ := hdelivers.of_singleton
    have hconfirmed : b = pec := by
      rw [← hequal]
      simp only at hmemory
      rw [hmemory, memoryAfter, hstored]
      exact (Memory.read_write_self _ _ _ _).symm
    subst hconfirmed
    refine ⟨l₁, l₂, by simp, ?_, hstored, v, hv, hb⟩
    rw [hall]
    rfl

end Confirmed

/-- `pmb681x_reg_write` over the older controller. -/
def V1.regWrite (mem : Memory) (passes : Nat) (pmb6812I2cAddr : UInt8) (locals : Locals) (reg value : UInt8) :
    Mmio V1.Register Bool :=
  pmb681xRegWrite (fun mem args => V1.hwWrite mem passes args)
    (fun mem address data size => V1.hwRead mem passes address data size) pmb6812I2cAddr mem locals reg value

/-- `pmb681x_reg_write` over the newer controller. -/
def V2.regWrite (mem : Memory) (pmb6812I2cAddr : UInt8) (locals : Locals) (reg value : UInt8) :
    Mmio V2.Register Bool :=
  pmb681xRegWrite V2.hwWrite (fun _ address data size => V2.hwRead address data size) pmb6812I2cAddr mem
    locals reg value

/-- **A register write is confirmed.** On either controller and whatever the hardware answers,
    `pmb681x_reg_write` returns true only after the command with its code was handed over as one word and the
    byte read back, the lowest of a received word, is that code. A PMIC that has understood another register
    or value, wrong in up to three bits or in one byte, answers with another code. -/
theorem pmb681xRegWrite_confirmed (mem : Memory) (locals : Locals) (pmb6812I2cAddr reg value : UInt8)
    (passes : Nat) (answers answers' : Nat → UInt32) (haddress : pmb6812I2cAddr.toNat < 128) :
    let pec := i2cSmbusPecCalculate pmb6812I2cAddr [reg, value]
    let command := [pmb6812I2cAddr <<< 1, reg, value]
    ((V1.regWrite mem passes pmb6812I2cAddr locals reg value).result answers = true →
      Confirmed .rtb .rtb locals (command ++ [pec]) pec
        ((V1.regWrite mem passes pmb6812I2cAddr locals reg value).accesses answers)) ∧
    ((V2.regWrite mem pmb6812I2cAddr locals reg value).result answers' = true →
      Confirmed .txd .rxd locals (command ++ [pec]) pec
        ((V2.regWrite mem pmb6812I2cAddr locals reg value).accesses answers')) ∧
    ∀ reg' value', [pmb6812I2cAddr <<< 1, reg', value'] ≠ command →
      SeenErrors command [pmb6812I2cAddr <<< 1, reg', value'] →
      i2cSmbusPecCalculate pmb6812I2cAddr [reg', value'] ≠ pec := by
  intro pec command
  refine ⟨pmb681xRegWrite_runs (drives_v1 passes) haddress mem locals reg value answers,
    pmb681xRegWrite_runs drives_v2 haddress mem locals reg value answers', fun reg' value' hne hseen => ?_⟩
  rw [i2cSmbusPecCalculate_eq]
  exact (smbusPecUpdates_ne (by rfl) hne.symm hseen).symm

/-- A write of `0x80` to register 5 that the PMIC confirms. -/
theorem pmb681xRegWrite_confirmed_example :
    let locals : Locals := ⟨16, 20, 24, by decide, Memory.disjoint_of_le (by decide) (by decide)⟩
    let answers : Nat → UInt32 := fun n =>
      if n = 1 then V1.sysconIRQE else if n = 3 then V1.sysconIRQD
      else if n = 6 then V1.sysconIRQD ||| V1.sysconIRQE else if n = 7 then 0x100
      else if n = 10 then (i2cSmbusPecCalculate 0x31 [0x05, 0x80]).toUInt32 else 0
    Confirmed .rtb .rtb locals [0x62, 0x05, 0x80, i2cSmbusPecCalculate 0x31 [0x05, 0x80]]
      (i2cSmbusPecCalculate 0x31 [0x05, 0x80])
      ((V1.regWrite countingMemory 2 0x31 locals 0x05 0x80).accesses answers) := by
  intro locals answers
  exact (pmb681xRegWrite_confirmed countingMemory locals 0x31 0x05 0x80 2 answers answers (by decide)).1
    (by decide +kernel)

end Pmb887x.I2c
