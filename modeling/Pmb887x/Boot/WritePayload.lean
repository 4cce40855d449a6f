import Pmb887x.Boot.Lz4
import Pmb887x.Preloader.Requests

set_option autoImplicit false

/-! # Loading a payload through the preloader (`boot.py`)

The host side of the two write commands. A host program may raise, so it is an `Except` program on
the link; `port.read` waits for its byte, since the link loses none. `preloaderWritePayload` cuts the
payload into blocks and sends each one compressed or raw, whichever is shorter.

Run against the preloader's command loop, in any interleaving of the two sides, the payload arrives
(`preloaderWritePayload_delivers`). -/

namespace Pmb887x.Boot

open Library Preloader

/-! ## The host -/

def sramStart : Nat := 0x00080000
def sramEnd : Nat := 0x00098000
def extramAddress : Nat := 0xB0000000
def extramSize : Nat := 0x02000000

/-- What the host raises. -/
inductive HostError where
  /-- `ProtocolError("invalid %s: 0x%02X, expected 0x%02X")` -/
  | invalidByte (description : String) (value expected : UInt8)
  /-- `ProtocolError("unsupported payload write address: 0x%08X")` -/
  | unsupportedAddress (address : Nat)
  /-- `ProtocolError("payload does not fit at 0x%08X")` -/
  | doesNotFit (address : Nat)
  /-- `ProtocolError("payload is empty")` -/
  | payloadEmpty
  /-- `struct.error`: a value outside the range of its format -/
  | packRange (value : Nat)
  deriving DecidableEq

/-- A host program: it may raise. -/
abbrev Host := ExceptT HostError Prog

/-- `port.write(data)` -/
def portWrite (data : List UInt8) : Host Unit := ExceptT.lift (Prog.sendAll data)

/-- `read_byte`; the link delivers every byte, so the read does not time out. -/
def readByte : Host UInt8 := ExceptT.lift Prog.getc

def expectByte (expected : UInt8) (description : String) : Host Unit := do
  let value ← readByte
  if value ≠ expected then
    throw (.invalidByte description value expected)

/-- `struct.pack("<I", value)` -/
def packU32 (value : Nat) : Host (List UInt8) :=
  if value < 2 ^ 32 then pure (leBytes 4 value) else throw (.packRange value)

section Requests

-- `zlib.crc32`
variable (zlibCrc32 : List UInt8 → Nat)

def preloaderWrite (address : Nat) (data : List UInt8) : Host Unit := do
  let crc := zlibCrc32 data &&& 0xFFFFFFFF
  let addressField ← packU32 address
  let sizeField ← packU32 data.length
  portWrite ([cmdRamWriteByte] ++ (addressField ++ sizeField))
  portWrite data
  portWrite (← packU32 crc)
  expectByte statusSuccess "RAM write status"

def preloaderWriteLz4 (address : Nat) (data compressed : List UInt8) : Host Unit := do
  let crc := zlibCrc32 data &&& 0xFFFFFFFF
  let addressField ← packU32 address
  let compressedField ← packU32 compressed.length
  let sizeField ← packU32 data.length
  portWrite ([cmdWriteRamLz4Byte] ++ (addressField ++ (compressedField ++ sizeField)))
  portWrite compressed
  portWrite (← packU32 crc)
  expectByte statusSuccess "LZ4 write status"

/-- The body of the loop of `preloader_write_payload`. -/
def writeBlock (address : Nat) (block : List UInt8) : Host Unit :=
  let compressed := lz4CompressBlock block
  if compressed.length < block.length then preloaderWriteLz4 zlibCrc32 address block compressed
  else preloaderWrite zlibCrc32 address block

/-- `for offset in range(offset, len(data), LZ4_BLOCK_SIZE)` -/
def writeBlocks (address : Nat) (data : List UInt8) (offset : Nat) : Host Unit :=
  if offset < data.length then do
    writeBlock zlibCrc32 (address + offset) (slice data offset (offset + lz4BlockSize))
    writeBlocks address data (offset + lz4BlockSize)
  else pure ()
termination_by data.length - offset
decreasing_by simp only [lz4BlockSize]; omega

def preloaderWritePayload (address : Nat) (data : List UInt8) : Host Unit :=
  writeBlocks zlibCrc32 address data 0

end Requests

/-- The checks of `main` on the payload and its address; the result is `init_extram`. -/
def checkPayload (payload : List UInt8) (writeAddress : Nat) : Except HostError Bool := do
  if payload.isEmpty then
    throw .payloadEmpty
  let (memoryEnd, initExtram) ←
    if sramStart ≤ writeAddress ∧ writeAddress < sramEnd then pure (sramEnd, false)
    else if extramAddress ≤ writeAddress ∧ writeAddress < extramAddress + extramSize then
      pure (extramAddress + extramSize, true)
    else throw (.unsupportedAddress writeAddress)
  if payload.length > memoryEnd - writeAddress then
    throw (.doesNotFit writeAddress)
  pure initExtram

/-- An accepted payload lies in the SRAM or in the external RAM. -/
theorem checkPayload_ok {payload : List UInt8} {address : Nat} {initExtram : Bool}
    (h : checkPayload payload address = .ok initExtram) :
    payload ≠ [] ∧
      ((sramStart ≤ address ∧ address + payload.length ≤ sramEnd) ∨
        (extramAddress ≤ address ∧ address + payload.length ≤ extramAddress + extramSize)) := by
  cases payload with
  | nil => cases h
  | cons b rest =>
      refine ⟨by simp, ?_⟩
      unfold checkPayload at h
      simp only [List.isEmpty_cons, Bool.false_eq_true, if_false, pure_bind] at h
      by_cases hs : sramStart ≤ address ∧ address < sramEnd
      · rw [if_pos hs] at h
        split at h
        · cases h
        · next hfit => left; omega
      · rw [if_neg hs] at h
        by_cases he : extramAddress ≤ address ∧ address < extramAddress + extramSize
        · rw [if_pos he] at h
          split at h
          · cases h
          · next hfit => right; omega
        · rw [if_neg he] at h
          cases h

/-- Neither region contains the preloader's block buffer. -/
theorem checkPayload_disjoint {payload : List UInt8} {address : Nat} {initExtram : Bool}
    (h : checkPayload payload address = .ok initExtram) :
    address + payload.length < addressSpace ∧
      Memory.Disjoint dtcmAddress lz4BlockSize address payload.length := by
  obtain ⟨-, hin⟩ := checkPayload_ok h
  simp only [sramStart, sramEnd, extramAddress, extramSize] at hin
  simp only [dtcmAddress, lz4BlockSize, addressSpace]
  rcases hin with ⟨hlo, hhi⟩ | ⟨hlo, hhi⟩
  · exact ⟨by omega, (Memory.disjoint_of_le (by omega) (by simp only [addressSpace]; omega)).symm⟩
  · exact ⟨by omega, Memory.disjoint_of_le (by omega) (by simp only [addressSpace]; omega)⟩

/-! ## What the host puts on the link -/

section Bind

variable {α : Type}

theorem portWrite_bind (data : List UInt8) (k : Host α) :
    (portWrite data >>= fun _ => k).run = Prog.sendAll data >>= fun _ => k.run := by
  simp [portWrite]

theorem sendAll_append_bind (xs ys : List UInt8) (k : Prog α) :
    (Prog.sendAll (xs ++ ys) >>= fun _ => k)
      = Prog.sendAll xs >>= fun _ => Prog.sendAll ys >>= fun _ => k := by
  induction xs with
  | nil => rfl
  | cons x xs ih => simp only [List.cons_append, Prog.sendAll, Prog.send_bind, ih]

theorem packU32_of_lt {value : Nat} (h : value < 2 ^ 32) : packU32 value = pure (leBytes 4 value) :=
  if_pos h

/-- What follows an `expect_byte`. -/
def afterByte (expected : UInt8) (description : String) (k : Host α) (value : UInt8) :
    Prog (Except HostError α) :=
  if value ≠ expected then .ret (.error (.invalidByte description value expected)) else k.run

theorem afterByte_expected (expected : UInt8) (description : String) (k : Host α) :
    afterByte expected description k expected = k.run :=
  if_neg (not_not.2 rfl)

theorem expectByte_bind (expected : UInt8) (description : String) (k : Host α) :
    (expectByte expected description >>= fun _ => k).run
      = .recv (afterByte expected description k) := by
  have hread : ∀ f : UInt8 → Host α, (readByte >>= f).run = .recv (fun b => (f b).run) := by
    intro f
    simp only [readByte, ExceptT.run_bind, ExceptT.run_lift]
    rfl
  rw [expectByte, bind_assoc, hread]
  congr 1
  funext value
  by_cases h : value ≠ expected
  · rw [if_pos h, afterByte, if_pos h]
    rfl
  · rw [if_neg h, afterByte, if_neg h]
    rfl

variable (zlibCrc32 : List UInt8 → Nat) {address : Nat} {data : List UInt8}

theorem preloaderWrite_bind (ha : address < 2 ^ 32) (hd : data.length < 2 ^ 32) (k : Host α) :
    (preloaderWrite zlibCrc32 address data >>= fun _ => k).run
      = Prog.sendAll (Request.ramWrite address (zlibCrc32 data &&& 0xFFFFFFFF) data).bytes
        >>= fun _ => .recv (afterByte statusSuccess "RAM write status" k) := by
  have hcrc : zlibCrc32 data &&& 0xFFFFFFFF < 2 ^ 32 :=
    Nat.lt_of_le_of_lt Nat.and_le_right (by decide)
  have hbytes : (Request.ramWrite address (zlibCrc32 data &&& 0xFFFFFFFF) data).bytes
      = ([cmdRamWriteByte] ++ (leBytes 4 address ++ leBytes 4 data.length))
        ++ (data ++ leBytes 4 (zlibCrc32 data &&& 0xFFFFFFFF)) := by
    simp [Request.bytes, Request.fields]
  rw [preloaderWrite, packU32_of_lt ha, packU32_of_lt hd, packU32_of_lt hcrc, hbytes]
  simp only [pure_bind, bind_assoc, portWrite_bind, expectByte_bind, sendAll_append_bind]

theorem preloaderWriteLz4_bind {compressed : List UInt8} (ha : address < 2 ^ 32)
    (hc : compressed.length < 2 ^ 32) (hd : data.length < 2 ^ 32) (k : Host α) :
    (preloaderWriteLz4 zlibCrc32 address data compressed >>= fun _ => k).run
      = Prog.sendAll (Request.writeRamLz4 address data.length (zlibCrc32 data &&& 0xFFFFFFFF)
          compressed).bytes
        >>= fun _ => .recv (afterByte statusSuccess "LZ4 write status" k) := by
  have hcrc : zlibCrc32 data &&& 0xFFFFFFFF < 2 ^ 32 :=
    Nat.lt_of_le_of_lt Nat.and_le_right (by decide)
  have hbytes : (Request.writeRamLz4 address data.length (zlibCrc32 data &&& 0xFFFFFFFF)
      compressed).bytes
      = ([cmdWriteRamLz4Byte] ++ (leBytes 4 address ++ (leBytes 4 compressed.length
          ++ leBytes 4 data.length)))
        ++ (compressed ++ leBytes 4 (zlibCrc32 data &&& 0xFFFFFFFF)) := by
    simp [Request.bytes, Request.fields]
  rw [preloaderWriteLz4, packU32_of_lt ha, packU32_of_lt hc, packU32_of_lt hd,
    packU32_of_lt hcrc, hbytes]
  simp only [pure_bind, bind_assoc, portWrite_bind, expectByte_bind, sendAll_append_bind]

end Bind

/-! ## One block -/

/-- `m'` holds `data` at `address` and is otherwise `m`, the block buffer of the preloader apart. -/
structure Delivered (m m' : Memory) (address : Nat) (data : List UInt8) : Prop where
  holds : m'.Holds address 0 data
  frame : ∀ a, ¬ Memory.InBuffer address data.length a →
    ¬ Memory.InBuffer dtcmAddress lz4BlockSize a → m' a = m a

theorem delivered_writeBytes (m : Memory) (address : Nat) {data : List UInt8}
    (h : data.length < 2 ^ 32) : Delivered m (m.writeBytes address 0 data) address data :=
  ⟨Memory.holds_writeBytes m address data (by simp only [addressSpace]; omega),
    fun a ha _ => Memory.writeBytes_sameOutside data m address 0 data.length (by omega) a ha⟩

/-- A compressed block is accepted and delivered. -/
theorem lz4WriteResult_delivered (m : Memory) {address : Nat} {block : List UInt8}
    (hblock : block.length ≤ lz4BlockSize)
    (hshort : (lz4CompressBlock block).length < block.length)
    (hd : Memory.Disjoint dtcmAddress lz4BlockSize address block.length) :
    ∃ m', lz4WriteResult m address block.length (crc32 block).toNat (lz4CompressBlock block)
        = (true, m') ∧ Delivered m m' address block := by
  obtain ⟨b, hbytes, hvalid, htext⟩ := lz4CompressBlock_block block
  simp only [lz4BlockSize] at hblock
  have hsmall : ¬ ((lz4CompressBlock block).length > lz4BlockSize ∨
      block.length > lz4BlockSize) := by
    simp only [lz4BlockSize]
    omega
  have hheld := Memory.holds_writeBytes m dtcmAddress (lz4CompressBlock block)
    (by simp only [addressSpace]; omega)
  have hbuffer := Memory.writeBytes_sameOutside (lz4CompressBlock block) m dtcmAddress 0
    lz4BlockSize (by simp only [lz4BlockSize]; omega)
  rw [hbytes] at hheld hshort
  subst htext
  have hd' : Memory.Disjoint dtcmAddress b.bytes.length address b.expand.length :=
    hd.mono (by simp only [lz4BlockSize]; omega) (Nat.le_refl _)
  rw [lz4WriteResult, if_neg hsmall, hbytes]
  rw [hbytes] at hbuffer
  obtain ⟨m', hrun, hres, hframe⟩ :=
    lz4Decompress_block hheld hvalid (by omega) hd' (by omega)
  refine ⟨m', ?_, hres, fun a ha hdtcm => (hframe a ha).trans (hbuffer a hdtcm)⟩
  rw [hrun]
  simp [hres.readBytes_eq]

/-- Two deliveries, one behind the other. -/
theorem Delivered.append {m m₁ m₂ : Memory} {address : Nat} {xs ys : List UInt8}
    (h₁ : Delivered m m₁ address xs) (h₂ : Delivered m₁ m₂ (address + xs.length) ys)
    (hsize : xs.length + ys.length ≤ addressSpace)
    (hd : Memory.Disjoint dtcmAddress lz4BlockSize address (xs.length + ys.length)) :
    Delivered m m₂ address (xs ++ ys) := by
  refine ⟨Memory.holds_append.2 ⟨fun i hi => ?_, ?_⟩, fun a ha hdtcm => ?_⟩
  · -- the first block is outside both buffers that the second write may touch
    refine (h₂.frame _ ?_ ?_).trans (h₁.holds i hi)
    · rintro ⟨j, hj, he⟩
      rw [Memory.address_add] at he
      have := address_inj (by omega) (by omega) he
      omega
    · rintro ⟨j, hj, he⟩
      exact hd j hj (0 + i) (by omega) he.symm
  · rw [Nat.zero_add]
    exact Memory.holds_base_add.1 h₂.holds
  · rw [List.length_append] at ha
    rw [h₂.frame a (fun h => ha h.of_base_add) hdtcm,
      h₁.frame a (fun h => ha (h.mono (by omega))) hdtcm]

section Delivery

variable {zlibCrc32 : List UInt8 → Nat} (payload : Nat → Device → Prog Device)

/-- One block of the payload is written and both sides are back at a message boundary. -/
theorem reaches_writeBlock (hcrc : ∀ data, zlibCrc32 data = (crc32 data).toNat) (d : Device)
    (hcontrol : d.control = .command) {address : Nat} {block : List UInt8}
    (haddress : address < 2 ^ 32) (hblock : block.length ≤ lz4BlockSize)
    (hd : Memory.Disjoint dtcmAddress lz4BlockSize address block.length) (k : Host Unit) :
    ∃ m', Delivered d.memory m' address block ∧
      Config.Reaches (mainRound payload)
        ⟨(writeBlock zlibCrc32 address block >>= fun _ => k).run, mainRound payload d, [], []⟩
        ⟨k.run, mainRound payload { d with memory := m' }, [], []⟩ := by
  have hlen : block.length < 2 ^ 32 := by
    simp only [lz4BlockSize] at hblock
    omega
  have hmask : zlibCrc32 block &&& 0xFFFFFFFF = (crc32 block).toNat := by
    rw [hcrc, show 0xFFFFFFFF = 2 ^ 32 - 1 from rfl, Nat.and_two_pow_sub_one_eq_mod]
    exact Nat.mod_eq_of_lt (crc32 block).isLt
  have hcrclt := (crc32 block).isLt
  rw [writeBlock]
  by_cases hshort : (lz4CompressBlock block).length < block.length
  · obtain ⟨m', hresult, hdelivered⟩ := lz4WriteResult_delivered d.memory hblock hshort hd
    have hrun := runs_mainRound_writeRamLz4 payload hcontrol (runs_cmdWriteRamLz4 d haddress hlen
      hcrclt (Nat.lt_trans hshort hlen))
    rw [hresult, if_pos rfl] at hrun
    refine ⟨m', hdelivered, ?_⟩
    rw [if_pos hshort,
      preloaderWriteLz4_bind zlibCrc32 haddress (Nat.lt_trans hshort hlen) hlen k, hmask]
    have hreach := Config.reaches_request (mainRound payload) hrun
      (afterByte statusSuccess "LZ4 write status" k)
    rwa [afterByte_expected] at hreach
  · have hrun := runs_mainRound_ramWrite payload hcontrol
      (runs_cmdRamWrite d haddress hcrclt hlen)
    rw [if_pos (by simp)] at hrun
    refine ⟨_, delivered_writeBytes d.memory address hlen, ?_⟩
    rw [if_neg hshort, preloaderWrite_bind zlibCrc32 haddress hlen k, hmask]
    have hreach := Config.reaches_request (mainRound payload) hrun
      (afterByte statusSuccess "RAM write status" k)
    rwa [afterByte_expected] at hreach

/-! ## The whole payload -/

theorem slice_length_min (data : List UInt8) (start size : Nat) :
    (slice data start (start + size)).length = min size (data.length - start) := by
  simp only [slice, List.length_drop, List.length_take]
  omega

theorem reaches_writeBlocks (hcrc : ∀ data, zlibCrc32 data = (crc32 data).toNat) (m : Memory)
    {address : Nat} {data : List UInt8} (hsize : address + data.length < addressSpace)
    (hd : Memory.Disjoint dtcmAddress lz4BlockSize address data.length) (n : Nat) :
    ∀ (offset : Nat) (d : Device), data.length - offset = n → d.control = .command →
      Delivered m d.memory address (data.take offset) →
      ∃ m', Delivered m m' address data ∧
        Config.Reaches (mainRound payload)
          ⟨(writeBlocks zlibCrc32 address data offset).run, mainRound payload d, [], []⟩
          ⟨.ret (.ok ()), mainRound payload { d with memory := m' }, [], []⟩ := by
  induction n using Nat.strong_induction_on with
  | _ n ih =>
      intro offset d hn hcontrol hdone
      rw [writeBlocks]
      by_cases hlt : offset < data.length
      · rw [if_pos hlt]
        have hslice := slice_length_min data offset lz4BlockSize
        have htake : (data.take offset).length = offset := by
          rw [List.length_take]
          omega
        simp only [addressSpace] at hsize
        have hblock : Memory.Disjoint dtcmAddress lz4BlockSize (address + offset)
            (slice data offset (offset + lz4BlockSize)).length := by
          intro i hi j hj
          rw [Memory.address_add]
          exact hd i hi (offset + j) (by omega)
        obtain ⟨m₁, hdelivered, hreach⟩ := reaches_writeBlock payload hcrc d hcontrol
          (by omega) (by omega) hblock
          (writeBlocks zlibCrc32 address data (offset + lz4BlockSize))
        have hbehind : Delivered d.memory m₁ (address + (data.take offset).length)
            (slice data offset (offset + lz4BlockSize)) := by
          rw [htake]
          exact hdelivered
        have hnext := hdone.append hbehind (by simp only [addressSpace]; omega)
          (hd.mono (Nat.le_refl _) (by omega))
        rw [take_append_slice (Nat.le_add_right _ _)] at hnext
        obtain ⟨m', hall, hrest⟩ := ih (data.length - (offset + lz4BlockSize))
          (by simp only [lz4BlockSize]; omega) (offset + lz4BlockSize) { d with memory := m₁ } rfl
          hcontrol hnext
        exact ⟨m', hall, hreach.trans hrest⟩
      · rw [if_neg hlt]
        rw [List.take_of_length_le (by omega)] at hdone
        exact ⟨d.memory, hdone, .refl⟩

/-- **The payload arrives.** For every payload and address that pass the checks of `main`, whatever
    the blocks' encodings are and however the two sides interleave: the run ends, it ends with
    every status as expected, the preloader in its command loop and no byte in flight, the target
    range holds the payload, and nothing else but the block buffer has changed. -/
theorem preloaderWritePayload_delivers
    (hcrc : ∀ data, zlibCrc32 data = (crc32 data).toNat) (d : Device)
    (hcontrol : d.control = .command) (address : Nat) (data : List UInt8) (initExtram : Bool)
    (hcheck : checkPayload data address = .ok initExtram) :
    ∃ m', m'.readBytes address 0 data.length = data ∧
      (∀ a, ¬ Memory.InBuffer address data.length a →
        ¬ Memory.InBuffer dtcmAddress lz4BlockSize a → m' a = d.memory a) ∧
      (∀ c, Config.Reaches (mainRound payload)
          ⟨(preloaderWritePayload zlibCrc32 address data).run, mainRound payload d, [], []⟩ c →
        Config.Reaches (mainRound payload) c
          ⟨.ret (.ok ()), mainRound payload { d with memory := m' }, [], []⟩) ∧
      Acc (fun c' c => Config.Step (mainRound payload) c c')
        ⟨(preloaderWritePayload zlibCrc32 address data).run, mainRound payload d, [], []⟩ := by
  obtain ⟨hsize, hd⟩ := checkPayload_disjoint hcheck
  have hstart : Delivered d.memory d.memory address (data.take 0) :=
    ⟨Memory.holds_nil _ _ _, fun _ _ _ => rfl⟩
  obtain ⟨m', hdelivered, hreach⟩ := reaches_writeBlocks payload hcrc d.memory hsize hd
    (data.length - 0) 0 d rfl hcontrol hstart
  have hsettled : Config.Settled (α := Except HostError Unit)
      ⟨.ret (.ok ()), mainRound payload { d with memory := m' }, [], []⟩ (.ok ()) :=
    ⟨rfl, ⟨_, rfl⟩, rfl, rfl⟩
  obtain ⟨hevery, hends⟩ := Config.every_run hsettled hreach
  exact ⟨m', hdelivered.holds.readBytes_eq, hdelivered.frame, hevery, hends⟩

end Delivery

/-- A compressible payload for the start of the SRAM. -/
theorem preloaderWritePayload_delivers_sram :
    ∃ m' : Memory, m'.readBytes 0x00080000 0 20 = List.replicate 20 0x41 ∧
      Config.Reaches (mainRound fun _ d => pure d)
        ⟨(preloaderWritePayload (fun data => (crc32 data).toNat) 0x00080000
            (List.replicate 20 0x41)).run,
          mainRound (fun _ d => pure d) ⟨fun _ => 0, ⟨0, 0, 0, 0, 0⟩, 115200, true, .command⟩,
          [], []⟩
        ⟨.ret (.ok ()), mainRound (fun _ d => pure d)
          ⟨m', ⟨0, 0, 0, 0, 0⟩, 115200, true, .command⟩, [], []⟩ := by
  obtain ⟨m', hheld, -, hreach, -⟩ := preloaderWritePayload_delivers (fun _ d => pure d)
    (fun _ => rfl) ⟨fun _ => 0, ⟨0, 0, 0, 0, 0⟩, 115200, true, .command⟩ rfl 0x00080000
    (List.replicate 20 0x41) false rfl
  exact ⟨m', hheld, hreach _ .refl⟩

end Pmb887x.Boot
