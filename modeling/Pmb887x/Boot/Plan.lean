import Pmb887x.Boot.WritePayload

set_option autoImplicit false

/-! # What `boot.py` decides before it opens the port

`readPreloaderHeader` finds the PMB887X header of an image, and `planBoot` is `main` up to the serial
port: where the payload goes, where it is entered and whether the external RAM is needed. -/

namespace Pmb887x.Boot

open Library

inductive Cpu where
  | pmb8875
  | pmb8876
  deriving DecidableEq

inductive Platform where
  | siemens
  | apoxi
  deriving DecidableEq

def preloaderHeaderSize : Nat := 32
def preloaderBoardNameSize : Nat := 20
def bootMagicOffset : Nat := 0x3C
def siemensBootMarkerOffset : Nat := 0x28

/-- `b"CJKT"` -/
def bootMagic : List UInt8 := [0x43, 0x4A, 0x4B, 0x54]

/-- `b"SIEMENS_BOOTCODE"` -/
def siemensBootMarker : List UInt8 :=
  [0x53, 0x49, 0x45, 0x4D, 0x45, 0x4E, 0x53, 0x5F, 0x42, 0x4F, 0x4F, 0x54, 0x43, 0x4F, 0x44, 0x45]

/-- `b"PMB8875"`, `b"PMB8876"` -/
def Cpu.magic : Cpu → List UInt8
  | .pmb8875 => [0x50, 0x4D, 0x42, 0x38, 0x38, 0x37, 0x35]
  | .pmb8876 => [0x50, 0x4D, 0x42, 0x38, 0x38, 0x37, 0x36]

/-- `PLATFORMS` -/
def platforms (id : UInt8) : Option Platform :=
  if id = 0 then some .siemens else if id = 1 then some .apoxi else none

/-- The errors of `main` and of what it calls before the preloader runs. -/
inductive MainError where
  /-- `ProtocolError("truncated PMB887X header at offset %d")` -/
  | truncatedHeader (offset : Nat)
  /-- `ProtocolError("invalid PMB887X header platform: %d")` -/
  | invalidPlatform (id : UInt8)
  /-- `ProtocolError("payload has no PMB887X header; specify --platform")` -/
  | platformMissing
  /-- `ProtocolError("payload has no PMB887X header; specify --write-addr and --exec-addr")` -/
  | addressesMissing
  /-- `ProtocolError("--platform does not match the PMB887X header")` -/
  | platformMismatch
  /-- `ProtocolError("payload CPU does not match the connected phone")` -/
  | cpuMismatch
  /-- `ProtocolError("PMB887X header not found in preloader %s")` -/
  | preloaderHeaderMissing
  /-- `ProtocolError("preloader %s does not match the connected phone")` -/
  | preloaderMismatch
  /-- `ProtocolError("preloader is too large for BSL")` -/
  | preloaderTooLarge
  /-- `ProtocolError("invalid BSL status: 0x%02X")` -/
  | invalidBslStatus (status : UInt8)
  /-- what the checks of the payload and the commands of the preloader raise -/
  | host (error : HostError)
  deriving DecidableEq

/-- The header of an image. -/
structure Header where
  cpu : Cpu
  platform : Platform
  board : List Char
  offset : Nat
  loadAddress : Nat
  deriving DecidableEq

/-- `decode("ascii", errors="replace")` of one byte -/
def asciiChar (b : UInt8) : Char := if b < 0x80 then Char.ofNat b.toNat else Char.ofNat 0xFFFD

/-- Where `read_preloader_header` expects the header. -/
def headerOffset (data : List UInt8) : Nat :=
  if slice data bootMagicOffset (bootMagicOffset + 4) = bootMagic then 64
  else if slice data siemensBootMarkerOffset (siemensBootMarkerOffset + 16) = siemensBootMarker then 96
  else 4

def readPreloaderHeader (data : List UInt8) : Except MainError (Option Header) := do
  let offset := headerOffset data
  let magic := slice data offset (offset + 7)
  let some cpu := [Cpu.pmb8875, Cpu.pmb8876].find? (fun cpu => magic = cpu.magic)
    | return none
  if data.length < offset + preloaderHeaderSize then
    throw (.truncatedHeader offset)
  let platformId := data.getD (offset + 7) 0
  let some platform := platforms platformId
    | throw (.invalidPlatform platformId)
  let loadAddress := unpackU32 data (offset + 8)
  let nameData := slice data (offset + 12) (offset + 12 + preloaderBoardNameSize)
  let board := (nameData.takeWhile (· ≠ 0)).map asciiChar
  return some { cpu, platform, board, offset, loadAddress }

/-- The options of the command line that `main` reads here; the addresses went through `parse_address`. -/
structure Args where
  platform : Option Platform
  speed : Nat
  writeAddr : Option Nat
  execAddr : Option Nat

/-- What `main` goes by once the payload is accepted. -/
structure Plan where
  /-- `payload_cpu`, if the payload has a header -/
  cpu : Option Cpu
  platform : Platform
  writeAddress : Nat
  execAddress : Nat
  initExtram : Bool
  deriving DecidableEq

/-- `main` up to `autodetect_device`. -/
def planBoot (args : Args) (payload : List UInt8) : Except MainError Plan := do
  if payload.isEmpty then
    throw (.host .payloadEmpty)
  let (cpu, platform, writeAddress, execAddress) ← (do
    match ← readPreloaderHeader payload with
    | none =>
        match args.platform with
        | none => throw .platformMissing
        | some platform =>
            match args.writeAddr, args.execAddr with
            | some writeAddress, some execAddress => pure (none, platform, writeAddress, execAddress)
            | _, _ => throw .addressesMissing
    | some header =>
        if args.platform ≠ none ∧ args.platform ≠ some header.platform then
          throw .platformMismatch
        let headerExecAddress :=
          if header.offset = 0 then header.loadAddress + preloaderHeaderSize else header.loadAddress
        pure (some header.cpu, header.platform, args.writeAddr.getD header.loadAddress,
          args.execAddr.getD headerExecAddress))
  let initExtram ← (checkPayload payload writeAddress).mapError .host
  return { cpu, platform, writeAddress, execAddress, initExtram }

/-- `select_preloader`; `image` is the file of each platform and CPU. -/
def selectPreloader (image : Platform → Cpu → List UInt8) (cpu : Cpu) (platform : Platform) :
    Except MainError (List UInt8) := do
  let data := image platform cpu
  match ← readPreloaderHeader data with
  | none => throw .preloaderHeaderMissing
  | some header =>
      if header.cpu ≠ cpu ∨ header.platform ≠ platform then
        throw .preloaderMismatch
      return data

/-! ## What an accepted plan says -/

theorem headerOffset_pos (data : List UInt8) : 0 < headerOffset data := by
  unfold headerOffset
  split
  · decide
  · split <;> decide

theorem readPreloaderHeader_ok {data : List UInt8} {header : Header}
    (h : readPreloaderHeader data = .ok (some header)) :
    header.offset = headerOffset data ∧ header.offset + preloaderHeaderSize ≤ data.length ∧
      header.loadAddress = unpackU32 data (header.offset + 8) := by
  unfold readPreloaderHeader at h
  simp only at h
  cases hcpu : [Cpu.pmb8875, Cpu.pmb8876].find?
      (fun cpu => slice data (headerOffset data) (headerOffset data + 7) = cpu.magic) with
  | none =>
      rw [hcpu] at h
      cases h
  | some cpu =>
      rw [hcpu] at h
      by_cases hshort : data.length < headerOffset data + preloaderHeaderSize
      · simp only [if_pos hshort] at h
        cases h
      · simp only [if_neg hshort] at h
        cases hplatform : platforms (data.getD (headerOffset data + 7) 0) with
        | none =>
            rw [hplatform] at h
            cases h
        | some platform =>
            rw [hplatform] at h
            cases h
            exact ⟨rfl, Nat.le_of_not_lt hshort, rfl⟩

theorem unpackU32_lt (data : List UInt8) (offset : Nat) : unpackU32 data offset < 2 ^ 32 :=
  ofLeBytes_lt_two_pow (by rw [List.length_take]; omega)

/-- A payload goes where its header says, unless the command line says otherwise. The branch of `main` for
    a header at offset 0 is never taken. -/
theorem planBoot_header {args : Args} {payload : List UInt8} {plan : Plan} {header : Header}
    (hheader : readPreloaderHeader payload = .ok (some header)) (h : planBoot args payload = .ok plan) :
    plan.cpu = some header.cpu ∧ plan.platform = header.platform ∧
      plan.writeAddress = args.writeAddr.getD header.loadAddress ∧
      plan.execAddress = args.execAddr.getD header.loadAddress ∧
      checkPayload payload plan.writeAddress = .ok plan.initExtram := by
  have hoffset : header.offset ≠ 0 := by
    rw [(readPreloaderHeader_ok hheader).1]
    exact (headerOffset_pos payload).ne'
  unfold planBoot at h
  by_cases hempty : payload.isEmpty = true
  · rw [if_pos hempty] at h
    cases h
  · rw [if_neg hempty, hheader] at h
    by_cases hmismatch : args.platform ≠ none ∧ args.platform ≠ some header.platform
    · simp only [bind, Except.bind, if_pos hmismatch] at h
      cases h
    · simp only [bind, Except.bind, pure, Except.pure, if_neg hmismatch, if_neg hoffset] at h
      cases hcheck : checkPayload payload (args.writeAddr.getD header.loadAddress) with
      | error e =>
          rw [hcheck] at h
          cases h
      | ok initExtram =>
          rw [hcheck] at h
          cases h
          exact ⟨rfl, rfl, rfl, rfl, hcheck⟩

/-- A payload without a header goes where the command line says. -/
theorem planBoot_noHeader {args : Args} {payload : List UInt8} {plan : Plan}
    (hheader : readPreloaderHeader payload = .ok none) (h : planBoot args payload = .ok plan) :
    plan.cpu = none ∧ args.platform = some plan.platform ∧ args.writeAddr = some plan.writeAddress ∧
      args.execAddr = some plan.execAddress ∧
      checkPayload payload plan.writeAddress = .ok plan.initExtram := by
  unfold planBoot at h
  by_cases hempty : payload.isEmpty = true
  · rw [if_pos hempty] at h
    cases h
  · rw [if_neg hempty, hheader] at h
    cases hplatform : args.platform with
    | none =>
        rw [hplatform] at h
        cases h
    | some platform =>
        cases hwrite : args.writeAddr with
        | none =>
            rw [hplatform, hwrite] at h
            cases h
        | some writeAddress =>
            cases hexec : args.execAddr with
            | none =>
                rw [hplatform, hwrite, hexec] at h
                cases h
            | some execAddress =>
                rw [hplatform, hwrite, hexec] at h
                simp only [bind, Except.bind, pure, Except.pure] at h
                cases hcheck : checkPayload payload writeAddress with
                | error e =>
                    rw [hcheck] at h
                    cases h
                | ok initExtram =>
                    rw [hcheck] at h
                    cases h
                    exact ⟨rfl, rfl, rfl, rfl, hcheck⟩

/-- Without a readable header there is no plan. -/
theorem planBoot_error {args : Args} {payload : List UInt8} {plan : Plan} {e : MainError}
    (hheader : readPreloaderHeader payload = .error e) : planBoot args payload ≠ .ok plan := by
  intro h
  unfold planBoot at h
  by_cases hempty : payload.isEmpty = true
  · rw [if_pos hempty] at h
    cases h
  · rw [if_neg hempty, hheader] at h
    cases h

/-- The options that `parse_address` lets through. -/
def Args.Parsed (args : Args) : Prop :=
  (∀ address ∈ args.writeAddr, address < 2 ^ 32) ∧ ∀ address ∈ args.execAddr, address < 2 ^ 32

/-- A planned payload passes the checks, and its entry is a 32-bit address. -/
theorem planBoot_ok {args : Args} {payload : List UInt8} {plan : Plan} (hargs : args.Parsed)
    (h : planBoot args payload = .ok plan) :
    checkPayload payload plan.writeAddress = .ok plan.initExtram ∧ plan.execAddress < 2 ^ 32 := by
  cases hread : readPreloaderHeader payload with
  | error e => exact absurd h (planBoot_error hread)
  | ok found =>
      cases found with
      | none =>
          obtain ⟨-, -, -, hexec, hcheck⟩ := planBoot_noHeader hread h
          exact ⟨hcheck, hargs.2 _ hexec⟩
      | some header =>
          obtain ⟨-, -, -, hexec, hcheck⟩ := planBoot_header hread h
          refine ⟨hcheck, ?_⟩
          rw [hexec]
          cases haddr : args.execAddr with
          | none =>
              rw [Option.getD_none, (readPreloaderHeader_ok hread).2.2]
              exact unpackU32_lt _ _
          | some address => exact hargs.2 _ haddr

end Pmb887x.Boot
