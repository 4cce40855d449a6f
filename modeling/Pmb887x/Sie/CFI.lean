import Pmb887x.Sie.BinaryReader

set_option autoImplicit false

/-! # The primary table of a flash chip, on the host (`tools/lib/Sie/CFI.pm`)

`parsePRI` decodes the vendor's part of a CFI query, field by field. -/

namespace Pmb887x.Sie.CFI

open Library BinaryReader

/-! ## Flags -/

/-- A key of the hash of `$decodeFlags`: one of the list, or `"unk_$i"`. -/
inductive FlagName where
  | named (name : String)
  | unknown (i : Nat)
  deriving DecidableEq

abbrev Flags := List (FlagName × Nat)

/-- `$decodeFlags`: the bits with a name, and those of the others that are set. -/
def decodeFlags (flags size : Nat) (flagsList : List (Nat × String)) : Flags :=
  (List.range size).filterMap fun i =>
    match flagsList.lookup i with
    | some name => some (.named name, (flags.testBit i).toNat)
    | none => if flags.testBit i then some (.unknown i, 1) else none

/-- `$flags->{name}` as a condition. -/
def Flags.get (flags : Flags) (name : String) : Bool := flags.lookup (.named name) = some 1

/-- Another key does not hide a name. -/
theorem lookup_filterMap {f : Nat → Option (FlagName × Nat)} {key : FlagName} {value i : Nat}
    (hi : f i = some (key, value)) (hkey : ∀ j v, f j = some (key, v) → j = i) {l : List Nat}
    (hmem : i ∈ l) : (l.filterMap f).lookup key = some value := by
  induction l with
  | nil => cases hmem
  | cons j l ih =>
      rw [List.filterMap_cons]
      by_cases hij : j = i
      · simp [hij, hi]
      · have hl : i ∈ l := (List.mem_cons.mp hmem).resolve_left (Ne.symm hij)
        cases hf : f j with
        | none => exact ih hl
        | some entry =>
            have hne : key ≠ entry.1 := fun he => hij (hkey j entry.2 (by rw [hf, he]))
            have hbeq : (key == entry.1) = false := beq_eq_false_iff_ne.mpr hne
            rw [List.lookup_cons, hbeq]
            exact ih hl

/-- A name that the list has once stands for its bit. -/
theorem get_decodeFlags {flags size i : Nat} {flagsList : List (Nat × String)} {name : String}
    (hname : flagsList.lookup i = some name) (honce : ∀ p ∈ flagsList, p.2 = name → p.1 = i)
    (hi : i < size) : (decodeFlags flags size flagsList).get name = flags.testBit i := by
  have hlookup : (decodeFlags flags size flagsList).lookup (.named name)
      = some (flags.testBit i).toNat := by
    refine lookup_filterMap (i := i) (by simp [hname]) ?_ (List.mem_range.mpr hi)
    intro j v hj
    cases hlist : flagsList.lookup j with
    | none =>
        rw [hlist] at hj
        split_ifs at hj
        simp at hj
    | some name' =>
        obtain ⟨front, back, rfl, -⟩ := List.lookup_eq_some_iff.mp hlist
        rw [hlist] at hj
        simp only [Option.some.injEq, Prod.mk.injEq, FlagName.named.injEq] at hj
        exact honce (j, name') (by simp) hj.1
  rw [Flags.get, hlookup]
  cases flags.testBit i <;> rfl

/-! ## What the table is decoded to -/

/-- `"1.8V"` from two decimal digits. -/
def bcdVoltage (v : Nat) : String := toString (v >>> 4 &&& 0xF) ++ "." ++ toString (v &&& 0xF) ++ "V"

/-- `1 << n`; from the width of an integer on it is 0. Sums and products of such numbers are exact here, also
where they are so large that Perl rounds them. -/
def shiftOne (n : Nat) : Nat := if n < 64 then 2 ^ n else 0

structure Otp where
  id : Nat
  addr : Nat
  factory : Nat
  size : Nat

structure SyncMode where
  id : Nat
  maxContinuousSyncReads : Nat

/-- `%additional` -/
structure Additional where
  alignedSize : Nat
  ignoreAlignedSize : Bool
  ctrlModeValidSize : Nat
  ctrlModeInvalidSize : Nat
  ignoreCtrlMode : Bool

structure EraseRegion where
  id : Nat
  blocks : Nat
  blockSize : Nat
  eraseCycles : Nat
  bitsPerCell : Nat
  internalEcc : Bool
  rwCaps : Flags
  additional : Option Additional

structure Operations where
  erase : Nat
  program : Nat

structure Region where
  id : Nat
  identicalBanks : Nat
  eraseRegions : List EraseRegion
  simultaneous : Operations
  simultaneousWhileErase : Operations
  simultaneousWhileProgram : Operations

structure Pri where
  version : String
  features : Flags
  functionsAfterSuspend : Flags
  blockProtectStatus : Flags
  vddOptimum : String
  vppOptimum : String
  otp : Option (List Otp)
  pageModeBytes : Nat
  syncModeConf : List SyncMode
  regions : List Region
  regionsEfa : List Region
  size : Nat

/-! ## The parser -/

/-- `$pri_vendor` -/
inductive PriVendor where
  | intel
  | st
  deriving DecidableEq

/-- The version of a table that is known for a vendor. -/
def priVendor (priVendorId : Nat) (version : String) : Except String PriVendor :=
  if priVendorId = 0x0001 then
    if version ≠ "1.3" then .error ("Unknown Intel PRI version: " ++ version) else .ok .intel
  else if priVendorId = 0x0200 then
    if version ≠ "1.4" then .error ("Unknown ST PRI version: " ++ version) else .ok .st
  else .error "Unknown PRI vendor: "

def featureNames : List (Nat × String) :=
  [(0, "chip_erase"), (1, "suspend_erase"), (2, "suspend_program"), (3, "legacy_lock_unlock"),
    (4, "queued_erase"), (5, "instant_individual_block_locking"), (6, "protection_bits"),
    (7, "pagemode_read"), (8, "sync_read"), (9, "simultaneous_operations"),
    (10, "extended_flash_array_blocks"), (30, "cfi_links_follow"), (31, "optional_features")]

/-- One pass of the loop over `$otp_fields`; the first field has its own layout. -/
def parseOtp (i : Nat) : Read Otp := do
  if i = 0 then
    let addr ← readUInt16
    let sizeF := shiftOne (← readUInt8)
    let sizeU := shiftOne (← readUInt8)
    return { id := i, addr := addr, factory := sizeF, size := sizeF + sizeU }
  else
    let addr ← readUInt32
    let regionsF ← readUInt16
    let regionSizeF := shiftOne (← readUInt8)
    let regionsU ← readUInt16
    let regionSizeU := shiftOne (← readUInt8)
    return {
      id := i
      addr := addr
      factory := regionsF * regionSizeF
      size := regionsF * regionSizeF + regionsU * regionSizeU
    }

def parseSyncMode (i : Nat) : Read SyncMode := do
  let shift ← readUInt8
  return { id := i, maxContinuousSyncReads := shiftOne shift }

def parseAdditional : Read Additional := do
  let alignedSize ← readUInt8
  let ignoreAlignedSize ← readUInt8
  let ctrlModeValidSize ← readUInt8
  let _ ← readUInt8 -- reserved
  let ctrlModeInvalidSize ← readUInt8
  let ignoreCtrlMode ← readUInt8
  return {
    alignedSize := alignedSize
    ignoreAlignedSize := ignoreAlignedSize.testBit 7
    ctrlModeValidSize := ctrlModeValidSize
    ctrlModeInvalidSize := ctrlModeInvalidSize
    ignoreCtrlMode := ignoreCtrlMode.testBit 7
  }

/-- One pass of the inner loop of `$parseRegions`. -/
def parseEraseRegion (vendor : PriVendor) (j : Nat) : Read EraseRegion := do
  let blocks ← readUInt16
  let blockSize ← readUInt16
  let eraseCycles ← readUInt16
  let bpcEcc ← readUInt8
  let rwCaps ← readUInt8
  let additional ← if vendor = .st then (do return some (← parseAdditional)) else pure none
  return {
    id := j
    blocks := blocks + 1
    blockSize := blockSize * 256
    eraseCycles := eraseCycles * 1000
    bitsPerCell := bpcEcc &&& 0xF
    internalEcc := bpcEcc.testBit 4
    rwCaps := decodeFlags rwCaps 8 [(0, "page_mode"), (1, "sync_read"), (2, "sync_write")]
    additional := additional
  }

def operations (ops : Nat) : Operations := { erase := ops &&& 0xF, program := ops >>> 4 &&& 0xF }

/-- One pass of the outer loop of `$parseRegions`. -/
def parseRegion (vendor : PriVendor) (i : Nat) : Read Region := do
  let _ ← if vendor = .st then readUInt16 else pure 0 -- self size
  let identicalBanks ← readUInt16
  let simOps ← readUInt8
  let simOpsWhileProgram ← readUInt8
  let simOpsWhileErase ← readUInt8
  let eraseRegionsCnt ← readUInt8
  let eraseRegions ← readTimes (parseEraseRegion vendor) eraseRegionsCnt 0
  return {
    id := i
    identicalBanks := identicalBanks
    eraseRegions := eraseRegions
    simultaneous := operations simOps
    simultaneousWhileErase := operations simOpsWhileErase
    simultaneousWhileProgram := operations simOpsWhileProgram
  }

/-- `$parseRegions` -/
def parseRegions (vendor : PriVendor) : Read (List Region) := do
  let hwRegions ← readUInt8
  readTimes (parseRegion vendor) hwRegions 0

/-- `if ($pri->{features}->{protection_bits})` and its branch. -/
def parseOtps (features : Flags) : Read (Option (List Otp)) := do
  if features.get "protection_bits" then
    let otpFields ← readUInt8
    let otp ← readTimes parseOtp otpFields 0
    return some otp
  else return none

/-- `if ($pri->{features}->{simultaneous_operations})` and its branch. -/
def parseBanks (vendor : PriVendor) (features : Flags) : Read (List Region × List Region) := do
  if features.get "simultaneous_operations" then
    let regions ← parseRegions vendor
    let regionsEfa ← if vendor = .st then parseRegions vendor else pure []
    return (regions, regionsEfa)
  else return ([], [])

/-- The text of a byte string. -/
def text (bytes : List UInt8) : String := String.ofList (bytes.map fun b => Char.ofNat b.toNat)

/-- The table behind its magic and its version; where it ends is known behind that. -/
def parseFields (vendor : PriVendor) (version : String) : Read Pri := do
  let features ← readUInt32
  let functionsAfterSuspend ← readUInt8
  let blockProtectStatus ← readUInt16
  let vddOptimum ← readUInt8
  let vppOptimum ← readUInt8
  let otp ← parseOtps (decodeFlags features 32 featureNames)
  let pageModeBytes ← readUInt8
  let syncModeConfCnt ← readUInt8
  let syncModeConf ← readTimes parseSyncMode syncModeConfCnt 0
  let banks ← parseBanks vendor (decodeFlags features 32 featureNames)
  return {
    version := version
    features := decodeFlags features 32 featureNames
    functionsAfterSuspend :=
      decodeFlags functionsAfterSuspend 8 [(0, "program_after_erase_suspend")]
    blockProtectStatus := decodeFlags blockProtectStatus 16
      [(0, "block_lock_bit"), (1, "block_lock_down"), (4, "efa_block_lock_bit"),
        (5, "efa_block_lock_down")]
    vddOptimum := bcdVoltage vddOptimum
    vppOptimum := bcdVoltage vppOptimum
    otp := otp
    pageModeBytes := shiftOne pageModeBytes
    syncModeConf := syncModeConf
    regions := banks.1
    regionsEfa := banks.2
    size := 0
  }

def parsePRIFrom (priVendorId : Nat) : Read Pri := do
  let magic ← readBytes 3
  if text magic ≠ "PRI" then throw "Invalid magic, 'PRI' not found!"
  else
    let major ← readBytes 1
    let minor ← readBytes 1
    let version := text major ++ "." ++ text minor
    let vendor ← priVendor priVendorId version
    let pri ← parseFields vendor version
    return { pri with size := (← get).offset }

def parsePRI (loBytes : List UInt8) (priVendorId : Nat) : Except String Pri :=
  (parsePRIFrom priVendorId (openString loBytes)).map Prod.fst

end Pmb887x.Sie.CFI
