import Pmb887x.CfiIntel.Cfi
import Pmb887x.Library.BitFields
import Pmb887x.Sie.CFI

set_option autoImplicit false

/-! # The primary table

The table of the command set 0x0200 in version 1.4 is a row of fields and of counted lists. The device steps
over the lists with a cursor, the host decodes them; both come to the same first EFA region. -/

namespace Pmb887x.CfiIntel

open Library Sie BinaryReader

/-! ## The format -/

/-- A protection field; the first one has its own layout. -/
structure FirstOtp where
  addr : UInt16
  factory : UInt8
  user : UInt8

structure NextOtp where
  addr : UInt32
  factoryRegions : UInt16
  factorySize : UInt8
  userRegions : UInt16
  userSize : UInt8

/-- One erase region of a partition region. The last six bytes are those that only ST has. -/
structure EraseEntry where
  blocks : UInt16
  blockSize : UInt16
  eraseCycles : UInt16
  bpcEcc : UInt8
  rwCaps : UInt8
  alignedSize : UInt8
  ignoreAlignedSize : UInt8
  ctrlModeValidSize : UInt8
  reserved : UInt8
  ctrlModeInvalidSize : UInt8
  ignoreCtrlMode : UInt8

/-- A partition region. -/
structure RegionEntry where
  selfSize : UInt16
  identicalBanks : UInt16
  simOps : UInt8
  simOpsWhileProgram : UInt8
  simOpsWhileErase : UInt8
  eraseRegions : List EraseEntry
  eraseRegions_lt : eraseRegions.length < 256

/-- The protection fields are there if the features say so. -/
structure PrimaryTable where
  features : UInt32
  functionsAfterSuspend : UInt8
  blockProtectStatus : UInt16
  vddOptimum : UInt8
  vppOptimum : UInt8
  otp : Option (FirstOtp × List NextOtp)
  otp_lt : ∀ first next, otp = some (first, next) → next.length + 1 < 256
  pageModeBytes : UInt8
  syncModeConf : List UInt8
  syncModeConf_lt : syncModeConf.length < 256
  regions : List RegionEntry
  regions_lt : regions.length < 256
  regionsEfa : List RegionEntry
  regionsEfa_lt : regionsEfa.length < 256

def FirstOtp.encode (o : FirstOtp) : List UInt8 :=
  leBytes 2 o.addr.toNat ++ ([o.factory] ++ [o.user])

def NextOtp.encode (o : NextOtp) : List UInt8 :=
  leBytes 4 o.addr.toNat ++ (leBytes 2 o.factoryRegions.toNat ++ ([o.factorySize] ++
    (leBytes 2 o.userRegions.toNat ++ [o.userSize])))

def EraseEntry.encode (e : EraseEntry) : List UInt8 :=
  leBytes 2 e.blocks.toNat ++ (leBytes 2 e.blockSize.toNat ++ (leBytes 2 e.eraseCycles.toNat ++
    ([e.bpcEcc] ++ ([e.rwCaps] ++ ([e.alignedSize] ++ ([e.ignoreAlignedSize] ++
      ([e.ctrlModeValidSize] ++ ([e.reserved] ++ ([e.ctrlModeInvalidSize] ++
        [e.ignoreCtrlMode])))))))))

/-- What stands in front of the number of erase regions. -/
def RegionEntry.head (r : RegionEntry) : List UInt8 :=
  leBytes 2 r.selfSize.toNat ++ (leBytes 2 r.identicalBanks.toNat ++
    ([r.simOps] ++ ([r.simOpsWhileProgram] ++ [r.simOpsWhileErase])))

/-- A list with its length in front. -/
def counted {α : Type} (encode : α → List UInt8) (entries : List α) : List UInt8 :=
  [UInt8.ofNat entries.length] ++ entries.flatMap encode

def RegionEntry.encode (r : RegionEntry) : List UInt8 :=
  r.head ++ counted EraseEntry.encode r.eraseRegions

/-- `otp_fields` and the fields. -/
def encodeOtp : Option (FirstOtp × List NextOtp) → List UInt8
  | none => [0]
  | some (first, next) =>
      [UInt8.ofNat (next.length + 1)] ++ (first.encode ++ next.flatMap NextOtp.encode)

def PrimaryTable.hasOtp (t : PrimaryTable) : Bool := t.features.toNat.testBit 6

/-- The fields of a fixed place, behind the magic and the version. -/
def PrimaryTable.head (t : PrimaryTable) : List UInt8 :=
  leBytes 4 t.features.toNat ++ ([t.functionsAfterSuspend] ++ (leBytes 2 t.blockProtectStatus.toNat ++
    ([t.vddOptimum] ++ [t.vppOptimum])))

def PrimaryTable.encode (t : PrimaryTable) : List UInt8 :=
  [80, 82, 73] ++ ([49] ++ ([52] ++ (t.head ++ ((if t.hasOtp then encodeOtp t.otp else []) ++
    ([t.pageModeBytes] ++ (counted (fun b => [b]) t.syncModeConf ++
      (counted RegionEntry.encode t.regions ++ counted RegionEntry.encode t.regionsEfa)))))))

/-- The first erase region of the first EFA region. -/
def PrimaryTable.efa (t : PrimaryTable) : Option EraseEntry :=
  t.regionsEfa.head?.bind fun region => region.eraseRegions.head?

/-! ## The host -/

theorem decodes_parseAdditional (a b c d e f : UInt8) :
    Decodes CFI.parseAdditional ([a] ++ ([b] ++ ([c] ++ ([d] ++ ([e] ++ [f]))))) fun _ => True := by
  refine (reads_readUInt8 a).andThen ?_
  refine (reads_readUInt8 b).andThen ?_
  refine (reads_readUInt8 c).andThen ?_
  refine (reads_readUInt8 d).andThen ?_
  refine (reads_readUInt8 e).andThen ?_
  exact (reads_readUInt8 f).last trivial

/-- What the host has of an erase region that the device has too. -/
def EraseEntry.Matches (e : EraseEntry) (region : CFI.EraseRegion) : Prop :=
  region.blocks = e.blocks.toNat + 1 ∧ region.blockSize = e.blockSize.toNat * 256

theorem decodes_parseEraseRegion (e : EraseEntry) (j : Nat) :
    Decodes (CFI.parseEraseRegion .st j) e.encode e.Matches := by
  refine (reads_readUInt16 e.blocks).andThen ?_
  refine (reads_readUInt16 e.blockSize).andThen ?_
  refine (reads_readUInt16 e.eraseCycles).andThen ?_
  refine (reads_readUInt8 e.bpcEcc).andThen ?_
  refine (reads_readUInt8 e.rwCaps).andThen ?_
  have hadditional := (decodes_parseAdditional e.alignedSize e.ignoreAlignedSize e.ctrlModeValidSize
    e.reserved e.ctrlModeInvalidSize e.ignoreCtrlMode).map (f := some) (Q := fun _ => True)
    fun _ _ => trivial
  exact hadditional.map fun additional _ => ⟨rfl, rfl⟩

def RegionEntry.Matches (r : RegionEntry) (region : CFI.Region) : Prop :=
  List.Forall₂ EraseEntry.Matches r.eraseRegions region.eraseRegions

theorem decodes_parseRegion (r : RegionEntry) (i : Nat) :
    Decodes (CFI.parseRegion .st i) r.encode r.Matches := by
  rw [RegionEntry.encode, RegionEntry.head]
  simp only [List.append_assoc]
  refine (reads_readUInt16 r.selfSize).andThen ?_
  refine (reads_readUInt16 r.identicalBanks).andThen ?_
  refine (reads_readUInt8 r.simOps).andThen ?_
  refine (reads_readUInt8 r.simOpsWhileProgram).andThen ?_
  refine (reads_readUInt8 r.simOpsWhileErase).andThen ?_
  refine (reads_count r.eraseRegions_lt).andThen ?_
  exact (decodes_readTimes r.eraseRegions 0 fun e j _ => decodes_parseEraseRegion e j).map fun _ h => h

theorem decodes_parseRegions {entries : List RegionEntry} (hlength : entries.length < 256) :
    Decodes (CFI.parseRegions .st) (counted RegionEntry.encode entries)
      (List.Forall₂ RegionEntry.Matches entries) :=
  (reads_count hlength).andThen (decodes_readTimes entries 0 fun r i _ => decodes_parseRegion r i)

theorem decodes_parseOtp_first (o : FirstOtp) :
    Decodes (CFI.parseOtp 0) o.encode fun _ => True := by
  refine (reads_readUInt16 o.addr).andThen ?_
  refine (reads_readUInt8 o.factory).andThen ?_
  exact (reads_readUInt8 o.user).last trivial

theorem decodes_parseOtp_next (o : NextOtp) {i : Nat} (hi : 1 ≤ i) :
    Decodes (CFI.parseOtp i) o.encode fun _ => True := by
  rw [CFI.parseOtp, if_neg (Nat.ne_of_gt hi)]
  refine (reads_readUInt32 o.addr).andThen ?_
  refine (reads_readUInt16 o.factoryRegions).andThen ?_
  refine (reads_readUInt8 o.factorySize).andThen ?_
  refine (reads_readUInt16 o.userRegions).andThen ?_
  exact (reads_readUInt8 o.userSize).last trivial

/-- The number of protection fields and the fields, the first one apart. -/
theorem decodes_otp {otp : Option (FirstOtp × List NextOtp)}
    (hlength : ∀ first next, otp = some (first, next) → next.length + 1 < 256) :
    Decodes (do
      let otpFields ← readUInt8
      let otp ← readTimes CFI.parseOtp otpFields 0
      return some otp) (encodeOtp otp) fun _ => True := by
  cases otp with
  | none =>
      refine (reads_readUInt8 0).andThen ?_
      exact Decodes.pure (w := some []) trivial
  | some fields =>
      obtain ⟨first, next⟩ := fields
      have hotp : Decodes (readTimes CFI.parseOtp (next.length + 1) 0)
          (first.encode ++ next.flatMap NextOtp.encode) fun _ => True := by
        refine (decodes_parseOtp_first first).bind fun o _ => ?_
        exact (decodes_readTimes next 1 fun o i hi => decodes_parseOtp_next o hi).map
          fun _ _ => trivial
      exact (reads_count (hlength first next rfl)).andThen (hotp.map fun _ _ => trivial)

theorem decodes_parseSyncMode (b : UInt8) (i : Nat) :
    Decodes (CFI.parseSyncMode i) [b] fun _ => True :=
  (reads_readUInt8 b).last trivial

variable (t : PrimaryTable)

/-- The features as the host has them. -/
def PrimaryTable.flags : CFI.Flags := CFI.decodeFlags t.features.toNat 32 CFI.featureNames

theorem get_protectionBits : t.flags.get "protection_bits" = t.hasOtp :=
  CFI.get_decodeFlags (by decide) (by decide) (by decide)

theorem get_simultaneousOperations :
    t.flags.get "simultaneous_operations" = t.features.toNat.testBit 9 :=
  CFI.get_decodeFlags (by decide) (by decide) (by decide)

theorem decodes_parseOtps :
    Decodes (CFI.parseOtps t.flags) (if t.hasOtp then encodeOtp t.otp else []) fun _ => True := by
  rw [CFI.parseOtps, get_protectionBits]
  by_cases h : t.hasOtp = true
  · rw [if_pos h, if_pos h]
    exact decodes_otp t.otp_lt
  · rw [if_neg h, if_neg h]
    exact Decodes.pure trivial

theorem decodes_parseBanks (h : t.features.toNat.testBit 9 = true) :
    Decodes (CFI.parseBanks .st t.flags)
      (counted RegionEntry.encode t.regions ++ counted RegionEntry.encode t.regionsEfa)
      fun banks => List.Forall₂ RegionEntry.Matches t.regionsEfa banks.2 := by
  rw [CFI.parseBanks, get_simultaneousOperations, if_pos h]
  refine (decodes_parseRegions t.regions_lt).bind fun regions _ => ?_
  exact (decodes_parseRegions t.regionsEfa_lt).map fun _ h => h

/-- What is behind the magic and the version. -/
def PrimaryTable.body : List UInt8 :=
  t.head ++ ((if t.hasOtp then encodeOtp t.otp else []) ++ ([t.pageModeBytes] ++
    (counted (fun b => [b]) t.syncModeConf ++
      (counted RegionEntry.encode t.regions ++ counted RegionEntry.encode t.regionsEfa))))

theorem decodes_parseFields (h : t.features.toNat.testBit 9 = true) (version : String) :
    Decodes (CFI.parseFields .st version) t.body
      fun pri => List.Forall₂ RegionEntry.Matches t.regionsEfa pri.regionsEfa := by
  rw [PrimaryTable.body, PrimaryTable.head, counted]
  simp only [List.append_assoc]
  refine (reads_readUInt32 t.features).andThen ?_
  refine (reads_readUInt8 t.functionsAfterSuspend).andThen ?_
  refine (reads_readUInt16 t.blockProtectStatus).andThen ?_
  refine (reads_readUInt8 t.vddOptimum).andThen ?_
  refine (reads_readUInt8 t.vppOptimum).andThen ?_
  refine (decodes_parseOtps t).bind fun otp _ => ?_
  refine (reads_readUInt8 t.pageModeBytes).andThen ?_
  refine (reads_count t.syncModeConf_lt).andThen ?_
  refine (decodes_readTimes t.syncModeConf 0 fun b i _ => decodes_parseSyncMode b i).bind
    fun modes _ => ?_
  exact (decodes_parseBanks t h).map fun _ h => h

/-- The whole table: the EFA regions of the host are those of the table. -/
theorem parsePRI_encode (h : t.features.toNat.testBit 9 = true) (rest : List UInt8) :
    ∃ pri, CFI.parsePRI (t.encode ++ rest) 0x0200 = .ok pri ∧
      List.Forall₂ RegionEntry.Matches t.regionsEfa pri.regionsEfa := by
  obtain ⟨pri, hread, hefa⟩ := decodes_parseFields t h "1.4"
  refine ⟨{ pri with size := 5 + t.body.length }, ?_, hefa⟩
  have hbytes : t.encode ++ rest = [80, 82, 73] ++ ([49] ++ ([52] ++ (t.body ++ rest))) := by
    simp only [PrimaryTable.encode, PrimaryTable.body, List.append_assoc]
  have hmagic : Reads (readBytes 3) [80, 82, 73] [80, 82, 73] := reads_readBytes [80, 82, 73]
  have hmajor : Reads (readBytes 1) [49] [49] := reads_readBytes [49]
  have hminor : Reads (readBytes 1) [52] [52] := reads_readBytes [52]
  have hname : CFI.text [80, 82, 73] = "PRI" := by decide
  have hversion : CFI.text [49] ++ "." ++ CFI.text [52] = "1.4" := by decide
  have hvendor : (liftM (CFI.priVendor 0x0200 "1.4") : Read CFI.PriVendor) = pure .st := rfl
  rw [CFI.parsePRI, openString, hbytes, CFI.parsePRIFrom, hmagic.run_bind,
    if_neg (not_not.mpr hname), hmajor.run_bind, hminor.run_bind]
  rw [hversion, hvendor, pure_bind, hread.run_bind]
  rfl

end Pmb887x.CfiIntel
