import Pmb887x.CfiIntel.PrimaryTable

set_option autoImplicit false

/-! # The first EFA region, on the device and on the host

The device adds lengths to a cursor where the host decodes. `Shows` is the invariant of its walk: the query
words from the cursor on are the bytes that the host has still to read. -/

namespace Pmb887x.CfiIntel

open Library Sie

variable {mmio16 : Nat → UInt16} {base cursor : Nat} {bytes bytes' : List UInt8}

/-- The query words from `cursor` on are these bytes, with a high byte of zero. -/
def Shows (mmio16 : Nat → UInt16) (base cursor : Nat) (bytes : List UInt8) : Prop :=
  ∀ (i : Nat) (h : i < bytes.length), cfiReadWord mmio16 base (cursor + i) = bytes[i].toNat

instance : Decidable (Shows mmio16 base cursor bytes) :=
  inferInstanceAs (Decidable (∀ (i : Nat) (h : i < bytes.length),
    cfiReadWord mmio16 base (cursor + i) = bytes[i].toNat))

theorem cfiReadWord_wrap32 (i : Nat) :
    cfiReadWord mmio16 base (wrap32 cursor + i) = cfiReadWord mmio16 base (cursor + i) := by
  have haddress : wrap32 (base + (wrap32 cursor + i) * 2) = wrap32 (base + (cursor + i) * 2) := by
    simp [wrap32, Nat.add_mod, Nat.mul_mod]
  rw [cfiReadWord, cfiReadWord, haddress]

theorem Shows.wrapped (h : Shows mmio16 base cursor bytes) :
    Shows mmio16 base (wrap32 cursor) bytes := by
  intro i hi
  rw [cfiReadWord_wrap32, h i hi]

theorem Shows.left (h : Shows mmio16 base cursor (bytes ++ bytes')) :
    Shows mmio16 base cursor bytes := by
  intro i hi
  rw [h i (by rw [List.length_append]; omega), List.getElem_append_left hi]

theorem Shows.right (h : Shows mmio16 base cursor (bytes ++ bytes')) :
    Shows mmio16 base (cursor + bytes.length) bytes' := by
  intro i hi
  rw [Nat.add_assoc, h (bytes.length + i) (by rw [List.length_append]; omega),
    List.getElem_append_right (Nat.le_add_right _ _)]
  simp

/-- The step of the cursor over bytes of a known number. -/
theorem Shows.skip {n : Nat} (h : Shows mmio16 base cursor (bytes ++ bytes'))
    (hn : bytes.length = n) : Shows mmio16 base (wrap32 (cursor + n)) bytes' :=
  Shows.wrapped (hn ▸ h.right)

theorem Shows.word {b : UInt8} (h : Shows mmio16 base cursor ([b] ++ bytes)) :
    cfiReadWord mmio16 base cursor = b.toNat :=
  h 0 (by simp)

theorem Shows.u16 {n : Nat} (h : Shows mmio16 base cursor (leBytes 2 n)) :
    cfiReadU16 mmio16 base cursor = n % 2 ^ 16 := by
  have hsplit : leBytes 2 n = [UInt8.ofNat n] ++ [UInt8.ofNat (n / 256)] := rfl
  have hvalue := ofLeBytes_leBytes 2 n
  rw [hsplit] at h hvalue
  have hlow := h.word
  have hright : Shows mmio16 base (cursor + 1) ([UInt8.ofNat (n / 256)] ++ []) := h.right
  have hhigh := hright.word
  rw [cfiReadU16, hlow, hhigh, or_shiftLeft (UInt8.toNat_lt _)]
  simpa [ofLeBytes] using hvalue

theorem Shows.u32 {n : UInt32} (h : Shows mmio16 base cursor (leBytes 4 n.toNat)) :
    cfiReadU32 mmio16 base cursor = n.toNat := by
  have hsplit : leBytes 4 n.toNat = leBytes 2 n.toNat ++ leBytes 2 (n.toNat / 256 / 256) := rfl
  have hn : n.toNat < 2 ^ 32 := n.toNat_lt
  rw [hsplit] at h
  have hhigh : cfiReadU16 mmio16 base (cursor + 2) = n.toNat / 256 / 256 % 2 ^ 16 := h.right.u16
  have hfits : wrap32 ((n.toNat / 256 / 256 % 2 ^ 16) <<< 16) = (n.toNat / 256 / 256 % 2 ^ 16) <<< 16 := by
    apply wrap32_of_lt
    rw [Nat.shiftLeft_eq]
    omega
  rw [cfiReadU32, h.left.u16, hhigh, hfits, or_shiftLeft (Nat.mod_lt _ (by decide))]
  omega

/-! ## The walk of the device -/

theorem EraseEntry.length_encode (e : EraseEntry) : e.encode.length = 14 := by
  simp [EraseEntry.encode]

theorem length_flatMap_encode (entries : List EraseEntry) :
    (entries.flatMap EraseEntry.encode).length = entries.length * 14 := by
  simp [List.length_flatMap, EraseEntry.length_encode]

theorem toNat_count {n : Nat} (h : n < 256) : (UInt8.ofNat n).toNat = n := by
  rw [UInt8.toNat_ofNat', Nat.mod_eq_of_lt h]

/-- The cursor in front of the number of erase regions, and behind it. -/
theorem Shows.eraseRegions {r : RegionEntry} (h : Shows mmio16 base cursor (r.encode ++ bytes)) :
    let cursor' := wrap32 (wrap32 (cursor + 2) + 5)
    cfiReadWord mmio16 base cursor' = r.eraseRegions.length ∧
      Shows mmio16 base (wrap32 (cursor' + 1))
        (r.eraseRegions.flatMap EraseEntry.encode ++ bytes) := by
  intro cursor'
  have hsplit : r.encode ++ bytes = leBytes 2 r.selfSize.toNat ++
      ((leBytes 2 r.identicalBanks.toNat ++ [r.simOps, r.simOpsWhileProgram, r.simOpsWhileErase]) ++
        ([UInt8.ofNat r.eraseRegions.length] ++
          (r.eraseRegions.flatMap EraseEntry.encode ++ bytes))) := by
    simp [RegionEntry.encode, RegionEntry.head, counted]
  rw [hsplit] at h
  have hcount := (h.skip (leBytes_length 2 _)).skip (n := 5) (by simp)
  exact ⟨hcount.word.trans (toNat_count r.eraseRegions_lt), hcount.skip rfl⟩

theorem Shows.skipPriRegion {r : RegionEntry} (h : Shows mmio16 base cursor (r.encode ++ bytes)) :
    Shows mmio16 base (CfiIntel.skipPriRegion mmio16 base true cursor) bytes := by
  obtain ⟨hcount, hshows⟩ := h.eraseRegions
  rw [CfiIntel.skipPriRegion]
  simp only [if_true, hcount]
  exact hshows.skip (length_flatMap_encode r.eraseRegions)

theorem Shows.iterate_skipPriRegion {entries : List RegionEntry}
    (h : Shows mmio16 base cursor (entries.flatMap RegionEntry.encode ++ bytes)) :
    Shows mmio16 base ((CfiIntel.skipPriRegion mmio16 base true)^[entries.length] cursor) bytes := by
  induction entries generalizing cursor with
  | nil => exact h
  | cons r entries ih =>
      rw [List.flatMap_cons, List.append_assoc] at h
      rw [List.length_cons, Function.iterate_succ_apply]
      exact ih h.skipPriRegion

theorem Shows.skipPriRegions {entries : List RegionEntry} (hlength : entries.length < 256)
    (h : Shows mmio16 base cursor (counted RegionEntry.encode entries ++ bytes)) :
    Shows mmio16 base (cfiSkipPriRegions mmio16 base true cursor) bytes := by
  rw [counted, List.append_assoc] at h
  rw [cfiSkipPriRegions, h.word, toNat_count hlength]
  exact (h.skip rfl).iterate_skipPriRegion

/-- What the device makes of an erase region. -/
def EraseEntry.region (e : EraseEntry) : EraseRegion where
  blocks := e.blocks.toNat + 1
  blockSize := e.blockSize.toNat * 256

theorem Shows.firstEraseRegion {entries : List RegionEntry} (hlength : entries.length < 256)
    (h : Shows mmio16 base cursor (counted RegionEntry.encode entries ++ bytes)) :
    CfiIntel.firstEraseRegion mmio16 base true cursor
      = (entries.head?.bind fun r => r.eraseRegions.head?).map EraseEntry.region := by
  rw [counted, List.append_assoc] at h
  rw [CfiIntel.firstEraseRegion, h.word, toNat_count hlength]
  cases entries with
  | nil => rfl
  | cons r entries =>
      have hregion := h.skip (n := 1) rfl
      rw [List.flatMap_cons, List.append_assoc] at hregion
      obtain ⟨hcount, hshows⟩ := hregion.eraseRegions
      simp only [if_true, hcount]
      cases herase : r.eraseRegions with
      | nil => simp [herase]
      | cons e erase =>
          rw [herase, List.flatMap_cons, EraseEntry.encode] at hshows
          simp only [List.append_assoc] at hshows
          have hblocks := hshows.left.u16
          have hsize := hshows.right.left.u16
          rw [leBytes_length, Nat.mod_eq_of_lt e.blockSize.toNat_lt] at hsize
          rw [Nat.mod_eq_of_lt e.blocks.toNat_lt] at hblocks
          simp [herase, hblocks, hsize, EraseEntry.region]

theorem length_fields (first : FirstOtp) (next : List NextOtp) :
    (first.encode ++ next.flatMap NextOtp.encode).length = 4 + next.length * 10 := by
  simp [FirstOtp.encode, NextOtp.encode, List.length_flatMap]
  omega

/-- The protection fields, where the features have them. -/
theorem Shows.skipProtectionFields {t : PrimaryTable}
    (h : Shows mmio16 base cursor ((if t.hasOtp then encodeOtp t.otp else []) ++ bytes)) :
    Shows mmio16 base (CfiIntel.skipProtectionFields mmio16 base t.features.toNat cursor) bytes := by
  rw [CfiIntel.skipProtectionFields]
  by_cases hotp : t.hasOtp = true
  · rw [if_pos hotp] at h
    rw [PrimaryTable.hasOtp] at hotp
    rw [if_pos hotp]
    cases hfields : t.otp with
    | none =>
        rw [hfields, encodeOtp] at h
        have hcount : cfiReadWord mmio16 base cursor = 0 := h.word
        rw [hcount]
        exact (h.skip rfl).wrapped
    | some fields =>
        obtain ⟨first, next⟩ := fields
        rw [hfields, encodeOtp, List.append_assoc] at h
        rw [h.word, toNat_count (t.otp_lt first next hfields)]
        exact (h.skip rfl).skip (length_fields first next)
  · rw [if_neg hotp] at h
    rw [PrimaryTable.hasOtp] at hotp
    rw [if_neg hotp]
    exact h

theorem Shows.skipSynchronousModes {t : PrimaryTable}
    (h : Shows mmio16 base cursor
      ([t.pageModeBytes] ++ (counted (fun b => [b]) t.syncModeConf ++ bytes))) :
    Shows mmio16 base (CfiIntel.skipSynchronousModes mmio16 base cursor) bytes := by
  have hcount := h.skip (n := 1) rfl
  rw [counted, List.append_assoc] at hcount
  rw [CfiIntel.skipSynchronousModes, hcount.word, toNat_count t.syncModeConf_lt]
  exact (hcount.skip rfl).skip (by simp)

/-! ## One EFA record -/

/-- The first erase region of the first EFA region that the host returns. -/
def hostEfa (pri : CFI.Pri) : Option EraseRegion :=
  (pri.regionsEfa.head?.bind fun region => region.eraseRegions.head?).map fun erase =>
    { blocks := erase.blocks, blockSize := erase.blockSize }

theorem hostEfa_of_forall₂ {t : PrimaryTable} {pri : CFI.Pri}
    (h : List.Forall₂ RegionEntry.Matches t.regionsEfa pri.regionsEfa) :
    hostEfa pri = t.efa.map EraseEntry.region := by
  rw [hostEfa, PrimaryTable.efa]
  generalize t.regionsEfa = entries at h
  generalize pri.regionsEfa = regions at h
  cases h with
  | nil => rfl
  | @cons entry region _ _ hregion _ =>
      rw [RegionEntry.Matches] at hregion
      simp only [List.head?_cons, Option.bind_some]
      generalize entry.eraseRegions = entries at hregion
      generalize region.eraseRegions = regions at hregion
      cases hregion with
      | nil => rfl
      | cons herase _ => simp [EraseEntry.region, herase.1, herase.2]

/-- What the device has of the EFA in its record. -/
def FlashDevice.efa (flash : FlashDevice) : EraseRegion where
  blocks := flash.efaBlocks
  blockSize := flash.efaBlockSize

/-- `valid_efa`: the record reports an EFA. -/
def FlashDevice.validEfa (flash : FlashDevice) : Bool :=
  flash.features.testBit 10 && 0 < flash.efaBlocks && 0 < flash.efaBlockSize

/-- The record has the region that the host returns, or both report none. -/
def SameEfa (flash : FlashDevice) (pri : CFI.Pri) : Prop :=
  match hostEfa pri with
  | some region => flash.efa = region
  | none => flash.validEfa = false

theorem Shows.features {t : PrimaryTable} (h : Shows mmio16 base cursor t.encode) :
    cfiReadU32 mmio16 base (cursor + 5) = t.features.toNat := by
  have hbody : t.encode = [80, 82, 73, 49, 52] ++ t.body := by
    simp [PrimaryTable.encode, PrimaryTable.body]
  rw [hbody, PrimaryTable.body, PrimaryTable.head] at h
  exact h.right.left.left.u32

theorem features_cfiReadExtendedGeometry (chip : Chip) (flash : FlashDevice) :
    (cfiReadExtendedGeometry chip flash).features
      = cfiReadU32 chip.query flash.base (flash.primaryAddress + 5) := by
  rw [cfiReadExtendedGeometry]
  dsimp only
  split_ifs
  · rfl
  · split
    · rfl
    · rfl

/-- The record of the device: without a first erase region it stays as it is. -/
theorem efa_cfiReadExtendedGeometry {t : PrimaryTable} {chip : Chip} {flash : FlashDevice}
    (hshows : Shows chip.query flash.base flash.primaryAddress t.encode)
    (hst : cfiReadU16 chip.query flash.base 0x13 = 0x0200)
    (hsimultaneous : t.features.toNat.testBit 9 = true)
    (hefa : t.features.toNat.testBit 10 = true) :
    (cfiReadExtendedGeometry chip flash).efa = (t.efa.map EraseEntry.region).getD flash.efa := by
  have hlists : t.encode = ([80, 82, 73, 49, 52] ++ t.head) ++
      ((if t.hasOtp then encodeOtp t.otp else []) ++ ([t.pageModeBytes] ++
        (counted (fun b => [b]) t.syncModeConf ++ (counted RegionEntry.encode t.regions ++
          (counted RegionEntry.encode t.regionsEfa ++ []))))) := by
    simp [PrimaryTable.encode]
  have hfeatures : cfiReadU32 chip.query flash.base (flash.primaryAddress + 5) = t.features.toNat :=
    hshows.features
  rw [hlists] at hshows
  have hcursor := hshows.skip (n := 0xE) (by simp [PrimaryTable.head])
  have hfirst := ((hcursor.skipProtectionFields.skipSynchronousModes).skipPriRegions
    t.regions_lt).firstEraseRegion t.regionsEfa_lt
  simp only [cfiReadExtendedGeometry, hfeatures, hsimultaneous, hefa, hst, Bool.not_true,
    Bool.or_self, Bool.false_eq_true, if_false, decide_true, hfirst]
  rw [PrimaryTable.efa]
  cases t.regionsEfa.head?.bind fun r => r.eraseRegions.head? <;> rfl

/-- **When the two have one EFA record.** For every table the host returns one, and the device reads the blocks
and the block size of the first erase region of the first EFA region. Where there is none it writes nothing,
and the record still reports what it reported before. -/
theorem sameEfa_iff {t : PrimaryTable} {chip : Chip} {flash : FlashDevice}
    (hshows : Shows chip.query flash.base flash.primaryAddress t.encode)
    (hst : cfiReadU16 chip.query flash.base 0x13 = 0x0200)
    (hsimultaneous : t.features.toNat.testBit 9 = true)
    (hefa : t.features.toNat.testBit 10 = true) (rest : List UInt8) :
    ∃ pri, CFI.parsePRI (t.encode ++ rest) 0x0200 = .ok pri ∧
      (SameEfa (cfiReadExtendedGeometry chip flash) pri ↔
        (t.efa = none → ¬ (0 < flash.efaBlocks ∧ 0 < flash.efaBlockSize))) := by
  obtain ⟨pri, hparse, hmatch⟩ := parsePRI_encode t hsimultaneous rest
  refine ⟨pri, hparse, ?_⟩
  have hrecord := efa_cfiReadExtendedGeometry hshows hst hsimultaneous hefa
  rw [SameEfa, hostEfa_of_forall₂ hmatch]
  cases hfirst : t.efa with
  | some e =>
      rw [hfirst] at hrecord
      exact iff_of_true hrecord (fun h => nomatch h)
  | none =>
      rw [hfirst, Option.map_none, Option.getD_none, FlashDevice.efa, FlashDevice.efa,
        EraseRegion.mk.injEq] at hrecord
      have hfeatures : (cfiReadExtendedGeometry chip flash).features.testBit 10 = true := by
        rw [features_cfiReadExtendedGeometry, hshows.features, hefa]
      simp [FlashDevice.validEfa, hfeatures, hrecord.1, hrecord.2]

/-! ### Tables with nested lists -/

def sampleErase (blocks blockSize : UInt16) : EraseEntry :=
  ⟨blocks, blockSize, 100, 0x01, 0x03, 10, 0, 0x20, 0, 0x20, 0⟩

/-- Two protection fields, two modes, two partition regions and these EFA regions. -/
def tableWith (regionsEfa : List RegionEntry) (h : regionsEfa.length < 256) : PrimaryTable where
  features := 0x7E6
  functionsAfterSuspend := 1
  blockProtectStatus := 0x33
  vddOptimum := 0x18
  vppOptimum := 0x90
  otp := some (⟨0x80, 3, 3⟩, [⟨0x89, 0, 0, 16, 4⟩])
  otp_lt := by
    intro first next h
    cases h
    decide
  pageModeBytes := 3
  syncModeConf := [1, 2]
  syncModeConf_lt := by decide
  regions := [
    ⟨34, 7, 0x11, 0, 0, [sampleErase 0 0x400, sampleErase 2 0x100], by decide⟩,
    ⟨20, 1, 0x11, 0, 0, [sampleErase 63 0x200], by decide⟩]
  regions_lt := by decide
  regionsEfa := regionsEfa
  regionsEfa_lt := h

def sampleTable : PrimaryTable :=
  tableWith [⟨20, 1, 0x11, 0, 0, [sampleErase 3 0x20], by decide⟩] (by decide)

/-- No EFA region, although the features promise an EFA. -/
def bareTable : PrimaryTable := tableWith [] (by decide)

/-- The query words of a chip with this table at 0x10A, and a size of so many bits. -/
def queryOf (t : PrimaryTable) (sizeExponent : UInt16) (address : Nat) : UInt16 :=
  match (address - windowBase) / 2 with
  | 0x10 => 81
  | 0x11 => 82
  | 0x12 => 89
  | 0x14 => 2
  | 0x15 => 0x0A
  | 0x16 => 1
  | 0x27 => sizeExponent
  | 0x2A => 5
  | 0x2C => 1
  | word => if word < 0x10A then 0 else (t.encode.getD (word - 0x10A) 0).toUInt16

/-- A chip with a size of so many bits. -/
def chipOf (t : PrimaryTable) (sizeExponent : UInt16) : Chip := ⟨queryOf t sizeExponent, fun _ => 0, fun _ => 0⟩

def sampleDevice : FlashDevice :=
  { FlashDevice.zero with base := windowBase, primaryAddress := 0x10A }

/-- A new record, with an EFA region in the table and without. -/
theorem sameEfa_iff_sample :
    (∃ pri, CFI.parsePRI (sampleTable.encode ++ []) 0x0200 = .ok pri ∧
      (SameEfa (cfiReadExtendedGeometry (chipOf sampleTable 20) sampleDevice) pri ↔
        (sampleTable.efa = none → ¬ (0 < sampleDevice.efaBlocks ∧ 0 < sampleDevice.efaBlockSize)))) ∧
    ∃ pri, CFI.parsePRI (bareTable.encode ++ [1, 2, 3]) 0x0200 = .ok pri ∧
      (SameEfa (cfiReadExtendedGeometry (chipOf bareTable 20) sampleDevice) pri ↔
        (bareTable.efa = none → ¬ (0 < sampleDevice.efaBlocks ∧ 0 < sampleDevice.efaBlockSize))) :=
  ⟨sameEfa_iff (by decide +kernel) (by decide +kernel) (by decide) (by decide) [],
    sameEfa_iff (by decide +kernel) (by decide +kernel) (by decide) (by decide) [1, 2, 3]⟩

/-- The record that `cfi_probe` leaves of a chip with this table that is larger than the window. -/
def refusedRecord : FlashDevice :=
  let chip := chipOf sampleTable 28
  cfiReadExtendedGeometry chip (cfiReadGeometry chip { FlashDevice.zero with base := windowBase })

/-- The record goes to the probe of the next chip, which has no EFA region: the host finds none, the device
keeps the four blocks of the chip before. -/
theorem refusedRecord_not_sameEfa :
    cfiProbe (chipOf sampleTable 28) .zero = none ∧
      ∃ flash pri, cfiProbe (chipOf bareTable 20) refusedRecord = some flash ∧
        CFI.parsePRI (bareTable.encode ++ []) 0x0200 = .ok pri ∧ hostEfa pri = none ∧
        flash.efa = ⟨4, 0x2000⟩ ∧ ¬ SameEfa flash pri := by
  have hrefused : (cfiProbe (chipOf sampleTable 28) .zero).isNone = true := by decide +kernel
  have hprobe : (cfiProbe (chipOf bareTable 20) refusedRecord).map (fun flash => (flash.efa, flash.validEfa))
      = some (⟨4, 0x2000⟩, true) := by
    decide +kernel
  obtain ⟨flash, hflash, hefa⟩ := Option.map_eq_some_iff.mp hprobe
  obtain ⟨hregion, hvalid⟩ := Prod.mk.inj hefa
  obtain ⟨pri, hparse, hmatch⟩ := parsePRI_encode bareTable (by decide) []
  have hnone : hostEfa pri = none := hostEfa_of_forall₂ hmatch
  refine ⟨Option.isNone_iff_eq_none.mp hrefused, flash, pri, hflash, hparse, hnone, hregion, ?_⟩
  rw [SameEfa, hnone]
  exact fun h => Bool.false_ne_true (h.symm.trans hvalid)

end Pmb887x.CfiIntel
