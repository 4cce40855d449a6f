import Pmb887x.Eeprom.Agreement

set_option autoImplicit false

/-! # The search in SG partitions as a reference

The parser threads a result code, a flag and the block through two nested loops. `sgFindBlock` says
what it finds in an image whose matching partitions are all SG: in the first partition, and there
at the first entry above the free ones, that decides anything. -/

namespace Pmb887x.Eeprom

open Library

/-! ## The reference -/

/-- The offsets of the 64 KiB blocks. -/
def flashBlocks (flash : FlashMap) : List Nat :=
  (List.range (flash.size / partitionBlockSize)).map (· * partitionBlockSize)

/-- The SG partitions of the type in ascending order. -/
def sgPartitions (flash : FlashMap) (type : PartitionType) : List Nat :=
  (flashBlocks flash).filter fun base => decide (SgPartitionAt flash type base)

/-- No NSG partition of the type matches: where a header stands at the end of a block that could be
the last of one, an SG partition starts at the block. -/
def OnlySg (flash : FlashMap) (type : PartitionType) : Prop :=
  ∀ offset ∈ flashBlocks flash, partitionBlockSize * 3 ≤ offset →
    HeaderAt flash type nsgHeaderSize (offset + partitionBlockSize - nsgHeaderSize) →
    SgPartitionAt flash type offset

/-- The entries of an SG partition from the top downwards. -/
def sgEntries (base : Nat) : List Nat :=
  (List.range' 1 (sgPartitionSize / sgEitEntrySize - 1)).map fun number =>
    base + (sgPartitionSize - sgEitEntrySize * number)

/-- What an entry decides about the search: nothing, `some none` if it is malformed or a match that does
not fit, or a match. -/
def entryVerdict (flash : FlashMap) (type : PartitionType) (blockId base entry : Nat) :
    Option (Option StoredBlock) :=
  if isEntryStateValid (entryState flash entry) = false then some none
  else if entryState flash entry ≠ entryValid then none
  else if flash.word32 (entry + 4) > maximumId type then some none
  else if fieldId type (flash.word32 (entry + 4)) = blockId then
    some (storedBlock flash type base entry)
  else none

/-- The first verdict above the free entries. -/
def partitionVerdict (flash : FlashMap) (type : PartitionType) (blockId base : Nat) :
    Option (Option StoredBlock) :=
  ((sgEntries base).takeWhile fun entry => entryState flash entry != entryFree).findSome?
    (entryVerdict flash type blockId base)

/-- The reference. -/
def sgFindBlock (flash : FlashMap) (type : PartitionType) (blockId : Nat) (block : Block) :
    Result × Block :=
  match (sgPartitions flash type).findSome? (partitionVerdict flash type blockId) with
  | some (some stored) => (.ok, block.show stored)
  | some none => (.invalid, block)
  | none => (if (sgPartitions flash type).isEmpty then .partitionNotFound else .blockNotFound, block)

variable {flash : FlashMap} {type : PartitionType}

/-! ## The partitions -/

/-- Where only SG partitions match, one is found exactly if it starts at the block. -/
theorem partitionAt_eq {offset : Nat} (hblock : offset ∈ flashBlocks flash)
    (honly : OnlySg flash type) :
    partitionAt flash type offset
      = .ok (if SgPartitionAt flash type offset then some (sgPartition offset) else none) := by
  have hend : offset + partitionBlockSize ≤ flash.size := by
    obtain ⟨i, hi, rfl⟩ := List.mem_map.mp hblock
    have hlt := List.mem_range.mp hi
    rw [← Nat.succ_mul]
    exact (Nat.mul_le_mul_right _ hlt).trans (Nat.div_mul_le_self _ _)
  rw [partitionAt_eq_partitionIn type hend, partitionIn]
  by_cases hsg : SgPartitionAt flash type offset
  · rw [if_pos hsg, if_pos hsg]
  · rw [if_neg hsg, if_neg hsg, if_neg fun hnsg => hsg (honly offset hblock hnsg.1 hnsg.2)]

/-! ## One partition -/

/-- What a search returns for a verdict. -/
def Searches (block : Block) (verdict : Option (Option StoredBlock)) (r : Result × Bool × Block) :
    Prop :=
  match verdict with
  | none => r = (.blockNotFound, false, block)
  | some none => r.1 = .invalid ∧ r.2.2 = block
  | some (some stored) => r = (.ok, true, block.show stored)

/-- What a pass makes of a verdict. -/
def Passes (block : Block) (verdict : Option (Option StoredBlock)) (pass : Pass) : Prop :=
  match verdict with
  | none => pass = .next false block
  | some none => ∃ matched, pass = .stop .invalid matched block
  | some (some stored) => pass = .stop .ok true (block.show stored)

/-- What the search sees in an entry of an SG partition. -/
theorem classifyEntry_sg {entry : Nat} (hentry : entry + 16 ≤ flash.size) :
    classifyEntry flash .sg type entry = .ok (
      if isEntryStateValid (entryState flash entry) = false then .malformed
      else if entryState flash entry = entryFree then .free
      else if entryState flash entry ≠ entryValid then .inactive
      else if flash.word32 (entry + 4) > maximumId type then .malformed
      else .block (fieldId type (flash.word32 (entry + 4)))) := by
  have hid : idField flash .sg type entry = flash.word32 (entry + 4) := by simp [idField]
  rw [classifyEntry_eq .sg type hentry, entryClass, hid]

/-- A pass over an entry that is not free. -/
theorem findPartitionPass_verdict {base offset blockId : Nat}
    (hbase : base + sgPartitionSize ≤ flash.size) (hentry : base + offset + 16 ≤ flash.size)
    (hfree : entryState flash (base + offset) ≠ entryFree) (block : Block) :
    ∃ pass, findPartitionPass flash (sgPartition base) type blockId offset false block = .ok pass ∧
      Passes block (entryVerdict flash type blockId base (base + offset)) pass := by
  have hdecode : decodeBlock flash (sgPartition base) type offset (base + offset) block
      = .ok (decoded block (storedBlock flash type base (base + offset))) :=
    decodeSgBlock_eq hbase hentry block
  unfold findPartitionPass entryVerdict
  simp only [sgPartition] at hdecode ⊢
  rw [classifyEntry_sg hentry, Checked.ok_bind, if_neg hfree]
  split_ifs with hstate hinactive hmax hid
  · exact ⟨_, rfl, false, rfl⟩
  · exact ⟨_, rfl, rfl⟩
  · exact ⟨_, rfl, false, rfl⟩
  · simp only [if_neg (not_not.mpr hid), hdecode, Checked.ok_bind]
    cases storedBlock flash type base (base + offset) with
    | none => exact ⟨_, rfl, true, rfl⟩
    | some stored => exact ⟨_, rfl, rfl⟩
  · simp only [if_pos hid]
    exact ⟨_, rfl, rfl⟩

/-- The first verdict of the entries from number `number` on. -/
def verdictFrom (flash : FlashMap) (type : PartitionType) (blockId base number count : Nat) :
    Option (Option StoredBlock) :=
  (((List.range' number count).map fun number => base + (sgPartitionSize - sgEitEntrySize * number)).takeWhile
    fun entry => entryState flash entry != entryFree).findSome? (entryVerdict flash type blockId base)

/-- The loop over the entries ends with the first verdict. -/
theorem findPartitionLoop_verdict {base blockId entryCount : Nat}
    (hbase : base + sgPartitionSize ≤ flash.size)
    (hcount : entryCount = sgPartitionSize / sgEitEntrySize - 1) (block : Block) (count number : Nat)
    (hpos : 1 ≤ number) (hend : number + count = entryCount + 1) :
    ∃ r, findPartitionLoop flash (sgPartition base) type blockId entryCount number false block = .ok r ∧
      Searches block (verdictFrom flash type blockId base number count) r := by
  have hsize : sgPartitionSize = 0x20000 := rfl
  have hentries : sgPartitionSize / sgEitEntrySize = 0x2000 := by decide
  induction count generalizing number with
  | zero =>
      rw [findPartitionLoop, if_neg (by omega)]
      exact ⟨_, rfl, rfl⟩
  | succ count ih =>
      have hback : sgEitEntrySize * number = 16 * number := rfl
      have hoffset : entryOffset (sgPartition base) number
          = .ok (sgPartitionSize - sgEitEntrySize * number) := by
        simp only [entryOffset, sgPartition, eitEntrySize]
        rw [Checked.mul_of_lt (by omega), Checked.ok_bind, Checked.sub_of_le (by omega)]
        rfl
      rw [findPartitionLoop, if_pos (by omega), hoffset, Checked.ok_bind, verdictFrom,
        List.range'_succ, List.map_cons]
      generalize hplace : sgPartitionSize - sgEitEntrySize * number = offset
      have hentry : base + offset + 16 ≤ flash.size := by omega
      by_cases hfree : entryState flash (base + offset) = entryFree
      · rw [List.takeWhile_cons_of_neg (by simp [hfree])]
        have hclass : classifyEntry flash .sg type (base + offset) = .ok .free := by
          rw [classifyEntry_sg hentry, hfree]
          rfl
        have hpass : findPartitionPass flash (sgPartition base) type blockId offset false block
            = .ok (.stop .blockNotFound false block) := by
          rw [findPartitionPass]
          simp only [sgPartition, hclass, Checked.ok_bind]
          rfl
        rw [hpass, Checked.ok_bind]
        exact ⟨_, rfl, rfl⟩
      · rw [List.takeWhile_cons_of_pos (by simp [hfree]), List.findSome?_cons]
        obtain ⟨pass, hpass, hverdict⟩ := findPartitionPass_verdict hbase hentry hfree block
        rw [hpass, Checked.ok_bind]
        cases hentry' : entryVerdict flash type blockId base (base + offset) with
        | none =>
            rw [hentry'] at hverdict
            obtain rfl := hverdict
            exact ih (number + 1) (by omega) (by omega)
        | some verdict =>
            rw [hentry'] at hverdict
            cases verdict with
            | none =>
                obtain ⟨matched, rfl⟩ := hverdict
                exact ⟨_, rfl, rfl, rfl⟩
            | some stored =>
                obtain rfl := hverdict
                exact ⟨_, rfl, rfl⟩

/-- **The search of one partition.** -/
theorem findPartitionBlock_verdict {base : Nat} (hbase : base + sgPartitionSize ≤ flash.size)
    (type : PartitionType) (blockId : Nat) (block : Block) :
    ∃ r, findPartitionBlock flash (sgPartition base) type blockId block = .ok r ∧
      Searches block (partitionVerdict flash type blockId base) r := by
  have hcount : Checked.sub ((sgPartition base).size / eitEntrySize (sgPartition base).layout) 1
      = .ok (sgPartitionSize / sgEitEntrySize - 1) :=
    Checked.sub_of_le (show 1 ≤ sgPartitionSize / sgEitEntrySize by decide)
  rw [findPartitionBlock, hcount, Checked.ok_bind, partitionVerdict, sgEntries, ← verdictFrom]
  exact findPartitionLoop_verdict hbase rfl block _ 1 (Nat.le_refl _) (Nat.add_comm _ _)

/-! ## The image -/

/-- The reference, with what the loop has found so far. -/
def searchFrom (flash : FlashMap) (type : PartitionType) (blockId : Nat) (blocks : List Nat) :
    Option (Option StoredBlock) :=
  (blocks.filter fun base => decide (SgPartitionAt flash type base)).findSome?
    (partitionVerdict flash type blockId)

/-- The result of the loop over the 64 KiB blocks. -/
def Finds (block : Block) (verdict : Option (Option StoredBlock)) (found : Bool)
    (r : Result × Bool × Bool × Block) : Prop :=
  match verdict with
  | none => r = (.blockNotFound, found, false, block)
  | some none => r.1 = .invalid ∧ r.2.2.2 = block
  | some (some stored) => r = (.ok, true, true, block.show stored)

theorem findFlashLoop_verdict (hsize : flash.size < 2 ^ 32) (honly : OnlySg flash type)
    (blockId : Nat) (block : Block) (count blockIndex : Nat) (partitionFound : Bool)
    (hend : blockIndex + count = flash.size / partitionBlockSize) :
    let blocks := (List.range' blockIndex count).map (· * partitionBlockSize)
    ∃ r, findFlashLoop flash type blockId (flash.size / partitionBlockSize) blockIndex partitionFound
        false block = .ok r ∧
      Finds block (searchFrom flash type blockId blocks)
        (partitionFound || !(blocks.filter fun base => decide (SgPartitionAt flash type base)).isEmpty) r := by
  induction count generalizing blockIndex partitionFound with
  | zero =>
      rw [findFlashLoop, if_neg (by omega)]
      refine ⟨_, rfl, ?_⟩
      simp [Finds, searchFrom]
  | succ count ih =>
      have hmul : blockIndex * partitionBlockSize + partitionBlockSize ≤ flash.size := by
        rw [← Nat.succ_mul]
        exact (Nat.mul_le_mul_right _ (by omega)).trans (Nat.div_mul_le_self _ _)
      have hpos : 0 < partitionBlockSize := by decide
      have hmem : blockIndex * partitionBlockSize ∈ flashBlocks flash :=
        List.mem_map.mpr ⟨blockIndex, List.mem_range.mpr (by omega), rfl⟩
      obtain ⟨r, hr, hfinds⟩ := ih (blockIndex + 1)
        (partitionFound || decide (SgPartitionAt flash type (blockIndex * partitionBlockSize)))
        (by omega)
      simp only [List.range'_succ, List.map_cons]
      rw [findFlashLoop, if_pos (by omega), Checked.mul_of_lt (by omega), Checked.ok_bind,
        partitionAt_eq hmem honly, Checked.ok_bind]
      by_cases hsg : SgPartitionAt flash type (blockIndex * partitionBlockSize)
      · obtain ⟨found, hfound, hsearch⟩ := findPartitionBlock_verdict hsg.1 type blockId block
        rw [if_pos hsg, searchFrom, List.filter_cons_of_pos (by simpa using hsg), List.findSome?_cons,
          List.isEmpty_cons, Bool.not_false, Bool.or_true]
        dsimp only
        rw [hfound, Checked.ok_bind]
        rw [decide_eq_true hsg, Bool.or_true] at hr hfinds
        rw [Bool.true_or] at hfinds
        cases hverdict : partitionVerdict flash type blockId (blockIndex * partitionBlockSize) with
        | none =>
            rw [hverdict] at hsearch
            obtain rfl := hsearch
            exact ⟨r, hr, hfinds⟩
        | some verdict =>
            rw [hverdict] at hsearch
            cases verdict with
            | none =>
                obtain ⟨result, matched, block'⟩ := found
                obtain ⟨rfl, rfl⟩ := hsearch
                exact ⟨_, rfl, rfl, rfl⟩
            | some stored =>
                obtain rfl := hsearch
                exact ⟨_, rfl, rfl⟩
      · rw [if_neg hsg, searchFrom, List.filter_cons_of_neg (by simpa using hsg)]
        rw [decide_eq_false hsg, Bool.or_false] at hr hfinds
        exact ⟨r, hr, hfinds⟩

/-- **The parser computes the reference** on the images whose matching partitions are SG. -/
theorem eepromFindBlockInMemory_sg (data : Nat → UInt8) (size : UInt32) (type : PartitionType)
    (blockId : Nat) (block : Block) (h : OnlySg ⟨data, size.toNat⟩ type) :
    eepromFindBlockInMemory ⟨data, size.toNat⟩ type blockId block
      = .ok (sgFindBlock ⟨data, size.toNat⟩ type blockId block) := by
  generalize hflash : (⟨data, size.toNat⟩ : FlashMap) = flash at h
  have hsize : flash.size < 2 ^ 32 := hflash ▸ size.toNat_lt
  obtain ⟨r, hr, hfinds⟩ := findFlashLoop_verdict hsize h blockId block
    (flash.size / partitionBlockSize) 0 false (Nat.zero_add _)
  rw [← List.range_eq_range', ← flashBlocks, ← sgPartitions, Bool.false_or, searchFrom,
    ← sgPartitions] at hfinds
  rw [eepromFindBlockInMemory, findFlashBlock, hr, Checked.ok_bind, sgFindBlock]
  cases hverdict : (sgPartitions flash type).findSome? (partitionVerdict flash type blockId) with
  | none =>
      rw [hverdict] at hfinds
      obtain rfl := hfinds
      cases (sgPartitions flash type).isEmpty with
      | true => rfl
      | false => rfl
  | some verdict =>
      rw [hverdict] at hfinds
      cases verdict with
      | none =>
          obtain ⟨result, found, matched, block'⟩ := r
          obtain ⟨rfl, rfl⟩ := hfinds
          rfl
      | some stored =>
          obtain rfl := hfinds
          rfl

/-- An image of one SG partition has no room for an NSG partition. -/
theorem onlySg_of_small {data : Nat → UInt8} {size : Nat} (type : PartitionType)
    (h : size ≤ partitionBlockSize * 3) : OnlySg ⟨data, size⟩ type := by
  intro offset hmem hlow
  obtain ⟨i, hi, rfl⟩ := List.mem_map.mp hmem
  have hlt := List.mem_range.mp hi
  have hpos : 0 < partitionBlockSize := by decide
  have hend := (Nat.mul_le_mul_right partitionBlockSize hlt).trans (Nat.div_mul_le_self size _)
  rw [Nat.succ_mul] at hend
  omega

/-- The image with one extended EEFULL block. -/
theorem eepromFindBlockInMemory_sg_extended :
    eepromFindBlockInMemory ⟨extendedImage.data, (0x20000 : UInt32).toNat⟩ .eefull 5009 emptyBlock
      = .ok (sgFindBlock ⟨extendedImage.data, (0x20000 : UInt32).toNat⟩ .eefull 5009 emptyBlock) ∧
    (sgFindBlock ⟨extendedImage.data, (0x20000 : UInt32).toNat⟩ .eefull 5009 emptyBlock).1 = .ok :=
  ⟨eepromFindBlockInMemory_sg extendedImage.data 0x20000 .eefull 5009 emptyBlock
    (onlySg_of_small .eefull (by decide +kernel)), by decide +kernel⟩

end Pmb887x.Eeprom
