import Pmb887x.Eeprom.Parser

set_option autoImplicit false

/-! # Memory safety of the EEPROM parser

On every image the parser ends without a fault: it reads inside the image, writes inside the inline
buffer and wraps no `uint32_t` expression. The block of a successful search lies in the partition
that holds its entry, or in the inline buffer (`eepromFindBlockInMemory_safe`). -/

namespace Pmb887x.Eeprom

open Library

variable {flash : FlashMap} {partition : Partition} {type : PartitionType}

/-! ## Reading the image -/

theorem byte_of_lt {offset : Nat} (h : offset < flash.size) :
    flash.byte offset = .ok (flash.data offset) :=
  if_pos h

theorem readU16_of_le {offset : Nat} (h : offset + 2 ≤ flash.size) :
    readU16 flash offset = .ok (ofLeBytes [flash.data offset, flash.data (offset + 1)]) := by
  rw [readU16, byte_of_lt (by omega), byte_of_lt (by omega)]
  rfl

theorem readU32_of_le {offset : Nat} (h : offset + 4 ≤ flash.size) :
    readU32 flash offset = .ok (ofLeBytes [flash.data offset, flash.data (offset + 1),
      flash.data (offset + 2), flash.data (offset + 3)]) := by
  rw [readU32, byte_of_lt (by omega), byte_of_lt (by omega), byte_of_lt (by omega),
    byte_of_lt (by omega)]
  rfl

theorem safe_readU16 {offset : Nat} (h : offset + 2 ≤ flash.size) :
    Safe (readU16 flash offset) (fun v => v < 2 ^ 32) :=
  .of_eq (readU16_of_le h) (ofLeBytes_lt_two_pow (by simp))

theorem safe_readU32 {offset : Nat} (h : offset + 4 ≤ flash.size) :
    Safe (readU32 flash offset) (fun v => v < 2 ^ 32) :=
  .of_eq (readU32_of_le h) (ofLeBytes_lt_two_pow (by simp))

/-! ## Offsets -/

theorem safe_alignNsgDataOffset {offset : Nat} (h : offset < 2 ^ 31) :
    Safe (alignNsgDataOffset offset) (fun r => offset ≤ r ∧ r ≤ offset + 32) := by
  unfold alignNsgDataOffset
  refine .ite (fun _ => .ok (by omega)) (fun _ => ?_)
  have hlow : offset &&& (nsgDataChunkSize * 2 - 1) < 2 ^ 5 := Nat.and_lt_two_pow _ (by decide)
  simp only [nsgDataChunkSize] at hlow ⊢
  rw [Checked.add_of_lt (by omega), Checked.ok_bind, Checked.sub_of_le (by omega)]
  exact .ok (by omega)

/-- The address of byte `index` of inline data, where it is a `uint32_t`: each full chunk skips an upper
    half. -/
theorem nsgDataByteOffset_of_lt {offset index : Nat}
    (h : offset + index + (offset % 16 + index) / 16 * 16 < 2 ^ 32) :
    nsgDataByteOffset offset index
      = .ok (offset + index + (offset % 16 + index) / 16 * 16) := by
  have hchunk : offset &&& (nsgDataChunkSize - 1) = offset % 16 :=
    Nat.and_two_pow_sub_one_eq_mod offset 4
  have hmod := Nat.mod_le offset 16
  unfold nsgDataByteOffset
  rw [hchunk]
  simp only [nsgDataChunkSize]
  rw [Checked.add_of_lt (by omega), Checked.ok_bind, Checked.mul_of_lt (by omega),
    Checked.ok_bind, Checked.add_of_lt (by omega), Checked.ok_bind, Checked.add_of_lt (by omega)]

theorem nsgDataByteOffset_eq {offset index : Nat} (ho : offset < 2 ^ 30) (hi : index < 2 ^ 30) :
    nsgDataByteOffset offset index
      = .ok (offset + index + (offset % 16 + index) / 16 * 16) :=
  nsgDataByteOffset_of_lt (by omega)

/-! ## Headers -/

theorem safe_nameMatches (name : List UInt8) :
    ∀ {header i : Nat}, header + i + name.length ≤ flash.size →
      Safe (nameMatches flash header i name) (fun _ => True) := by
  induction name with
  | nil => intro header i _; exact .ok trivial
  | cons c rest ih =>
      intro header i h
      simp only [List.length_cons] at h
      rw [nameMatches, byte_of_lt (by omega), Checked.ok_bind]
      exact .ite (fun _ => .ok trivial) (fun _ => ih (by omega))

theorem safe_erasedFrom {header size i : Nat} (h : header + size ≤ flash.size) :
    Safe (erasedFrom flash header size i) (fun _ => True) := by
  fun_induction erasedFrom flash header size i with
  | case1 i hlt ih =>
      rw [byte_of_lt (by omega), Checked.ok_bind]
      exact .ite (fun _ => .ok trivial) (fun _ => ih)
  | case2 i _ => exact .ok trivial

theorem safe_partitionHeaderMatches {header size : Nat} {name : List UInt8} (hs : 16 ≤ size)
    (hn : name.length = 8) (h : header + size ≤ flash.size) :
    Safe (partitionHeaderMatches flash header size name) (fun _ => True) := by
  unfold partitionHeaderMatches
  refine (safe_nameMatches name (by omega)).bind (fun named _ => ?_)
  refine .ite (fun _ => .ok trivial) (fun _ => ?_)
  refine (safe_readU16 (by omega)).bind (fun flags _ => ?_)
  refine .ite (fun _ => .ok trivial) (fun _ => ?_)
  refine (safe_readU32 (by omega)).bind (fun marker _ => ?_)
  exact .ite (fun _ => .ok trivial) (fun _ => safe_erasedFrom h)

/-! ## Decoding -/

/-- The block lies in the partition, or in its own inline buffer. -/
def Block.Within (block : Block) (partition : Partition) : Prop :=
  match block.data with
  | .flash offset =>
      partition.base ≤ offset ∧ offset + block.size ≤ partition.base + partition.size
  | .inlineData => block.size ≤ blockInlineCapacity

/-- A partition as `find_flash_block` builds it, inside the image. -/
structure Partition.InImage (partition : Partition) (flash : FlashMap) : Prop where
  fits : partition.base + partition.size ≤ flash.size
  size_eq : partition.size = match partition.layout with
    | .sg => sgPartitionSize
    | .nsg => nsgPartitionSize

theorem Partition.InImage.size_le (h : partition.InImage flash) : partition.size ≤ 0x40000 := by
  rw [h.size_eq]
  cases partition.layout <;> decide

/-- What a decoder promises: a verdict, and a block within bounds when it is `OK`. -/
def Decoded (partition : Partition) (r : Result × Block) : Prop :=
  (r.1 = .ok ∧ r.2.Within partition) ∨ r.1 = .invalid

theorem safe_decodeSgBlock (hp : partition.InImage flash) {entry : Nat}
    (he : entry + 16 ≤ flash.size) (block : Block) :
    Safe (decodeSgBlock flash partition type entry block) (Decoded partition) := by
  have hsize := hp.size_le
  have hfits := hp.fits
  unfold decodeSgBlock
  refine (safe_readU32 (by omega)).bind (fun storedSize _ => ?_)
  refine (safe_readU32 (by omega)).bind (fun offset _ => ?_)
  refine .ite (fun _ => .ok (.inr rfl)) (fun hne => ?_)
  refine .ite (fun _ => .ok (.inr rfl)) (fun hoffset => ?_)
  rw [Checked.sub_of_le (by omega), Checked.ok_bind]
  refine .ite (fun _ => .ok (.inr rfl)) (fun hroom => ?_)
  cases type with
  | eefull =>
      simp only
      rw [byte_of_lt (by omega), Checked.ok_bind]
      refine .ite (fun _ => .ok (.inr rfl)) (fun hmeta => ?_)
      rw [Checked.sub_of_le (by omega), Checked.ok_bind]
      have hpos : 1 ≤ metadataSize (flash.data (partition.base + offset)) := by
        unfold metadataSize
        split <;> decide
      exact .ok (.inl ⟨rfl, by simp only [Block.Within]; omega⟩)
  | eelite =>
      simp only
      rw [Checked.sub_of_le (by omega), Checked.ok_bind, Checked.add_of_lt (by omega),
        Checked.ok_bind, byte_of_lt (by omega), Checked.ok_bind]
      exact .ok (.inl ⟨rfl, by simp only [Block.Within]; omega⟩)

theorem safe_copyInlineBytes (hp : partition.InImage flash) {storedOffset sourceOffset size i : Nat}
    (ho : storedOffset < 2 ^ 30) (hs : sourceOffset ≤ 1) (hsize : size ≤ blockInlineCapacity)
    (block : Block) (hb : block.size ≤ size) :
    Safe (copyInlineBytes flash partition storedOffset sourceOffset size i block)
      (Decoded partition) := by
  have hcapacity : blockInlineCapacity = 0x200 := rfl
  have hfits := hp.fits
  fun_induction copyInlineBytes flash partition storedOffset sourceOffset size i block with
  | case1 i block hlt ih =>
      rw [Checked.add_of_lt (by omega), Checked.ok_bind,
        nsgDataByteOffset_eq ho (by omega), Checked.ok_bind]
      refine .ite (fun _ => .ok (.inr rfl)) (fun hin => ?_)
      rw [byte_of_lt (by omega), Checked.ok_bind, Block.setInline, if_pos (by omega),
        Checked.ok_bind]
      exact ih _ hb
  | case2 i block _ => exact .ok (.inl ⟨rfl, Nat.le_trans hb hsize⟩)

theorem safe_copyNsgInlineBlock (hp : partition.InImage flash)
    {storedOffset sourceOffset size : Nat} (ho : storedOffset < 2 ^ 30) (hs : sourceOffset ≤ 1)
    (block : Block) (hb : block.size ≤ size) :
    Safe (copyNsgInlineBlock flash partition storedOffset sourceOffset size block)
      (Decoded partition) :=
  .ite (fun _ => .ok (.inr rfl))
    (fun hsize => safe_copyInlineBytes hp ho hs (Nat.le_of_not_lt hsize) block hb)

theorem inlineLimit_le (type : PartitionType) : inlineLimit type ≤ 0x200 := by
  cases type <;> decide

/-- The data of an entry starts in reach; external data lies in the partition. -/
theorem safe_nsgStoredOffset (hp : partition.InImage flash) {entryOffset entry storedSize : Nat}
    (he : entry + 16 ≤ flash.size) (ho : entryOffset < partition.size) :
    Safe (nsgStoredOffset flash partition type entryOffset entry storedSize) (fun r =>
      ∀ storedOffset, r = some storedOffset → storedOffset < 2 ^ 30 ∧
        (¬ storedSize ≤ inlineLimit type → storedOffset < partition.size ∧
          storedOffset + storedSize ≤ partition.size)) := by
  have hsize := hp.size_le
  have hlimit := inlineLimit_le type
  unfold nsgStoredOffset
  refine .ite (fun hinline => ?_) (fun hexternal => ?_)
  · have hand : storedSize &&& (uint32Max - (nsgDataChunkSize - 1)) ≤ storedSize :=
      Nat.and_le_left
    simp only [nsgDataChunkSize] at hand ⊢
    rw [Checked.add_of_lt (by omega), Checked.ok_bind, Checked.add_of_lt (by omega),
      Checked.ok_bind]
    refine .ite (fun _ => .ok (by simp)) (fun hroom => ?_)
    rw [Checked.sub_of_le (by omega), Checked.ok_bind]
    refine (safe_alignNsgDataOffset (by omega)).bind (fun storedOffset hstored => .ok ?_)
    rintro _ ⟨⟩
    exact ⟨by omega, fun h => absurd hinline h⟩
  · refine (safe_readU32 (by omega)).bind (fun storedOffset _ => ?_)
    refine .ite (fun _ => .ok (by simp)) (fun hin => ?_)
    rw [Checked.sub_of_le (by omega), Checked.ok_bind]
    refine .ite (fun _ => .ok (by simp)) (fun hroom => .ok ?_)
    rintro _ ⟨⟩
    exact ⟨by omega, fun _ => ⟨by omega, by omega⟩⟩

theorem metadataSize_pos (version : UInt8) : 1 ≤ metadataSize version := by
  unfold metadataSize
  split <;> decide

theorem safe_decodeNsgBlock (hp : partition.InImage flash) {entryOffset entry : Nat}
    (he : entry + 16 ≤ flash.size) (ho : entryOffset < partition.size) (block : Block) :
    Safe (decodeNsgBlock flash partition type entryOffset entry block) (Decoded partition) := by
  have hsize := hp.size_le
  have hfits := hp.fits
  unfold decodeNsgBlock
  have hread : Safe (nsgStoredSize flash type entry) (fun v => v < 2 ^ 32) := by
    cases type with
    | eefull => exact safe_readU32 (by omega)
    | eelite => exact safe_readU16 (by omega)
  refine hread.bind (fun storedSize _ => ?_)
  refine .ite (fun _ => .ok (.inr rfl)) (fun hne => ?_)
  refine (safe_nsgStoredOffset hp he ho).bind (fun found hfound => ?_)
  cases found with
  | none => exact .ok (.inr rfl)
  | some storedOffset =>
      obtain ⟨hstored, hexternal⟩ := hfound storedOffset rfl
      cases type with
      | eefull =>
          simp only [decide_eq_true_eq]
          have hversion : ∀ isInline, Safe (nsgVersionOffset isInline storedOffset)
              (fun _ => True) := by
            intro isInline
            refine .ite (fun _ => ?_) (fun _ => .ok trivial)
            rw [nsgDataByteOffset_eq hstored (by decide)]
            exact .ok trivial
          refine (hversion _).bind (fun versionOffset _ => ?_)
          refine .ite (fun _ => .ok (.inr rfl)) (fun hin => ?_)
          rw [byte_of_lt (by omega), Checked.ok_bind]
          refine .ite (fun _ => .ok (.inr rfl)) (fun hmeta => ?_)
          rw [Checked.sub_of_le (by omega), Checked.ok_bind]
          refine .ite (fun _ => ?_) (fun hout => ?_)
          · exact safe_copyNsgInlineBlock hp hstored (Nat.le_refl _) _ (Nat.le_refl _)
          · obtain ⟨hlt, hroom⟩ := hexternal hout
            have hpos := metadataSize_pos (flash.data (partition.base + versionOffset))
            exact .ok (.inl ⟨rfl, by simp only [Block.Within]; omega⟩)
      | eelite =>
          simp only [decide_eq_true_eq]
          rw [byte_of_lt (by omega), Checked.ok_bind]
          refine .ite (fun _ => ?_) (fun hout => ?_)
          · exact safe_copyNsgInlineBlock hp hstored (Nat.zero_le _) _ (Nat.le_refl _)
          · obtain ⟨hlt, hroom⟩ := hexternal hout
            exact .ok (.inl ⟨rfl, by simp only [Block.Within]; omega⟩)

/-! ## Searching a partition -/

theorem safe_classifyEntry {layout : Layout} {entry : Nat} (h : entry + 16 ≤ flash.size) :
    Safe (classifyEntry flash layout type entry) (fun _ => True) := by
  unfold classifyEntry
  refine (safe_readU32 (by omega)).bind (fun word _ => ?_)
  refine .ite (fun _ => .ok trivial) (fun _ => ?_)
  refine .ite (fun _ => .ok trivial) (fun _ => ?_)
  refine .ite (fun _ => .ok trivial) (fun _ => ?_)
  have hid : Safe (readEntryBlockId flash layout type entry) (fun v => v < 2 ^ 32) :=
    .ite (fun _ => safe_readU16 (by omega)) (fun _ => safe_readU32 (by omega))
  refine hid.bind (fun id _ => ?_)
  refine .ite (fun _ => .ok trivial) (fun hmax => ?_)
  cases type with
  | eelite => exact .ok trivial
  | eefull =>
      simp only [maximumId, uint32Max, eefullBlockIdBase] at hmax ⊢
      rw [Checked.add_of_lt (by omega), Checked.ok_bind]
      exact .ok trivial

/-- What a search keeps: once a block has matched it is within bounds. -/
def Found (partition : Partition) (matched : Bool) (block : Block) : Prop :=
  matched = true → block.Within partition

/-- What a pass promises. -/
def PassOk (partition : Partition) : Pass → Prop
  | .next matched block => Found partition matched block
  | .stop result matched block =>
      result = .invalid ∨ (result = searchResult matched ∧ Found partition matched block)

theorem safe_findPartitionPass (hp : partition.InImage flash) {blockId offset : Nat}
    (ho : offset + 16 ≤ partition.size) {matched : Bool} {block : Block}
    (hfound : Found partition matched block) :
    Safe (findPartitionPass flash partition type blockId offset matched block)
      (PassOk partition) := by
  have hfits := hp.fits
  have hentry : partition.base + offset + 16 ≤ flash.size := by omega
  unfold findPartitionPass
  refine (safe_classifyEntry hentry).bind (fun seen _ => ?_)
  cases seen with
  | malformed =>
      cases partition.layout with
      | sg => exact .ok (.inl rfl)
      | nsg => exact .ok hfound
  | free =>
      cases partition.layout with
      | sg => exact .ok (.inr ⟨rfl, hfound⟩)
      | nsg => exact .ok hfound
  | inactive => exact .ok hfound
  | block id =>
      refine .ite (fun _ => .ok hfound) (fun _ => ?_)
      have hdecode : Safe (decodeBlock flash partition type offset (partition.base + offset) block)
          (Decoded partition) := by
        unfold decodeBlock
        cases partition.layout with
        | nsg => exact safe_decodeNsgBlock hp hentry (by omega) block
        | sg => exact safe_decodeSgBlock hp hentry block
      refine hdecode.bind (fun r hr => ?_)
      obtain ⟨result, block'⟩ := r
      rcases hr with ⟨rfl, hwithin⟩ | rfl
      · cases partition.layout with
        | sg => exact .ok (.inr ⟨rfl, fun _ => hwithin⟩)
        | nsg => exact .ok (fun _ => hwithin)
      · exact .ok (.inl rfl)

/-- Every entry lies in the partition. -/
theorem safe_entryOffset (hp : partition.InImage flash) {number : Nat} (hpos : 1 ≤ number)
    (hcount : number ≤ partition.size / eitEntrySize partition.layout - 1) :
    Safe (entryOffset partition number) (fun offset => offset + 16 ≤ partition.size) := by
  have hsize := hp.size_eq
  unfold entryOffset
  cases hlayout : partition.layout with
  | nsg =>
      simp only [hlayout, eitEntrySize, nsgEitEntrySize, nsgPartitionSize, partitionBlockSize]
        at hsize hcount ⊢
      rw [Checked.mul_of_lt (by omega), Checked.ok_bind, Checked.sub_of_le (by omega),
        Checked.ok_bind, Checked.sub_of_le (by omega)]
      exact .ok (by omega)
  | sg =>
      simp only [hlayout, eitEntrySize, sgEitEntrySize, sgPartitionSize, partitionBlockSize]
        at hsize hcount ⊢
      rw [Checked.mul_of_lt (by omega), Checked.ok_bind, Checked.sub_of_le (by omega),
        Checked.ok_bind]
      exact .ok (by omega)

/-- What a search of a partition promises. -/
def Searched (partition : Partition) (r : Result × Bool × Block) : Prop :=
  r.1 = .invalid ∨ (r.1 = searchResult r.2.1 ∧ Found partition r.2.1 r.2.2)

theorem safe_findPartitionLoop (hp : partition.InImage flash) {blockId entryCount number : Nat}
    (hpos : 1 ≤ number) (hcount : entryCount = partition.size / eitEntrySize partition.layout - 1)
    {matched : Bool} {block : Block} (hfound : Found partition matched block) :
    Safe (findPartitionLoop flash partition type blockId entryCount number matched block)
      (Searched partition) := by
  fun_induction findPartitionLoop flash partition type blockId entryCount number matched block with
  | case1 number matched block hle ih =>
      refine (safe_entryOffset hp hpos (by omega)).bind (fun offset hoffset => ?_)
      refine (safe_findPartitionPass hp hoffset hfound).bind (fun pass hpass => ?_)
      cases pass with
      | next matched' block' => exact ih matched' block' (by omega) hpass
      | stop result matched' block' => exact .ok hpass
  | case2 number matched block _ => exact .ok (.inr ⟨rfl, hfound⟩)

theorem safe_findPartitionBlock (type : PartitionType) (hp : partition.InImage flash)
    (blockId : Nat) (block : Block) :
    Safe (findPartitionBlock flash partition type blockId block) (Searched partition) := by
  have hone : 1 ≤ partition.size / eitEntrySize partition.layout := by
    rw [hp.size_eq]
    cases partition.layout <;> decide
  rw [findPartitionBlock, Checked.sub_of_le hone, Checked.ok_bind]
  exact safe_findPartitionLoop hp (Nat.le_refl _) rfl (fun h => by cases h)

/-! ## Searching the image -/

theorem partitionName_length (type : PartitionType) : (partitionName type).length = 8 := by
  cases type <;> rfl

/-- A partition that is found lies in the image. -/
theorem safe_partitionAt (type : PartitionType) {offset : Nat} (h : offset + partitionBlockSize ≤ flash.size) :
    Safe (partitionAt flash type offset) (fun found =>
      ∀ partition, found = some partition → partition.InImage flash) := by
  have hname := partitionName_length type
  simp only [partitionBlockSize] at h
  have hsg : Safe (sgPartitionMatches flash type offset)
      (fun sg => sg = true → offset + sgPartitionSize ≤ flash.size) := by
    unfold sgPartitionMatches
    refine .ite (fun hfits => ?_) (fun _ => .ok (by simp))
    rw [Checked.sub_of_le hfits, Checked.ok_bind]
    refine .ite (fun hlast => ?_) (fun _ => .ok (by simp))
    have hhead : sgHeaderSize = 16 := rfl
    exact (safe_partitionHeaderMatches (by omega) hname (by omega)).mono (fun _ _ _ => by omega)
  have hnsg : Safe (nsgPartitionMatches flash type offset)
      (fun nsg => nsg = true → partitionBlockSize * 3 ≤ offset) := by
    refine .ite (fun hlast => ?_) (fun _ => .ok (by simp))
    exact (safe_partitionHeaderMatches (by decide) hname
      (by simp only [partitionBlockSize, nsgHeaderSize]; omega)).mono (fun _ _ _ => hlast)
  unfold partitionAt
  refine hsg.bind (fun sg hin => ?_)
  refine .ite (fun hyes => .ok ?_) (fun _ => ?_)
  · rintro _ ⟨⟩
    exact ⟨hin hyes, rfl⟩
  · refine hnsg.bind (fun nsg hin => ?_)
    refine .ite (fun hyes => .ok ?_) (fun _ => .ok (by simp))
    intro partition hsome
    rw [← Option.some.inj hsome]
    have hlow := hin hyes
    refine ⟨?_, rfl⟩
    simp only [partitionBlockSize, nsgPartitionSize] at hlow ⊢
    omega

/-- `block` is what the search of a partition of the image has found, within bounds. -/
def FoundInImage (flash : FlashMap) (type : PartitionType) (blockId : Nat) (block : Block) : Prop :=
  ∃ offset partition start, partitionAt flash type offset = .ok (some partition) ∧
    findPartitionBlock flash partition type blockId start = .ok (.ok, true, block) ∧
    partition.base + partition.size ≤ flash.size ∧ block.Within partition

theorem safe_findFlashLoop {blockId blockCount blockIndex : Nat} {partitionFound matched : Bool}
    {block : Block} (hsize : flash.size < 2 ^ 32)
    (hcount : blockCount = flash.size / partitionBlockSize) (hmatched : matched = false) :
    Safe (findFlashLoop flash type blockId blockCount blockIndex partitionFound matched block)
      (fun r => r.1 = .invalid ∨ (r.1 = .blockNotFound ∧ r.2.2.1 = false) ∨
        (r.1 = .ok ∧ FoundInImage flash type blockId r.2.2.2)) := by
  fun_induction findFlashLoop flash type blockId blockCount blockIndex partitionFound matched
    block with
  | case1 blockIndex partitionFound matched block hlt ihnone ihsome =>
      simp only [partitionBlockSize] at hcount
      have hfits : blockIndex * partitionBlockSize + partitionBlockSize ≤ flash.size := by
        simp only [partitionBlockSize]
        omega
      rw [Checked.mul_of_lt (by simp only [partitionBlockSize] at *; omega), Checked.ok_bind]
      obtain ⟨found, hfound, himage⟩ := safe_partitionAt type hfits
      rw [hfound, Checked.ok_bind]
      cases found with
      | none => exact ihnone hmatched
      | some partition =>
          have hp := himage partition rfl
          obtain ⟨⟨result, matched', block'⟩, hsearch, hdone⟩ :=
            safe_findPartitionBlock type hp blockId block
          dsimp only
          rw [hsearch, Checked.ok_bind]
          refine .ite (fun hinvalid => .ok (.inl hinvalid)) (fun hvalid => ?_)
          obtain hinvalid | ⟨hresult, hwithin⟩ := hdone
          · exact absurd hinvalid hvalid
          · cases matched' with
            | true =>
                obtain rfl : result = .ok := hresult
                exact .ok (.inr (.inr ⟨rfl, _, partition, block, hfound, hsearch, hp.fits,
                  hwithin rfl⟩))
            | false => exact ihsome false block' rfl
  | case2 blockIndex partitionFound matched block _ => exact .ok (.inr (.inl ⟨rfl, hmatched⟩))

/-- **The parser is memory safe.** On every image shorter than `2^32` bytes, for both partition
    types and every block id, the search ends without a fault; the block of a search that ends with
    `OK` was found in a partition of the image and lies in it, or in the inline buffer. -/
theorem eepromFindBlockInMemory_safe (flash : FlashMap) (type : PartitionType) (blockId : Nat)
    (block : Block) (hsize : flash.size < 2 ^ 32) :
    ∃ result block', eepromFindBlockInMemory flash type blockId block = .ok (result, block') ∧
      (result = .ok → FoundInImage flash type blockId block') := by
  have hsearch : Safe (findFlashBlock flash type blockId block) _ :=
    safe_findFlashLoop hsize rfl rfl
  obtain ⟨⟨result, partitionFound, matched, block'⟩, hloop, hdone⟩ := hsearch
  rw [eepromFindBlockInMemory, hloop, Checked.ok_bind]
  dsimp only
  by_cases hend : result = .invalid ∨ matched = true
  · rw [if_pos hend]
    refine ⟨result, block', rfl, fun hok => ?_⟩
    subst hok
    rcases hdone with h | ⟨h, -⟩ | ⟨-, h⟩
    · cases h
    · cases h
    · exact h
  · rw [if_neg hend]
    refine ⟨_, block', rfl, fun hok => ?_⟩
    cases partitionFound <;> simp at hok

/-- An SG image with one EEFULL block: a version byte and nine more. -/
def sgImage (version : UInt8) : FlashMap where
  size := 0x20000
  data := fun a =>
    if a < 16 then
      [0x45, 0x45, 0x46, 0x55, 0x4C, 0x4C, 0, 0, 0xFF, 0xFF, 0, 0, 0xF0, 0xFF, 0xFF, 0xFF].getD a 0
    else if a < 26 then [version, 1, 2, 3, 4, 0xFF, 0xFF, 0xFF, 0xFF, 0xFF].getD (a - 16) 0
    else if a < 0x1FFF0 then 0xFF
    else [0xC0, 0xFF, 0xFF, 0xFF, 9, 0, 0, 0, 10, 0, 0, 0, 16, 0, 0, 0].getD (a - 0x1FFF0) 0

/-- The block has extended metadata: six of its bytes. -/
def extendedImage : FlashMap := sgImage 0x80

def emptyBlock : Block := { data := .inlineData, size := 0, version := 0, inlineData := fun _ => 0 }

/-- The block of this image is found in it. -/
theorem eepromFindBlockInMemory_safe_extended :
    ∃ block, eepromFindBlockInMemory extendedImage .eefull 5009 emptyBlock = .ok (.ok, block) ∧
      FoundInImage extendedImage .eefull 5009 block := by
  obtain ⟨result, block, hrun, hfound⟩ :=
    eepromFindBlockInMemory_safe extendedImage .eefull 5009 emptyBlock (by decide)
  have hok : (eepromFindBlockInMemory extendedImage .eefull 5009 emptyBlock).map Prod.fst = .ok .ok := by
    decide +kernel
  rw [hrun] at hok
  obtain rfl : result = .ok := Except.ok.inj hok
  exact ⟨block, hrun, hfound rfl⟩

end Pmb887x.Eeprom
