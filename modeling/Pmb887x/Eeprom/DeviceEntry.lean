import Pmb887x.Eeprom.Words

set_option autoImplicit false

/-! # The entry that the device takes

A search that ends with `OK` takes its block from one entry of the table. Which one that is, and what it stores,
is said here by the words of the image (`eepromFindBlockInMemory_takes`). -/

namespace Pmb887x.Eeprom

open Library

variable {flash : FlashMap} {partition : Partition} {type : PartitionType} {blockId number : Nat}

/-! ## Which entry -/

/-- The class of an entry that a search of an SG partition goes past. -/
def EntryClass.PassedOver (blockId : Nat) : EntryClass → Prop
  | .inactive => True
  | .block id => id ≠ blockId
  | _ => False

/-- The search of the partition takes entry `number`: in an SG partition the first valid entry of the block
above the free ones, in an NSG partition the last one. -/
structure TakenFrom (flash : FlashMap) (type : PartitionType) (blockId : Nat) (partition : Partition)
    (number : Nat) : Prop where
  pos : 1 ≤ number
  le : number ≤ entryCount partition
  valid : entryClass flash partition.layout type (entryAddress partition number) = .block blockId
  first : partition.layout = .sg → ∀ n, 1 ≤ n → n < number →
    (entryClass flash partition.layout type (entryAddress partition n)).PassedOver blockId
  last : partition.layout = .nsg → ∀ n, number < n → n ≤ entryCount partition →
    entryClass flash partition.layout type (entryAddress partition n) ≠ .block blockId

/-- The device takes entry `number` of the partition, which is the first one with an entry to take. -/
structure DeviceEntry (flash : FlashMap) (type : PartitionType) (blockId : Nat) (partition : Partition)
    (number : Nat) : Prop where
  taken : TakenFrom flash type blockId partition number
  place : ∃ place < flash.size / partitionBlockSize,
    partitionIn flash type (place * partitionBlockSize) = some partition ∧
      ∀ place' < place, ∀ other, partitionIn flash type (place' * partitionBlockSize) = some other →
        ∀ n, ¬ TakenFrom flash type blockId other n

theorem TakenFrom.unique {n : Nat} (h : TakenFrom flash type blockId partition number)
    (h' : TakenFrom flash type blockId partition n) : number = n := by
  cases hlayout : partition.layout with
  | sg =>
      have hfirst : ∀ {a b : Nat}, TakenFrom flash type blockId partition a →
          TakenFrom flash type blockId partition b → ¬ a < b := by
        intro a b ha hb hlt
        have hpassed := hb.first hlayout a ha.pos hlt
        rw [ha.valid] at hpassed
        exact hpassed rfl
      exact Nat.le_antisymm (Nat.not_lt.mp (hfirst h' h)) (Nat.not_lt.mp (hfirst h h'))
  | nsg =>
      have hlast : ∀ {a b : Nat}, TakenFrom flash type blockId partition a →
          TakenFrom flash type blockId partition b → ¬ a < b :=
        fun ha hb hlt => ha.last hlayout _ hlt hb.le hb.valid
      exact Nat.le_antisymm (Nat.not_lt.mp (hlast h' h)) (Nat.not_lt.mp (hlast h h'))

theorem DeviceEntry.unique {partition' : Partition} {n : Nat}
    (h : DeviceEntry flash type blockId partition number)
    (h' : DeviceEntry flash type blockId partition' n) : partition = partition' ∧ number = n := by
  obtain ⟨place, -, hin, hbefore⟩ := h.place
  obtain ⟨place', -, hin', hbefore'⟩ := h'.place
  rcases Nat.lt_trichotomy place place' with hlt | rfl | hlt
  · exact absurd h.taken (hbefore' place hlt partition hin number)
  · rw [hin, Option.some.injEq] at hin'
    obtain rfl := hin'
    exact ⟨rfl, h.taken.unique h'.taken⟩
  · exact absurd h'.taken (hbefore place' hlt partition' hin' n)

/-! ## What it stores -/

/-- The version and the bytes of a block. -/
@[ext]
structure Contents where
  version : Nat
  bytes : List UInt8

/-- The version and the bytes, if `stored` are the bytes that the entry stores and `metadata` of them are those
of an EEFULL block. -/
def contentsOf (flash : FlashMap) (layout : Layout) (type : PartitionType) (entry : Nat) (stored : Nat → UInt8)
    (metadata : Nat) : Contents :=
  let size := sizeField flash layout type entry
  match type, layout with
  | .eefull, _ => ⟨(stored 0).toNat, (List.range (size - metadata)).map fun i => stored (1 + i)⟩
  | .eelite, .nsg => ⟨(flash.data (entry + 7)).toNat, (List.range size).map stored⟩
  | .eelite, .sg => ⟨(stored (size - 1)).toNat, (List.range (size - 1)).map stored⟩

/-- The value of an entry at the offset that it stores. -/
def valueAt (flash : FlashMap) (partition : Partition) (entry i : Nat) : UInt8 :=
  flash.data (partition.base + flash.word32 (entry + 12) + i)

/-- A value that an NSG partition stores below the entry itself. -/
def IsInline (flash : FlashMap) (partition : Partition) (type : PartitionType) (number : Nat) : Prop :=
  partition.layout = .nsg ∧
    sizeField flash partition.layout type (entryAddress partition number) ≤ inlineLimit type

instance (flash : FlashMap) (partition : Partition) (type : PartitionType) (number : Nat) :
    Decidable (IsInline flash partition type number) :=
  inferInstanceAs (Decidable (_ ∧ _))

/-- The byte `i` of the value of an entry, wherever it is. -/
def storedAt (flash : FlashMap) (partition : Partition) (type : PartitionType) (number i : Nat) : UInt8 :=
  let entry := entryAddress partition number
  if IsInline flash partition type number then
    flash.data (partition.base
      + dataAddress (entryPlace partition number) (sizeField flash partition.layout type entry) i)
  else valueAt flash partition entry i

/-- The version and the bytes of an entry by the words of the image, wherever its value is. -/
def deviceContents (flash : FlashMap) (partition : Partition) (type : PartitionType) (number : Nat) : Contents :=
  contentsOf flash partition.layout type (entryAddress partition number) (storedAt flash partition type number)
    (metadataSize (storedAt flash partition type number 0))

/-- The data of an entry, its size and its version. -/
structure StoredBlock where
  offset : Nat
  size : Nat
  version : Nat

/-- What an entry stores, if its size and offset fit the partition and its metadata. -/
def storedBlock (flash : FlashMap) (type : PartitionType) (base entry : Nat) : Option StoredBlock :=
  let size := flash.word32 (entry + 8)
  let offset := flash.word32 (entry + 12)
  if size = 0 ∨ sgPartitionSize < offset + size then none
  else
    match type with
    | .eefull =>
        let version := flash.data (base + offset)
        if size < metadataSize version then none
        else some ⟨base + offset + 1, size - metadataSize version, version.toNat⟩
    | .eelite => some ⟨base + offset, size - 1, (flash.data (base + (offset + (size - 1)))).toNat⟩

/-- `block` with what is stored. -/
def Block.show (block : Block) (stored : StoredBlock) : Block :=
  { block with data := .flash stored.offset, size := stored.size, version := stored.version }

/-! ## Decoding it -/

/-- A decoder's result for a stored block. -/
def decoded (block : Block) (stored : Option StoredBlock) : Result × Block :=
  stored.elim (.invalid, block) fun stored => (.ok, block.show stored)

theorem decodeSgBlock_eq {base entry : Nat} (hbase : base + sgPartitionSize ≤ flash.size)
    (hentry : entry + 16 ≤ flash.size) (block : Block) :
    decodeSgBlock flash (sgPartition base) type entry block
      = .ok (decoded block (storedBlock flash type base entry)) := by
  have hsize : sgPartitionSize = 0x20000 := rfl
  have hpartition : (sgPartition base).size = sgPartitionSize := rfl
  rw [decodeSgBlock, readU32_word32 (by omega), Checked.ok_bind, readU32_word32 (by omega),
    Checked.ok_bind, hpartition]
  unfold storedBlock
  simp only []
  generalize flash.word32 (entry + 8) = size
  generalize flash.word32 (entry + 12) = offset
  by_cases hfits : size = 0 ∨ sgPartitionSize < offset + size
  · rw [if_pos hfits]
    by_cases hzero : size = 0
    · rw [if_pos hzero]
      rfl
    · rw [if_neg hzero]
      by_cases hoffset : offset ≥ sgPartitionSize
      · rw [if_pos hoffset]
        rfl
      · rw [if_neg hoffset, Checked.sub_of_le (by omega), Checked.ok_bind, if_pos (by omega)]
        rfl
  · rw [if_neg hfits, if_neg (by omega), if_neg (by omega), Checked.sub_of_le (by omega),
      Checked.ok_bind, if_neg (by omega)]
    cases type with
    | eefull =>
        simp only [sgPartition]
        rw [byte_of_lt (by omega), Checked.ok_bind]
        split_ifs with hmetadata
        · rfl
        · rw [Checked.sub_of_le (by omega)]
          rfl
    | eelite =>
        simp only [sgPartition]
        rw [Checked.sub_of_le (by omega), Checked.ok_bind, Checked.add_of_lt (by omega),
          Checked.ok_bind, byte_of_lt (by omega)]
        rfl

/-- The block that a decoder has made of an entry. -/
def Block.Holds (flash : FlashMap) (block : Block) (contents : Contents) : Prop :=
  block.version = contents.version ∧ block.bytes flash = contents.bytes

theorem decodeSgBlock_holds {start block : Block} (hp : partition.InImage flash) (hsg : partition.layout = .sg)
    (hin : entryAddress partition number + 16 ≤ flash.size)
    (h : decodeSgBlock flash partition type (entryAddress partition number) start = .ok (.ok, block)) :
    block.Holds flash (deviceContents flash partition type number) := by
  have hfits := hp.fits
  have hsize : partition.size = sgPartitionSize := by
    rw [hp.size_eq, hsg]
  have hpartition : partition = sgPartition partition.base := by
    obtain ⟨base, size, layout⟩ := partition
    cases hsg
    cases hsize
    rfl
  have hinline : ¬ IsInline flash partition type number := fun hand => by
    rw [IsInline, hsg] at hand
    cases hand.1
  have hstored : storedAt flash partition type number
      = valueAt flash partition (entryAddress partition number) := funext fun i => if_neg hinline
  have hfield : sizeField flash .sg type (entryAddress partition number)
      = flash.word32 (entryAddress partition number + 8) := by simp [sizeField]
  rw [hsize] at hfits
  have hdecode : decodeSgBlock flash (sgPartition partition.base) type (entryAddress partition number) start
      = .ok (decoded start (storedBlock flash type partition.base (entryAddress partition number))) :=
    decodeSgBlock_eq hfits hin start
  rw [← hpartition, h, Except.ok.injEq] at hdecode
  unfold storedBlock at hdecode
  unfold deviceContents contentsOf
  rw [hsg, hstored]
  simp only [hfield] at hdecode ⊢
  by_cases hempty : flash.word32 (entryAddress partition number + 8) = 0 ∨
      sgPartitionSize < flash.word32 (entryAddress partition number + 12)
        + flash.word32 (entryAddress partition number + 8)
  · rw [if_pos hempty] at hdecode
    cases hdecode
  rw [if_neg hempty] at hdecode
  cases type with
  | eefull =>
      dsimp only at hdecode
      split_ifs at hdecode with hmetadata
      · cases hdecode
      · cases hdecode
        refine ⟨rfl, ?_⟩
        simp only [Block.bytes, Block.show, valueAt, Nat.add_assoc, Nat.add_zero]
  | eelite =>
      cases hdecode
      refine ⟨?_, rfl⟩
      simp only [Block.show, valueAt, Nat.add_assoc]

theorem nsgStoredSize_eq {entry : Nat} (hin : entry + 16 ≤ flash.size) :
    nsgStoredSize flash type entry = .ok (sizeField flash .nsg type entry) := by
  cases type with
  | eelite => exact readU16_word16 (by omega)
  | eefull => exact readU32_word32 (by omega)

theorem entryPlace_nsg (hp : partition.InImage flash) (hnsg : partition.layout = .nsg) :
    entryPlace partition number % 32 = 0 ∧ entryPlace partition number + 32 ≤ partition.size := by
  have hsize := hp.size_eq
  unfold entryPlace
  simp only [hnsg, nsgEitEntrySize, nsgPartitionSize, partitionBlockSize] at hsize ⊢
  omega

/-- The copy of an inline value, from byte `sourceOffset` on. -/
theorem copyNsgInlineBlock_holds {E size sourceOffset count : Nat} {start block : Block}
    (hp : partition.InImage flash) (hE : E % 32 = 0) (hlt : E < partition.size)
    (hunits : 32 * dataUnits size ≤ E) (hs : sourceOffset ≤ 1) (hcap : count ≤ blockInlineCapacity)
    (hcount : sourceOffset + count ≤ size) (hstart : start.size = count)
    (h : copyNsgInlineBlock flash partition (E - 32 * dataUnits size + padding size) sourceOffset count start
      = .ok (.ok, block)) :
    block.version = start.version ∧ block.bytes flash
      = (List.range count).map fun i => flash.data (partition.base + dataAddress E size (sourceOffset + i)) := by
  have hsize := hp.size_le
  obtain ⟨block', hcopy, hdata, hsz, hversion, hbytes⟩ := copyInlineBytes_eq hp.fits
    (show partition.size < 2 ^ 32 by omega) hs hcap
    (fun i => flash.data (partition.base + dataAddress E size (sourceOffset + i)))
    (fun i hi => by
      have hbounds := dataAddress_bounds hE hunits (show sourceOffset + i < size by omega)
      rw [stored_add_eq_dataAddress hE hunits]
      exact ⟨by omega, rfl⟩)
    0 start (fun j hj => absurd hj (Nat.not_lt_zero j))
  rw [copyNsgInlineBlock, if_neg (by omega), hcopy, Except.ok.injEq, Prod.mk.injEq] at h
  obtain ⟨-, rfl⟩ := h
  refine ⟨hversion, bytes_eq_of_inlineData hdata (by simp [hsz, hstart]) fun i hi => ?_⟩
  rw [hbytes i (by simpa using hi), List.getElem_map, List.getElem_range]

/-- The value below an entry is found if it fits there. -/
theorem nsgStoredOffset_below {E entry size : Nat} {found : Option Nat} (hE : E % 32 = 0) (hlt : E < 2 ^ 32)
    (hpos : 0 < size) (hinline : size ≤ inlineLimit type)
    (h : nsgStoredOffset flash partition type E entry size = .ok found) :
    found = none ∨ (32 * dataUnits size ≤ E ∧ found = some (E - 32 * dataUnits size + padding size)) := by
  have hlimit := inlineLimit_le type
  by_cases hfit : x85ReservedSize size ≤ E
  · obtain ⟨-, hunits⟩ := align_reserved hE (show size < 2 ^ 32 by omega) hfit
    rw [nsgStoredOffset_inline hE hlt hinline hfit, Except.ok.injEq] at h
    exact .inr ⟨hunits, h.symm⟩
  · have hreserved : nsgDataChunkSize + size + (size &&& (uint32Max - (nsgDataChunkSize - 1)))
        = x85ReservedSize size := rfl
    have hchunk : nsgDataChunkSize = 16 := rfl
    have hreservedLt : x85ReservedSize size < 2 ^ 32 := by
      rw [x85ReservedSize_eq (by omega)]
      omega
    rw [nsgStoredOffset, if_pos hinline, Checked.add_of_lt (by omega), Checked.ok_bind,
      Checked.add_of_lt (by omega), Checked.ok_bind, hreserved, if_pos (by omega)] at h
    exact .inl (Except.ok.inj h).symm

/-- The value at the offset of an entry is found if it is in the partition. -/
theorem nsgStoredOffset_behind {E entry size : Nat} {found : Option Nat} (hin : entry + 16 ≤ flash.size)
    (houtside : ¬ size ≤ inlineLimit type)
    (h : nsgStoredOffset flash partition type E entry size = .ok found) :
    found = none ∨ (flash.word32 (entry + 12) < partition.size ∧
      flash.word32 (entry + 12) + size ≤ partition.size ∧ found = some (flash.word32 (entry + 12))) := by
  rw [nsgStoredOffset, if_neg houtside, readU32_word32 (by omega), Checked.ok_bind] at h
  by_cases hoffset : flash.word32 (entry + 12) ≥ partition.size
  · rw [if_pos hoffset] at h
    exact .inl (Except.ok.inj h).symm
  rw [if_neg hoffset, Checked.sub_of_le (by omega), Checked.ok_bind] at h
  by_cases hroom : size > partition.size - flash.word32 (entry + 12)
  · rw [if_pos hroom] at h
    exact .inl (Except.ok.inj h).symm
  · rw [if_neg hroom] at h
    exact .inr ⟨by omega, by omega, (Except.ok.inj h).symm⟩

/-- An entry whose value is below it. -/
theorem decodeNsgBlock_below {start block : Block} (hp : partition.InImage flash) (hpos : 1 ≤ number)
    (hcount : number ≤ entryCount partition) (hinline : IsInline flash partition type number)
    (h : decodeNsgBlock flash partition type (entryPlace partition number) (entryAddress partition number) start
      = .ok (.ok, block)) :
    block.Holds flash (deviceContents flash partition type number) := by
  have hin := entryAddress_le hp hpos hcount
  have hfits := hp.fits
  have hmax := hp.size_le
  obtain ⟨hE, hend⟩ : entryPlace partition number % 32 = 0 ∧ entryPlace partition number + 32 ≤ partition.size :=
    entryPlace_nsg hp hinline.1
  have hstored : storedAt flash partition type number = fun i =>
      flash.data (partition.base + dataAddress (entryPlace partition number)
        (sizeField flash partition.layout type (entryAddress partition number)) i) := funext fun i => if_pos hinline
  unfold deviceContents contentsOf
  rw [hstored]
  obtain ⟨hnsg, hlimited⟩ := hinline
  rw [hnsg] at hlimited ⊢
  rw [decodeNsgBlock, nsgStoredSize_eq hin, Checked.ok_bind] at h
  generalize sizeField flash .nsg type (entryAddress partition number) = size at h hlimited ⊢
  by_cases hzero : size = 0
  · rw [if_pos hzero] at h
    cases h
  rw [if_neg hzero] at h
  dsimp only at h
  obtain ⟨found, hfound, h⟩ := exists_of_bind_eq_ok h
  have hlimit := inlineLimit_le type
  have hcapacity : blockInlineCapacity = 0x200 := rfl
  rcases nsgStoredOffset_below hE (by omega) (by omega) hlimited hfound with rfl | ⟨hunits, rfl⟩
  · cases h
  rw [decide_eq_true hlimited] at h
  cases type with
  | eefull =>
      have hbounds := dataAddress_bounds hE hunits (show 0 < size by omega)
      -- the version is the first byte of the value, found by the chunk arithmetic of the data
      have hversionOffset : nsgDataByteOffset
          (entryPlace partition number - 32 * dataUnits size + padding size) 0
          = .ok (dataAddress (entryPlace partition number) size 0) := by
        rw [← stored_add_eq_dataAddress hE hunits]
        exact nsgDataByteOffset_of_lt (by rw [stored_add_eq_dataAddress hE hunits]; omega)
      dsimp only at h
      rw [nsgVersionOffset, if_pos rfl, hversionOffset, Checked.ok_bind, if_neg (by omega),
        byte_of_lt (by omega), Checked.ok_bind] at h
      dsimp only
      generalize flash.data (partition.base + dataAddress (entryPlace partition number) size 0)
        = version at h ⊢
      have hmetadata := metadataSize_pos version
      by_cases hshort : size < metadataSize version
      · rw [if_pos hshort] at h
        cases h
      · rw [if_neg hshort, Checked.sub_of_le (by omega), Checked.ok_bind, if_pos rfl] at h
        exact copyNsgInlineBlock_holds hp hE (by omega) hunits (Nat.le_refl 1)
          (show size - metadataSize version ≤ blockInlineCapacity by omega) (by omega) rfl h
  | eelite =>
      dsimp only at h
      rw [byte_of_lt (by omega), Checked.ok_bind, if_pos rfl] at h
      obtain ⟨hversion, hbytes⟩ :=
        copyNsgInlineBlock_holds hp hE (by omega) hunits (Nat.zero_le 1)
          (show size ≤ blockInlineCapacity by omega) (by omega) rfl h
      refine ⟨hversion, hbytes.trans ?_⟩
      simp only [Nat.zero_add]

/-- An entry whose value is at its offset. -/
theorem decodeNsgBlock_behind {start block : Block} (hp : partition.InImage flash) (hnsg : partition.layout = .nsg)
    (hpos : 1 ≤ number) (hcount : number ≤ entryCount partition)
    (houtside : ¬ IsInline flash partition type number)
    (h : decodeNsgBlock flash partition type (entryPlace partition number) (entryAddress partition number) start
      = .ok (.ok, block)) :
    block.Holds flash (deviceContents flash partition type number) := by
  have hin := entryAddress_le hp hpos hcount
  have hfits := hp.fits
  have hstored : storedAt flash partition type number = valueAt flash partition (entryAddress partition number) :=
    funext fun i => if_neg houtside
  have hlarge : ¬ sizeField flash .nsg type (entryAddress partition number) ≤ inlineLimit type := fun hle =>
    houtside ⟨hnsg, hnsg ▸ hle⟩
  unfold deviceContents contentsOf
  rw [hstored, hnsg]
  rw [decodeNsgBlock, nsgStoredSize_eq hin, Checked.ok_bind] at h
  generalize sizeField flash .nsg type (entryAddress partition number) = size at h hlarge ⊢
  by_cases hzero : size = 0
  · rw [if_pos hzero] at h
    cases h
  rw [if_neg hzero] at h
  dsimp only at h
  obtain ⟨found, hfound, h⟩ := exists_of_bind_eq_ok h
  rcases nsgStoredOffset_behind hin hlarge hfound with rfl | ⟨hoffset, hroom, rfl⟩
  · cases h
  rw [decide_eq_false hlarge] at h
  cases type with
  | eefull =>
      simp only [Checked.pure_eq, Checked.ok_bind, nsgVersionOffset, Bool.false_eq_true, if_false] at h
      rw [if_neg (by omega), byte_of_lt (by omega), Checked.ok_bind] at h
      simp only [valueAt, Nat.add_zero]
      by_cases hshort : size < metadataSize
          (flash.data (partition.base + flash.word32 (entryAddress partition number + 12)))
      · rw [if_pos hshort] at h
        cases h
      · rw [if_neg hshort, Checked.sub_of_le (by omega), Checked.ok_bind] at h
        cases h
        refine ⟨rfl, ?_⟩
        simp only [Block.bytes, Nat.add_assoc]
  | eelite =>
      simp only [Checked.pure_eq, Bool.false_eq_true, if_false] at h
      rw [byte_of_lt (by omega), Checked.ok_bind] at h
      cases h
      exact ⟨rfl, rfl⟩

theorem decodeNsgBlock_holds {start block : Block} (hp : partition.InImage flash)
    (hnsg : partition.layout = .nsg) (hpos : 1 ≤ number) (hcount : number ≤ entryCount partition)
    (h : decodeNsgBlock flash partition type (entryPlace partition number) (entryAddress partition number) start
      = .ok (.ok, block)) :
    block.Holds flash (deviceContents flash partition type number) := by
  by_cases hinline : IsInline flash partition type number
  · exact decodeNsgBlock_below hp hpos hcount hinline h
  · exact decodeNsgBlock_behind hp hnsg hpos hcount hinline h

theorem decodeBlock_holds {start block : Block} (hp : partition.InImage flash) (hpos : 1 ≤ number)
    (hcount : number ≤ entryCount partition)
    (h : decodeBlock flash partition type (entryPlace partition number) (entryAddress partition number) start
      = .ok (.ok, block)) :
    block.Holds flash (deviceContents flash partition type number) := by
  unfold decodeBlock at h
  cases hlayout : partition.layout with
  | sg =>
      rw [hlayout] at h
      exact decodeSgBlock_holds hp hlayout (entryAddress_le hp hpos hcount) h
  | nsg =>
      rw [hlayout] at h
      exact decodeNsgBlock_holds hp hlayout hpos hcount h

theorem decodeBlock_result {start block : Block} {result : Result} (hp : partition.InImage flash)
    (hpos : 1 ≤ number) (hcount : number ≤ entryCount partition)
    (h : decodeBlock flash partition type (entryPlace partition number) (entryAddress partition number) start
      = .ok (result, block)) : result = .ok ∨ result = .invalid := by
  have hin := entryAddress_le hp hpos hcount
  have hsafe : Safe (decodeBlock flash partition type (entryPlace partition number)
      (entryAddress partition number) start) (Decoded partition) := by
    unfold decodeBlock
    cases hlayout : partition.layout with
    | sg => exact safe_decodeSgBlock hp hin start
    | nsg =>
        have hplace := (entryOffset_eq hp hpos hcount).2
        exact safe_decodeNsgBlock hp hin (by omega) start
  obtain ⟨r, hr, hdecoded⟩ := hsafe
  obtain rfl := Except.ok.inj (h.symm.trans hr)
  exact hdecoded.imp And.left id

/-! ## The search -/

/-- The block has been decoded from the entry. -/
def DecodedFrom (flash : FlashMap) (type : PartitionType) (partition : Partition) (number : Nat) (block : Block) :
    Prop :=
  ∃ start, decodeBlock flash partition type (entryPlace partition number) (entryAddress partition number) start
    = .ok (.ok, block)

/-- What the search of a partition ends with. -/
def SearchTakes (flash : FlashMap) (type : PartitionType) (blockId : Nat) (partition : Partition)
    (r : Result × Bool × Block) : Prop :=
  r.1 = .invalid ∨
    (r.1 = .ok ∧ r.2.1 = true ∧
      ∃ n, TakenFrom flash type blockId partition n ∧ DecodedFrom flash type partition n r.2.2) ∨
    (r.2.1 = false ∧ ∀ n, ¬ TakenFrom flash type blockId partition n)

/-- The class of the entry with a number. -/
def classAt (flash : FlashMap) (type : PartitionType) (partition : Partition) (n : Nat) : EntryClass :=
  entryClass flash partition.layout type (entryAddress partition n)

/-- A pass goes by the class of its entry. -/
theorem findPartitionPass_eq (hp : partition.InImage flash) (hpos : 1 ≤ number)
    (hcount : number ≤ entryCount partition) (matched : Bool) (block : Block) :
    findPartitionPass flash partition type blockId (entryPlace partition number) matched block =
      match classAt flash type partition number, partition.layout with
      | .malformed, .sg => .ok (.stop .invalid matched block)
      | .malformed, .nsg => .ok (.next matched block)
      | .free, .sg => .ok (.stop (searchResult matched) matched block)
      | .free, .nsg => .ok (.next matched block)
      | .inactive, _ => .ok (.next matched block)
      | .block id, layout =>
          if id ≠ blockId then .ok (.next matched block)
          else
            decodeBlock flash partition type (entryPlace partition number) (entryAddress partition number) block >>=
              fun r =>
                if r.1 ≠ .ok then .ok (.stop r.1 true r.2)
                else
                  match layout with
                  | .sg => .ok (.stop .ok true r.2)
                  | .nsg => .ok (.next true r.2) := by
  rw [findPartitionPass, ← entryAddress, classifyEntry_eq _ _ (entryAddress_le hp hpos hcount), Checked.ok_bind]
  rfl

theorem not_takenFrom_sg (hsg : partition.layout = .sg)
    (hbefore : ∀ n, 1 ≤ n → n < number → (classAt flash type partition n).PassedOver blockId)
    (hpos : 1 ≤ number)
    (hhere : number ≤ entryCount partition → ¬ (classAt flash type partition number).PassedOver blockId ∧
      classAt flash type partition number ≠ .block blockId) (n : Nat) :
    ¬ TakenFrom flash type blockId partition n := by
  intro h
  have hle := h.le
  rcases Nat.lt_trichotomy n number with hlt | rfl | hlt
  · have hpassed := hbefore n h.pos hlt
    rw [classAt, h.valid] at hpassed
    exact hpassed rfl
  · exact (hhere hle).2 h.valid
  · exact (hhere (by omega)).1 (h.first hsg number hpos hlt)

theorem findPartitionLoop_takes_sg (hp : partition.InImage flash) (hsg : partition.layout = .sg) (hpos : 1 ≤ number)
    (hbefore : ∀ n, 1 ≤ n → n < number → (classAt flash type partition n).PassedOver blockId) {block : Block}
    {r : Result × Bool × Block}
    (h : findPartitionLoop flash partition type blockId (entryCount partition) number false block = .ok r) :
    SearchTakes flash type blockId partition r := by
  generalize hmatched : false = matched at h
  fun_induction findPartitionLoop flash partition type blockId (entryCount partition) number matched block with
  | case1 number matched block hle ih =>
      subst hmatched
      rw [(entryOffset_eq hp hpos hle).1, Checked.ok_bind, findPartitionPass_eq hp hpos hle] at h
      have hnext : (classAt flash type partition number).PassedOver blockId →
          findPartitionLoop flash partition type blockId (entryCount partition) (number + 1) false block = .ok r →
          SearchTakes flash type blockId partition r := by
        intro hpassed hloop
        refine ih false block (by omega) (fun n hn hlt => ?_) rfl hloop
        rcases Nat.lt_succ_iff_lt_or_eq.mp hlt with hlt | rfl
        · exact hbefore n hn hlt
        · exact hpassed
      cases hclass : classAt flash type partition number with
      | malformed =>
          rw [hclass, hsg] at h
          cases h
          exact .inl rfl
      | free =>
          rw [hclass, hsg] at h
          cases h
          refine .inr (.inr ⟨rfl, not_takenFrom_sg hsg hbefore hpos fun _ => ?_⟩)
          rw [hclass]
          exact ⟨id, fun heq => by cases heq⟩
      | inactive =>
          rw [hclass] at h
          exact hnext (by rw [hclass]; trivial) h
      | block id =>
          rw [hclass, hsg] at h
          dsimp only at h
          by_cases hid : id ≠ blockId
          · rw [if_pos hid] at h
            exact hnext (by rw [hclass]; exact hid) h
          · rw [if_neg hid] at h
            rw [not_not] at hid
            subst hid
            obtain ⟨pass, hpass, h⟩ := exists_of_bind_eq_ok h
            obtain ⟨⟨result, block'⟩, hdecode, hpass⟩ := exists_of_bind_eq_ok hpass
            have htaken : TakenFrom flash type id partition number :=
              ⟨hpos, hle, hclass, fun _ => hbefore, fun hnsg => by rw [hsg] at hnsg; cases hnsg⟩
            rcases decodeBlock_result hp hpos hle hdecode with rfl | rfl
            · cases hpass
              cases h
              exact .inr (.inl ⟨rfl, rfl, number, htaken, block, hdecode⟩)
            · cases hpass
              cases h
              exact .inl rfl
  | case2 number matched block hgt =>
      subst hmatched
      cases h
      exact .inr (.inr ⟨rfl, not_takenFrom_sg hsg hbefore hpos fun hle => absurd hle hgt⟩)

/-- The entry that the search of an NSG partition has taken last, of those below `number`. -/
def TakenBelow (flash : FlashMap) (type : PartitionType) (blockId : Nat) (partition : Partition) (number : Nat)
    (matched : Bool) (block : Block) : Prop :=
  if matched then
    ∃ m, 1 ≤ m ∧ m < number ∧ classAt flash type partition m = .block blockId ∧
      DecodedFrom flash type partition m block ∧
      ∀ n, m < n → n < number → classAt flash type partition n ≠ .block blockId
  else ∀ n, 1 ≤ n → n < number → classAt flash type partition n ≠ .block blockId

/-- An entry of another class changes nothing. -/
theorem TakenBelow.next {matched : Bool} {block : Block}
    (h : TakenBelow flash type blockId partition number matched block)
    (hclass : classAt flash type partition number ≠ .block blockId) :
    TakenBelow flash type blockId partition (number + 1) matched block := by
  unfold TakenBelow at h ⊢
  cases matched with
  | true =>
      obtain ⟨m, hpos, hlt, hm, hdecoded, hafter⟩ := h
      refine ⟨m, hpos, by omega, hm, hdecoded, fun n hmn hn => ?_⟩
      rcases Nat.lt_succ_iff_lt_or_eq.mp hn with hn | rfl
      · exact hafter n hmn hn
      · exact hclass
  | false =>
      intro n hpos hn
      rcases Nat.lt_succ_iff_lt_or_eq.mp hn with hn | rfl
      · exact h n hpos hn
      · exact hclass

theorem findPartitionLoop_takes_nsg (hp : partition.InImage flash) (hnsg : partition.layout = .nsg)
    (hpos : 1 ≤ number) (hend : number ≤ entryCount partition + 1) {matched : Bool} {block : Block}
    {r : Result × Bool × Block} (hbelow : TakenBelow flash type blockId partition number matched block)
    (h : findPartitionLoop flash partition type blockId (entryCount partition) number matched block = .ok r) :
    SearchTakes flash type blockId partition r := by
  fun_induction findPartitionLoop flash partition type blockId (entryCount partition) number matched block with
  | case1 number matched block hle ih =>
      rw [(entryOffset_eq hp hpos hle).1, Checked.ok_bind, findPartitionPass_eq hp hpos hle] at h
      have hnext : classAt flash type partition number ≠ .block blockId →
          findPartitionLoop flash partition type blockId (entryCount partition) (number + 1) matched block = .ok r →
          SearchTakes flash type blockId partition r := fun hclass hloop =>
        ih matched block (by omega) (by omega) (hbelow.next hclass) hloop
      cases hclass : classAt flash type partition number with
      | malformed =>
          rw [hclass, hnsg] at h
          exact hnext (by rw [hclass]; exact fun heq => by cases heq) h
      | free =>
          rw [hclass, hnsg] at h
          exact hnext (by rw [hclass]; exact fun heq => by cases heq) h
      | inactive =>
          rw [hclass] at h
          exact hnext (by rw [hclass]; exact fun heq => by cases heq) h
      | block id =>
          rw [hclass, hnsg] at h
          dsimp only at h
          by_cases hid : id ≠ blockId
          · rw [if_pos hid] at h
            exact hnext (by rw [hclass]; exact fun heq => hid (EntryClass.block.inj heq)) h
          · rw [if_neg hid] at h
            rw [not_not] at hid
            subst hid
            obtain ⟨pass, hpass, h⟩ := exists_of_bind_eq_ok h
            obtain ⟨⟨result, block'⟩, hdecode, hpass⟩ := exists_of_bind_eq_ok hpass
            -- the search goes on behind a match: a later entry of the block takes its place
            rcases decodeBlock_result hp hpos hle hdecode with rfl | rfl
            · cases hpass
              refine ih true block' (by omega) (by omega) ?_ h
              exact ⟨number, hpos, Nat.lt_succ_self _, hclass, ⟨block, hdecode⟩, fun n hlt hn => by omega⟩
            · cases hpass
              cases h
              exact .inl rfl
  | case2 number matched block hgt =>
      cases h
      cases matched with
      | true =>
          obtain ⟨m, hm, hlt, hclass, hdecoded, hafter⟩ := hbelow
          refine .inr (.inl ⟨rfl, rfl, m, ⟨hm, by omega, hclass, fun hsg => ?_, fun _ n hmn hn => ?_⟩, hdecoded⟩)
          · rw [hnsg] at hsg
            cases hsg
          · exact hafter n hmn (by omega)
      | false =>
          refine .inr (.inr ⟨rfl, fun n hn => ?_⟩)
          have hle := hn.le
          exact hbelow n hn.pos (by omega) hn.valid

theorem findPartitionBlock_takes (hp : partition.InImage flash) {block : Block} {r : Result × Bool × Block}
    (h : findPartitionBlock flash partition type blockId block = .ok r) :
    SearchTakes flash type blockId partition r := by
  have hone : 1 ≤ partition.size / eitEntrySize partition.layout := by
    rw [hp.size_eq]
    cases partition.layout <;> decide
  rw [findPartitionBlock, Checked.sub_of_le hone, Checked.ok_bind, ← entryCount] at h
  cases hlayout : partition.layout with
  | sg => exact findPartitionLoop_takes_sg hp hlayout (Nat.le_refl 1) (fun n hn hlt => by omega) h
  | nsg =>
      have hbelow : TakenBelow flash type blockId partition 1 false block := fun n hn hlt => by omega
      exact findPartitionLoop_takes_nsg hp hlayout (Nat.le_refl 1) (by omega) hbelow h

/-- What the search of the image ends with. -/
def ImageTakes (flash : FlashMap) (type : PartitionType) (blockId : Nat) (r : Result × Bool × Bool × Block) :
    Prop :=
  r.1 = .invalid ∨ (r.1 = .blockNotFound ∧ r.2.2.1 = false) ∨
    (r.1 = .ok ∧ ∃ partition number, partition.InImage flash ∧
      DeviceEntry flash type blockId partition number ∧ DecodedFrom flash type partition number r.2.2.2)

theorem findFlashLoop_takes {place : Nat} {partitionFound : Bool} {block : Block} {r : Result × Bool × Bool × Block}
    (hsize : flash.size < 2 ^ 32)
    (hbefore : ∀ place' < place, ∀ other, partitionIn flash type (place' * partitionBlockSize) = some other →
      ∀ n, ¬ TakenFrom flash type blockId other n)
    (h : findFlashLoop flash type blockId (flash.size / partitionBlockSize) place partitionFound false block
      = .ok r) : ImageTakes flash type blockId r := by
  generalize hmatched : false = matched at h
  fun_induction findFlashLoop flash type blockId (flash.size / partitionBlockSize) place partitionFound matched
    block with
  | case1 place partitionFound matched block hlt ihnone ihsome =>
      subst hmatched
      have hfits : place * partitionBlockSize + partitionBlockSize ≤ flash.size := by
        rw [← Nat.succ_mul]
        exact (Nat.mul_le_mul_right _ hlt).trans (Nat.div_mul_le_self _ _)
      have hnext : (∀ other, partitionIn flash type (place * partitionBlockSize) = some other →
          ∀ n, ¬ TakenFrom flash type blockId other n) →
          ∀ place' < place + 1, ∀ other, partitionIn flash type (place' * partitionBlockSize) = some other →
            ∀ n, ¬ TakenFrom flash type blockId other n := by
        intro hhere place' hle
        rcases Nat.lt_succ_iff_lt_or_eq.mp hle with hlt' | rfl
        · exact hbefore place' hlt'
        · exact hhere
      rw [Checked.mul_of_lt (by simp only [partitionBlockSize] at hfits ⊢; omega), Checked.ok_bind,
        partitionAt_eq_partitionIn type hfits, Checked.ok_bind] at h
      cases hin : partitionIn flash type (place * partitionBlockSize) with
      | none =>
          rw [hin] at h
          refine ihnone (hnext ?_) rfl h
          rw [hin]
          exact fun other hother => by cases hother
      | some partition =>
          rw [hin] at h
          have hp := inImage_of_partitionIn hfits hin
          obtain ⟨⟨result, matched, block'⟩, hsearch, h⟩ := exists_of_bind_eq_ok h
          dsimp only at h
          -- the search ends in the first partition with an entry to take, or with a malformed one
          rcases findPartitionBlock_takes hp hsearch with hinvalid | ⟨hok, hmatch, n, htaken, hdecoded⟩ | ⟨hmatch, hno⟩
          · obtain rfl : result = .invalid := hinvalid
            cases h
            exact .inl rfl
          · obtain rfl : result = .ok := hok
            obtain rfl : matched = true := hmatch
            cases h
            exact .inr (.inr ⟨rfl, partition, n, hp, ⟨htaken, place, hlt, hin, hbefore⟩, hdecoded⟩)
          · obtain rfl : matched = false := hmatch
            by_cases hinvalid : result = .invalid
            · rw [if_pos hinvalid] at h
              cases h
              exact .inl hinvalid
            · rw [if_neg hinvalid, if_neg Bool.false_ne_true] at h
              refine ihsome false block' (hnext fun other hother => ?_) rfl h
              rw [hin, Option.some.injEq] at hother
              exact hother ▸ hno
  | case2 place partitionFound matched block hge =>
      subst hmatched
      cases h
      exact .inr (.inl ⟨rfl, rfl⟩)

/-- **What a search takes.** A search that ends with `OK` has taken an entry, and its block is what that entry
stores. -/
theorem eepromFindBlockInMemory_takes {start block : Block} (hsize : flash.size < 2 ^ 32)
    (h : eepromFindBlockInMemory flash type blockId start = .ok (.ok, block)) :
    ∃ partition number, partition.InImage flash ∧ DeviceEntry flash type blockId partition number ∧
      block.Holds flash (deviceContents flash partition type number) := by
  obtain ⟨⟨result, partitionFound, matched, block'⟩, hloop, h⟩ := exists_of_bind_eq_ok h
  have htakes : ImageTakes flash type blockId (result, partitionFound, matched, block') :=
    findFlashLoop_takes hsize (fun place' hlt => absurd hlt (Nat.not_lt_zero place')) hloop
  dsimp only at h
  rcases htakes with hinvalid | ⟨hmissing, hmatch⟩ | ⟨hok, partition, number, hp, hentry, start', hdecode⟩
  · obtain rfl : result = .invalid := hinvalid
    cases h
  · obtain rfl : result = .blockNotFound := hmissing
    obtain rfl : matched = false := hmatch
    cases partitionFound with
    | false => cases h
    | true => cases h
  · obtain rfl : result = .ok := hok
    have hblock : block = block' := by
      by_cases hmatched : matched = true
      · rw [if_pos (.inr hmatched)] at h
        cases h
        rfl
      · rw [if_neg (not_or.mpr ⟨nofun, hmatched⟩)] at h
        cases partitionFound with
        | false => cases h
        | true => cases h
    subst hblock
    exact ⟨partition, number, hp, hentry, decodeBlock_holds hp hentry.taken.pos hentry.taken.le hdecode⟩

end Pmb887x.Eeprom
