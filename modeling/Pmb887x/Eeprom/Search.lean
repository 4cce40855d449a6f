import Pmb887x.Eeprom.Decode

set_option autoImplicit false

/-! # Searching a partition of inline entries

The search of an NSG partition looks at every 32-byte unit, at those that hold data too. `searchBelow`
is the search from one unit down: a unit that is no entry of the block is passed over, an entry of it
becomes the current match. In an image that is one NSG partition with erased upper halves, the
search of the image is the search of that partition (`eepromFindBlockInMemory_nsg`). -/

namespace Pmb887x.Eeprom

open Library

variable {flash : FlashMap} {type : PartitionType}

/-! ## The units of a history -/

/-- The ids of the blocks of a partition type. -/
def PartitionType.HoldsId (type : PartitionType) (id : Nat) : Prop :=
  match type with
  | .eelite => id < eefullBlockIdBase
  | .eefull => eefullBlockIdBase ≤ id ∧ id < 2 ^ 32

/-- A unit is only ever taken for an entry of a block of its type. -/
theorem holdsId_of_unitBlockId {unit : List UInt8} {id : Nat}
    (h : unitBlockId type unit = some id) : type.HoldsId id := by
  unfold unitBlockId at h
  split at h
  · cases type with
    | eelite =>
        dsimp only at h
        split at h
        · cases h
        · next hmax =>
          obtain rfl := Option.some.inj h
          simp only [maximumId, eefullBlockIdBase] at hmax
          simp only [PartitionType.HoldsId, eefullBlockIdBase]
          omega
    | eefull =>
        dsimp only at h
        split at h
        · cases h
        · next hmax =>
          obtain rfl := Option.some.inj h
          simp only [maximumId, uint32Max, eefullBlockIdBase] at hmax
          simp only [PartitionType.HoldsId, eefullBlockIdBase]
          omega
  · cases h

theorem unitAt_eq_cons (data : Image) (offset : Nat) :
    unitAt data offset = data offset :: (unitAt data offset).drop 1 := rfl

/-- An erased first byte rules the valid state out. -/
theorem unitBlockId_erased {data : Image} {offset : Nat} (h : data offset = 0xFF) :
    unitBlockId type (unitAt data offset) = none := by
  unfold unitBlockId
  refine if_neg (fun hstate => ?_)
  have hlow : ofLeBytes ((unitAt data offset).take 4) % 2 ^ 8 = 255 := by
    rw [unitAt_eq_cons, h, List.take_succ_cons, ofLeBytes]
    simp
  have hmod := congrArg (· % 2 ^ 8) hstate
  simp only [Nat.and_mod_two_pow, hlow] at hmod
  exact absurd hmod (by decide)

/-- Data chunk `j` of a payload, counted from the end: 16 bytes that fill a lower half. -/
def InlineEntry.chunk (e : InlineEntry) (j : Nat) : List UInt8 :=
  (e.payload.drop (e.payload.length - 16 * j)).take 16

theorem unitAt_chunk {data : Image} {entryOffset : Nat} {e : InlineEntry}
    (hlaid : EntryLaid data type entryOffset e)
    (hunits : 32 * dataUnits e.payload.length ≤ entryOffset) {j : Nat} (hj : 1 ≤ j)
    (hfull : 16 * j ≤ e.payload.length) : unitAt data (entryOffset - 32 * j) = e.chunk j := by
  have hpad := padding_spec e.payload.length
  apply List.ext_getElem
  · simp only [unitAt, InlineEntry.chunk, List.length_map, List.length_range, List.length_take,
      List.length_drop]
    omega
  · intro k hk hk'
    simp only [unitAt, List.length_map, List.length_range] at hk
    have hbyte := hlaid.data (e.payload.length - 16 * j + k) (by omega)
    have haddress : dataAddress entryOffset e.payload.length (e.payload.length - 16 * j + k)
        = entryOffset - 32 * j + k := by
      simp only [dataAddress]
      omega
    rw [haddress] at hbyte
    simp [unitAt, InlineEntry.chunk, hbyte]

/-- A unit that is not full starts erased. -/
theorem unitBlockId_short {data : Image} {entryOffset : Nat} {e : InlineEntry}
    (hlaid : EntryLaid data type entryOffset e) {j : Nat}
    (hj : j ≤ dataUnits e.payload.length) (hshort : e.payload.length < 16 * j) :
    unitBlockId type (unitAt data (entryOffset - 32 * j)) = none := by
  have hpad := padding_spec e.payload.length
  obtain rfl : j = dataUnits e.payload.length := by
    simp only [dataUnits] at hj ⊢
    omega
  exact unitBlockId_erased (hlaid.gap (by omega))

/-- The unit of an entry. -/
theorem unitBlockId_entry {data : Image} {entryOffset : Nat} {e : InlineEntry}
    (hlaid : EntryLaid data type entryOffset e) (hid : e.valid = true → type.HoldsId e.id) :
    unitBlockId type (unitAt data entryOffset) = if e.valid then some e.id else none := by
  have hfield : ∀ {offset : Nat} {bytes : List UInt8}, HoldsAt data offset bytes →
      (List.range bytes.length).map (fun k => data (offset + k)) = bytes := by
    intro offset bytes h
    apply List.ext_getElem
    · simp
    · intro i hi hi'
      simp [h i hi']
  have hstate : (unitAt data entryOffset).take 4 = leBytes 4 e.state := hfield hlaid.state
  have hvalue : ofLeBytes (leBytes 4 e.state) = e.state :=
    ofLeBytes_leBytes_of_lt (by unfold InlineEntry.state; split <;> decide)
  unfold unitBlockId
  rw [hstate, hvalue]
  cases hvalid : e.valid with
  | false =>
      refine if_neg ?_
      simp only [InlineEntry.state, hvalid]
      decide
  | true =>
      have hin := hid hvalid
      rw [if_pos (by simp only [InlineEntry.state, hvalid]; decide), if_pos rfl]
      cases type with
      | eelite =>
          have hbytes : ((unitAt data entryOffset).drop 4).take 2 = leBytes 2 e.id :=
            hfield hlaid.id
          simp only [PartitionType.HoldsId, eefullBlockIdBase] at hin
          simp only [hbytes, maximumId, eefullBlockIdBase]
          rw [ofLeBytes_leBytes_of_lt (by omega), if_neg (by omega)]
      | eefull =>
          have hbytes : ((unitAt data entryOffset).drop 4).take 4 = leBytes 4 (sub32 e.id 5000) :=
            hfield hlaid.id
          simp only [PartitionType.HoldsId, eefullBlockIdBase] at hin
          simp only [hbytes, maximumId, uint32Max, eefullBlockIdBase]
          rw [sub32_of_le hin.1 hin.2, ofLeBytes_leBytes_of_lt (by omega), if_neg (by omega),
            Nat.sub_add_cancel hin.1]

/-! ## Stepping down the units -/

/-- The rest of the search once all units from `top` on have been looked at. -/
def searchBelow (flash : FlashMap) (type : PartitionType) (blockId top : Nat) (matched : Bool)
    (block : Block) : Checked (Result × Bool × Block) :=
  findPartitionLoop flash nsgPartition type blockId (nsgPartitionSize / 32 - 1)
    ((nsgPartitionSize - top) / 32) matched block

theorem findPartitionBlock_nsg (flash : FlashMap) (type : PartitionType) (blockId : Nat)
    (block : Block) : findPartitionBlock flash nsgPartition type blockId block
      = searchBelow flash type blockId (nsgPartitionSize - 32) false block := by
  have hcount : nsgPartition.size / eitEntrySize nsgPartition.layout = nsgPartitionSize / 32 := rfl
  have hnumber : (nsgPartitionSize - (nsgPartitionSize - 32)) / 32 = 1 := by decide
  rw [findPartitionBlock, searchBelow, hcount, hnumber, Checked.sub_of_le (by decide),
    Checked.ok_bind]

section Search

variable {blockId top : Nat} {matched : Bool} {block : Block}

theorem searchBelow_zero :
    searchBelow flash type blockId 0 matched block = .ok (searchResult matched, matched, block) := by
  rw [searchBelow, findPartitionLoop, if_neg (by decide)]
  rfl

theorem searchBelow_step (ht : top % 32 = 0) (hpos : 32 ≤ top) (hle : top + 32 ≤ nsgPartitionSize) :
    searchBelow flash type blockId top matched block
      = findPartitionPass flash nsgPartition type blockId (top - 32) matched block >>= fun pass =>
          match pass with
          | .next matched block => searchBelow flash type blockId (top - 32) matched block
          | .stop result matched block => pure (result, matched, block) := by
  simp only [nsgPartitionSize, partitionBlockSize] at hle
  have hnext : (nsgPartitionSize - (top - 32)) / 32 = (nsgPartitionSize - top) / 32 + 1 := by
    simp only [nsgPartitionSize, partitionBlockSize]
    omega
  have hoffset : entryOffset nsgPartition ((nsgPartitionSize - top) / 32) = .ok (top - 32) := by
    simp only [entryOffset, nsgPartition, eitEntrySize, nsgEitEntrySize, nsgPartitionSize,
      partitionBlockSize]
    rw [Checked.mul_of_lt (by omega), Checked.ok_bind, Checked.sub_of_le (by omega),
      Checked.ok_bind, Checked.sub_of_le (by omega)]
    congr 1
    omega
  have hnumber : (nsgPartitionSize - top) / 32 ≤ nsgPartitionSize / 32 - 1 := by
    simp only [nsgPartitionSize, partitionBlockSize]
    omega
  rw [searchBelow, findPartitionLoop, if_pos hnumber, hoffset, Checked.ok_bind]
  congr 1
  funext pass
  cases pass with
  | next matched block => simp only [searchBelow, hnext]
  | stop result matched block => rfl

theorem searchBelow_skip (hsize : flash.size = nsgPartitionSize) (ht : top % 32 = 0)
    (hpos : 32 ≤ top) (hle : top + 32 ≤ nsgPartitionSize)
    (hunit : unitBlockId type (unitAt flash.data (top - 32)) ≠ some blockId) :
    searchBelow flash type blockId top matched block
      = searchBelow flash type blockId (top - 32) matched block := by
  have hbase : nsgPartition.base + (top - 32) = top - 32 := Nat.zero_add _
  obtain ⟨seen, hseen, hblock⟩ :=
    classifyEntry_nsg type (show top - 32 + 16 ≤ flash.size by omega)
  have hpass : findPartitionPass flash nsgPartition type blockId (top - 32) matched block
      = .ok (.next matched block) := by
    simp only [findPartitionPass, hbase, show nsgPartition.layout = .nsg from rfl, hseen,
      Checked.ok_bind]
    cases seen with
    | malformed => rfl
    | free => rfl
    | inactive => rfl
    | block id =>
        refine if_pos (fun hid => hunit ?_)
        rw [← hid]
        exact (hblock id).1 rfl
  rw [searchBelow_step ht hpos hle, hpass, Checked.ok_bind]

/-- Units that are no entries of the block are passed over. -/
theorem searchBelow_skip_units (hsize : flash.size = nsgPartitionSize) (ht : top % 32 = 0)
    (hle : top + 32 ≤ nsgPartitionSize) (n : Nat) (hn : 32 * n ≤ top)
    (hunits : ∀ j, 1 ≤ j → j ≤ n →
      unitBlockId type (unitAt flash.data (top - 32 * j)) ≠ some blockId) :
    searchBelow flash type blockId top matched block
      = searchBelow flash type blockId (top - 32 * n) matched block := by
  induction n with
  | zero => rfl
  | succ n ih =>
      rw [ih (by omega) (fun j hj hjn => hunits j hj (by omega)),
        searchBelow_skip hsize (by omega) (by omega) (by omega)
          (by
            rw [show top - 32 * n - 32 = top - 32 * (n + 1) by omega]
            exact hunits (n + 1) (by omega) (Nat.le_refl _))]
      congr 1

theorem searchBelow_unmatched (matched : Bool) (block : Block)
    (hsize : flash.size = nsgPartitionSize) (ht : top % 32 = 0) (hle : top + 32 ≤ nsgPartitionSize)
    (hunits : ∀ offset, offset % 32 = 0 → offset < top →
      unitBlockId type (unitAt flash.data offset) ≠ some blockId) :
    searchBelow flash type blockId top matched block
      = .ok (searchResult matched, matched, block) := by
  rw [searchBelow_skip_units hsize ht hle (top / 32) (by omega)
    (fun j hj hjn => hunits _ (by omega) (by omega)), show top - 32 * (top / 32) = 0 by omega,
    searchBelow_zero]

/-- A unit that reads as an entry of the block becomes the current match if it decodes. -/
theorem searchBelow_decode (hsize : flash.size = nsgPartitionSize) (ht : top % 32 = 0)
    (hpos : 32 ≤ top) (hle : top + 32 ≤ nsgPartitionSize)
    (hunit : unitBlockId type (unitAt flash.data (top - 32)) = some blockId) {block' : Block}
    (hdecode : decodeNsgBlock flash nsgPartition type (top - 32) (nsgPartition.base + (top - 32))
      block = .ok (.ok, block')) :
    searchBelow flash type blockId top matched block
      = searchBelow flash type blockId (top - 32) true block' := by
  have hbase : nsgPartition.base + (top - 32) = top - 32 := Nat.zero_add _
  obtain ⟨seen, hseen, hblock⟩ :=
    classifyEntry_nsg type (show top - 32 + 16 ≤ flash.size by omega)
  obtain rfl := (hblock blockId).2 hunit
  have hpass : findPartitionPass flash nsgPartition type blockId (top - 32) matched block
      = .ok (.next true block') := by
    rw [hbase] at hdecode
    simp only [findPartitionPass, hbase, show nsgPartition.layout = .nsg from rfl, hseen,
      Checked.ok_bind, decodeBlock, hdecode, ne_eq, not_true_eq_false, if_false]
    rfl
  rw [searchBelow_step ht hpos hle, hpass, Checked.ok_bind]

/-- An entry of the block that was laid down becomes the current match. -/
theorem searchBelow_match (matched : Bool) (block : Block)
    (hsize : flash.size = nsgPartitionSize) (ht : top % 32 = 0)
    (hle : top + 32 ≤ nsgPartitionSize) {e : InlineEntry}
    (hlaid : EntryLaid flash.data type (top - 32) e)
    (hfit : 32 + x85ReservedSize e.payload.length ≤ top) (hok : e.SizeOk type)
    (hunit : unitBlockId type (unitAt flash.data (top - 32)) = some blockId) :
    ∃ block', block'.Shows flash type e ∧
      searchBelow flash type blockId top matched block
        = searchBelow flash type blockId (top - 32) true block' := by
  obtain ⟨block', hdecode, hshows⟩ := decodeNsgBlock_laid hsize hlaid (by omega) (by omega)
    (by omega) hok block
  exact ⟨block', hshows, searchBelow_decode hsize ht (by omega) hle hunit hdecode⟩

end Search

/-! ## The partition in its image -/

section Image

variable {blockId : Nat} {block : Block}

theorem byte_congr {flash' : FlashMap} (hsize : flash.size = flash'.size) {a : Nat}
    (h : flash.data a = flash'.data a) : flash.byte a = flash'.byte a := by
  rw [FlashMap.byte, FlashMap.byte, hsize, h]

/-- A header is judged by its own bytes. -/
theorem partitionHeaderMatches_congr {flash' : FlashMap} {header size : Nat} {name : List UInt8}
    (hsize : flash.size = flash'.size) (hs : 16 ≤ size) (hn : name.length = 8)
    (h : ∀ a, header ≤ a → a < header + size → flash.data a = flash'.data a) :
    partitionHeaderMatches flash header size name
      = partitionHeaderMatches flash' header size name := by
  have hname : ∀ (name : List UInt8) (i : Nat), i + name.length ≤ size →
      nameMatches flash header i name = nameMatches flash' header i name := by
    intro name
    induction name with
    | nil => intro i _; rfl
    | cons c rest ih =>
        intro i hi
        simp only [List.length_cons] at hi
        rw [nameMatches, nameMatches, byte_congr hsize (h _ (by omega) (by omega)),
          ih (i + 1) (by omega)]
  have herased : ∀ i, erasedFrom flash header size i = erasedFrom flash' header size i := by
    intro i
    fun_induction erasedFrom flash header size i with
    | case1 i hlt ih =>
        rw [erasedFrom.eq_def flash', if_pos hlt, byte_congr hsize (h _ (by omega) (by omega)), ih]
    | case2 i hge => rw [erasedFrom.eq_def flash', if_neg hge]
  rw [partitionHeaderMatches, partitionHeaderMatches, hname name 0 (by omega), readU16, readU16,
    readU32, readU32, herased, byte_congr hsize (h (header + 10) (by omega) (by omega)),
    byte_congr hsize (h (header + 10 + 1) (by omega) (by omega)),
    byte_congr hsize (h (header + 12) (by omega) (by omega)),
    byte_congr hsize (h (header + 12 + 1) (by omega) (by omega)),
    byte_congr hsize (h (header + 12 + 2) (by omega) (by omega)),
    byte_congr hsize (h (header + 12 + 3) (by omega) (by omega))]

/-- What stands at the start of a 64 KiB block may look like an SG header, but the first entry of
    such a partition lies in an upper half, which is erased: nothing is found there. -/
theorem findPartitionBlock_sg (hsize : flash.size = nsgPartitionSize)
    (hupper : ∀ a, 16 ≤ a % 32 → flash.data a = 0xFF) {base : Nat} (hb : base % 32 = 0)
    (hfits : base + sgPartitionSize ≤ flash.size) :
    findPartitionBlock flash { base := base, size := sgPartitionSize, layout := .sg } type blockId
      block = .ok (.blockNotFound, false, block) := by
  simp only [sgPartitionSize, partitionBlockSize] at hfits
  have hoffset : entryOffset { base := base, size := sgPartitionSize, layout := .sg } 1
      = .ok 0x1FFF0 := by
    simp only [entryOffset, eitEntrySize, sgEitEntrySize, sgPartitionSize, partitionBlockSize]
    rw [Checked.mul_of_lt (by decide), Checked.ok_bind, Checked.sub_of_le (by decide),
      Checked.ok_bind]
    rfl
  have hclass : classifyEntry flash .sg type (base + 0x1FFF0) = .ok .free := by
    rw [classifyEntry, readU32_of_le (by omega), hupper _ (by omega), hupper _ (by omega),
      hupper _ (by omega), hupper _ (by omega), Checked.ok_bind]
    rfl
  simp only [findPartitionBlock, eitEntrySize]
  rw [Checked.sub_of_le (by decide), Checked.ok_bind, findPartitionLoop, if_pos (by decide),
    hoffset, Checked.ok_bind, findPartitionPass]
  simp only [hclass, Checked.ok_bind]
  rfl

section Loop

variable {blockCount blockIndex : Nat} {partitionFound matched : Bool}

theorem findFlashLoop_none (hlt : blockIndex < blockCount)
    (hmul : blockIndex * partitionBlockSize < 2 ^ 32)
    (hfound : partitionAt flash type (blockIndex * partitionBlockSize) = .ok none) :
    findFlashLoop flash type blockId blockCount blockIndex partitionFound matched block
      = findFlashLoop flash type blockId blockCount (blockIndex + 1) partitionFound matched
        block := by
  conv_lhs => rw [findFlashLoop]
  rw [if_pos hlt, Checked.mul_of_lt hmul, Checked.ok_bind, hfound, Checked.ok_bind]

theorem findFlashLoop_unmatched {partition : Partition} {block' : Block}
    (hlt : blockIndex < blockCount) (hmul : blockIndex * partitionBlockSize < 2 ^ 32)
    (hfound : partitionAt flash type (blockIndex * partitionBlockSize) = .ok (some partition))
    (hsearch : findPartitionBlock flash partition type blockId block
      = .ok (.blockNotFound, false, block')) :
    findFlashLoop flash type blockId blockCount blockIndex partitionFound matched block
      = findFlashLoop flash type blockId blockCount (blockIndex + 1) true false block' := by
  conv_lhs => rw [findFlashLoop]
  rw [if_pos hlt, Checked.mul_of_lt hmul, Checked.ok_bind, hfound, Checked.ok_bind]
  dsimp only
  rw [hsearch, Checked.ok_bind]
  dsimp only
  rw [if_neg (by decide), if_neg (by decide)]

end Loop

/-- The first three blocks of the image hold nothing to be found. -/
theorem findFlashLoop_skip (type : PartitionType) (blockId : Nat) (block : Block)
    (hsize : flash.size = nsgPartitionSize) (hupper : ∀ a, 16 ≤ a % 32 → flash.data a = 0xFF)
    {blockIndex : Nat} (hi : blockIndex < 3) (partitionFound : Bool) :
    ∃ partitionFound', findFlashLoop flash type blockId 4 blockIndex partitionFound false block
      = findFlashLoop flash type blockId 4 (blockIndex + 1) partitionFound' false block := by
  have hstart : blockIndex * partitionBlockSize = 0x10000 * blockIndex := by
    rw [partitionBlockSize, Nat.mul_comm]
  have hblocks : partitionBlockSize = 0x10000 := rfl
  have hpartition : nsgPartitionSize = 0x40000 := rfl
  obtain ⟨found, hfound, hin⟩ := safe_partitionAt type
    (show blockIndex * partitionBlockSize + partitionBlockSize ≤ flash.size by omega)
  cases found with
  | none => exact ⟨_, findFlashLoop_none (by omega) (by omega) hfound⟩
  | some partition =>
      -- too low for an NSG partition, so it is an SG one
      obtain ⟨base, size, layout⟩ := partition
      obtain ⟨hfits, hlayout⟩ := hin _ rfl
      have hnsg : nsgPartitionMatches flash type (blockIndex * partitionBlockSize) = .ok false := by
        unfold nsgPartitionMatches
        rw [if_neg (by omega), Checked.pure_eq]
      obtain ⟨rfl, rfl, rfl⟩ : base = blockIndex * partitionBlockSize ∧ size = sgPartitionSize ∧
          layout = .sg := by
        rw [partitionAt] at hfound
        cases hsg : sgPartitionMatches flash type (blockIndex * partitionBlockSize) with
        | error f =>
            rw [hsg] at hfound
            cases hfound
        | ok sg =>
            rw [hsg, Checked.ok_bind, hnsg, Checked.ok_bind] at hfound
            cases sg with
            | false => cases hfound
            | true =>
                cases hfound
                exact ⟨rfl, rfl, rfl⟩
      exact ⟨_, findFlashLoop_unmatched (by omega) (by omega) hfound
        (findPartitionBlock_sg hsize hupper (by omega) hfits)⟩

/-- A search of the whole image is a search of its one NSG partition. -/
theorem eepromFindBlockInMemory_nsg (hsize : flash.size = nsgPartitionSize)
    (hupper : ∀ a, 16 ≤ a % 32 → flash.data a = 0xFF)
    (hheader : partitionHeaderMatches flash (nsgPartitionSize - nsgHeaderSize) nsgHeaderSize
      (partitionName type) = .ok true)
    {matched : Bool} {block' : Block}
    (hsearch : findPartitionBlock flash nsgPartition type blockId block
      = .ok (searchResult matched, matched, block')) :
    eepromFindBlockInMemory flash type blockId block = .ok (searchResult matched, block') := by
  have hsg : sgPartitionMatches flash type (3 * partitionBlockSize) = .ok false := by
    rw [sgPartitionMatches, if_pos (by rw [hsize]; decide),
      Checked.sub_of_le (by rw [hsize]; decide), Checked.ok_bind, if_neg (by rw [hsize]; decide)]
    rfl
  have hnsg : nsgPartitionMatches flash type (3 * partitionBlockSize) = .ok true := by
    rw [nsgPartitionMatches, if_pos (by decide)]
    exact hheader
  have hfound : partitionAt flash type (3 * partitionBlockSize) = .ok (some nsgPartition) := by
    rw [partitionAt, hsg, Checked.ok_bind, if_neg (by decide), hnsg, Checked.ok_bind, if_pos rfl]
    rfl
  obtain ⟨found₁, h₁⟩ := findFlashLoop_skip type blockId block hsize hupper (show 0 < 3 by decide) false
  obtain ⟨found₂, h₂⟩ := findFlashLoop_skip type blockId block hsize hupper (show 1 < 3 by decide) found₁
  obtain ⟨found₃, h₃⟩ := findFlashLoop_skip type blockId block hsize hupper (show 2 < 3 by decide) found₂
  rw [eepromFindBlockInMemory, findFlashBlock, hsize,
    show nsgPartitionSize / partitionBlockSize = 4 from rfl, h₁, h₂, h₃, findFlashLoop,
    if_pos (by decide), Checked.mul_of_lt (by decide), Checked.ok_bind, hfound, Checked.ok_bind]
  dsimp only
  rw [hsearch, Checked.ok_bind]
  cases matched with
  | true => rfl
  | false =>
      have hend : findFlashLoop flash type blockId 4 4 true false block'
          = .ok (.blockNotFound, true, false, block') := by
        rw [findFlashLoop, if_neg (by decide)]
        rfl
      exact congrArg (· >>= _) hend

end Image

end Pmb887x.Eeprom
