import Pmb887x.Eeprom.InlineWriter

set_option autoImplicit false

/-! # Reading inline entries back

What the parser sees in one 32-byte unit of an NSG partition depends on its lower half alone
(`classifyEntry_nsg`), and an entry that the writer has laid down decodes to the version and the
payload it was written with (`decodeNsgBlock_laid`). -/

namespace Pmb887x.Eeprom

open Library

/-! ## What a unit reads as -/

/-- The lower half of a unit. -/
def unitAt (flash : Image) (offset : Nat) : List UInt8 :=
  (List.range 16).map (fun k => flash (offset + k))

/-- The block a unit is taken for an entry of, given its lower half. -/
def unitBlockId (type : PartitionType) (unit : List UInt8) : Option Nat :=
  if ofLeBytes (unit.take 4) &&& entryStateMask = entryValid then
    match type with
    | .eelite =>
        let id := ofLeBytes ((unit.drop 4).take 2)
        if id > maximumId .eelite then none else some id
    | .eefull =>
        let id := ofLeBytes ((unit.drop 4).take 4)
        if id > maximumId .eefull then none else some (id + eefullBlockIdBase)
  else none

variable {flash : FlashMap} {type : PartitionType}

theorem classifyEntry_nsg (type : PartitionType) {offset : Nat} (h : offset + 16 ≤ flash.size) :
    ∃ seen, classifyEntry flash .nsg type offset = .ok seen ∧
      ∀ id, seen = .block id ↔ unitBlockId type (unitAt flash.data offset) = some id := by
  have hword : ofLeBytes ((unitAt flash.data offset).take 4) = ofLeBytes [flash.data offset,
      flash.data (offset + 1), flash.data (offset + 2), flash.data (offset + 3)] := rfl
  rw [classifyEntry, readU32_of_le (by omega), Checked.ok_bind]
  unfold unitBlockId
  rw [hword]
  generalize ofLeBytes [flash.data offset, flash.data (offset + 1), flash.data (offset + 2),
    flash.data (offset + 3)] &&& entryStateMask = state
  by_cases hvalid : state = entryValid
  · subst hvalid
    have hstate : isEntryStateValid entryValid = true := by decide
    have hfree : ¬ entryValid = entryFree := by decide
    simp only [hstate, Bool.not_true, Bool.false_eq_true, if_false, hfree, ne_eq,
      not_true_eq_false, if_true]
    cases type with
    | eelite =>
        have hid : ofLeBytes (((unitAt flash.data offset).drop 4).take 2)
            = ofLeBytes [flash.data (offset + 4), flash.data (offset + 4 + 1)] := rfl
        rw [show readEntryBlockId flash .nsg .eelite offset = readU16 flash (offset + 4) from rfl,
          readU16_of_le (by omega), Checked.ok_bind, hid]
        generalize ofLeBytes [flash.data (offset + 4), flash.data (offset + 4 + 1)] = id
        by_cases hmax : id > maximumId .eelite
        · simp [hmax]
        · simp [hmax]
    | eefull =>
        have hid : ofLeBytes (((unitAt flash.data offset).drop 4).take 4)
            = ofLeBytes [flash.data (offset + 4), flash.data (offset + 4 + 1),
              flash.data (offset + 4 + 2), flash.data (offset + 4 + 3)] := rfl
        rw [show readEntryBlockId flash .nsg .eefull offset = readU32 flash (offset + 4) from rfl,
          readU32_of_le (by omega), Checked.ok_bind, hid]
        generalize ofLeBytes [flash.data (offset + 4), flash.data (offset + 4 + 1),
          flash.data (offset + 4 + 2), flash.data (offset + 4 + 3)] = id
        by_cases hmax : id > maximumId .eefull
        · simp [hmax]
        · simp only [hmax, if_false]
          rw [Checked.add_of_lt
            (by simp only [maximumId, uint32Max, eefullBlockIdBase] at hmax ⊢; omega)]
          simp
  · simp only [hvalid, if_false, ne_eq, not_false_eq_true, if_true]
    by_cases hstate : isEntryStateValid state = true
    · by_cases hfree : state = entryFree
      · subst hfree
        simp [hstate]
      · simp [hstate, hfree]
    · simp [hstate]

/-! ## Decoding an entry that was laid down -/

theorem HoldsAt.readU16 {bytes : List UInt8} {offset : Nat} (h : HoldsAt flash.data offset bytes)
    (hlen : bytes.length = 2) (hin : offset + 2 ≤ flash.size) :
    readU16 flash offset = .ok (ofLeBytes bytes) := by
  obtain ⟨b₀, b₁, rfl⟩ := List.length_eq_two.1 hlen
  rw [readU16_of_le hin, h 1 (by simp), ← Nat.add_zero offset, h 0 (by simp)]
  rfl

theorem HoldsAt.readU32 {bytes : List UInt8} {offset : Nat} (h : HoldsAt flash.data offset bytes)
    (hlen : bytes.length = 4) (hin : offset + 4 ≤ flash.size) :
    readU32 flash offset = .ok (ofLeBytes bytes) := by
  match bytes, hlen with
  | [b₀, b₁, b₂, b₃], _ =>
      rw [readU32_of_le hin, h 1 (by simp), h 2 (by simp), h 3 (by simp), ← Nat.add_zero offset,
        h 0 (by simp)]
      rfl

/-- The copy loop fetches the bytes it is pointed at. -/
theorem copyInlineBytes_eq {partition : Partition}
    (hfits : partition.base + partition.size ≤ flash.size) (hword : partition.size < 2 ^ 32)
    {storedOffset sourceOffset size : Nat} (hs : sourceOffset ≤ 1)
    (hsize : size ≤ blockInlineCapacity) (data : Nat → UInt8)
    (hin : ∀ i, i < size →
      storedOffset + (sourceOffset + i) + (storedOffset % 16 + (sourceOffset + i)) / 16 * 16
        < partition.size ∧
      flash.data (partition.base + (storedOffset + (sourceOffset + i)
        + (storedOffset % 16 + (sourceOffset + i)) / 16 * 16)) = data i)
    (i : Nat) (block : Block) (hdone : ∀ j, j < i → j < size → block.inlineData j = data j) :
    ∃ block', copyInlineBytes flash partition storedOffset sourceOffset size i block
        = .ok (.ok, block') ∧ block'.data = .inlineData ∧ block'.size = block.size ∧
      block'.version = block.version ∧ ∀ j, j < size → block'.inlineData j = data j := by
  have hcapacity : blockInlineCapacity = 0x200 := rfl
  fun_induction copyInlineBytes flash partition storedOffset sourceOffset size i block with
  | case1 i block hlt ih =>
      obtain ⟨hlow, hvalue⟩ := hin i hlt
      rw [Checked.add_of_lt (by omega), Checked.ok_bind, nsgDataByteOffset_of_lt (by omega),
        Checked.ok_bind, if_neg (by omega), byte_of_lt (by omega), Checked.ok_bind,
        Block.setInline, if_pos (by omega), Checked.ok_bind, hvalue]
      refine ih _ (fun j hj hjs => ?_)
      by_cases hji : j = i
      · subst hji
        exact Function.update_self ..
      · exact (Function.update_of_ne hji ..).trans (hdone j (by omega) hjs)
  | case2 i block hge =>
      exact ⟨_, rfl, rfl, rfl, rfl, fun j hj => hdone j (by omega) hj⟩

/-- The version that belongs to an entry. -/
def InlineEntry.storedVersion (type : PartitionType) (e : InlineEntry) : Nat :=
  match type with
  | .eelite => e.version.toNat
  | .eefull => (e.payload.headD 0).toNat

/-- The payload of an entry, less its version metadata. -/
def InlineEntry.storedPayload (type : PartitionType) (e : InlineEntry) : List UInt8 :=
  match type with
  | .eelite => e.payload
  | .eefull => (e.payload.drop 1).take (e.payload.length - metadataSize (e.payload.headD 0))

/-- The bytes `[block->data, block->data + block->size)`. -/
def Block.bytes (flash : FlashMap) (block : Block) : List UInt8 :=
  (List.range block.size).map fun i =>
    match block.data with
    | .flash offset => flash.data (offset + i)
    | .inlineData => block.inlineData i

/-- The block is the one the entry was written for. -/
def Block.Shows (flash : FlashMap) (type : PartitionType) (block : Block) (e : InlineEntry) : Prop :=
  block.version = e.storedVersion type ∧ block.bytes flash = e.storedPayload type

theorem bytes_eq_of_inlineData {block : Block} {bytes : List UInt8}
    (hdata : block.data = .inlineData) (hsize : block.size = bytes.length)
    (h : ∀ (i : Nat) (hi : i < bytes.length), block.inlineData i = bytes[i]) :
    block.bytes flash = bytes := by
  apply List.ext_getElem
  · simp [Block.bytes, hsize]
  · intro i hi hi'
    simp [Block.bytes, hdata, h i hi']

/-- The partition that fills the image. -/
def nsgPartition : Partition := { base := 0, size := nsgPartitionSize, layout := .nsg }

/-- What the decoder of an entry reads: its size and version fields and its data. -/
structure PayloadLaid (flash : Image) (type : PartitionType) (entryOffset : Nat) (e : InlineEntry) :
    Prop where
  version : type = .eelite → flash (entryOffset + 7) = e.version
  size : HoldsAt flash (entryOffset + 8) (e.sizeBytes type)
  data : ∀ (i : Nat) (h : i < e.payload.length),
    flash (dataAddress entryOffset e.payload.length i) = e.payload[i]

theorem EntryLaid.payloadLaid {flash : Image} {entryOffset : Nat} {e : InlineEntry}
    (h : EntryLaid flash type entryOffset e) : PayloadLaid flash type entryOffset e where
  version := h.version
  size := h.size
  data := h.data

theorem metadataSize_le (version : UInt8) : metadataSize version ≤ 6 := by
  unfold metadataSize
  split <;> decide

/-- A payload that fits inline and holds the metadata that its first byte announces. -/
def InlineEntry.PayloadOk (type : PartitionType) (e : InlineEntry) : Prop :=
  match type with
  | .eelite => 1 ≤ e.payload.length ∧ e.payload.length ≤ 16
  | .eefull => metadataSize (e.payload.headD 0) ≤ e.payload.length ∧ e.payload.length ≤ 0x200

theorem InlineEntry.SizeOk.payloadOk {e : InlineEntry} (h : e.SizeOk type) : e.PayloadOk type := by
  cases type with
  | eelite => exact h
  | eefull => exact ⟨Nat.le_trans (metadataSize_le _) h.1, h.2⟩

section Decode

variable {entryOffset size : Nat}

theorem nsgStoredOffset_inline {entry : Nat} (hE : entryOffset % 32 = 0)
    (hlt : entryOffset < 2 ^ 32) (hlimit : size ≤ inlineLimit type)
    (hfit : x85ReservedSize size ≤ entryOffset) (partition : Partition) :
    nsgStoredOffset flash partition type entryOffset entry size
      = .ok (some (entryOffset - 32 * dataUnits size + padding size)) := by
  have hmax := inlineLimit_le type
  have hreserved : nsgDataChunkSize + size + (size &&& (uint32Max - (nsgDataChunkSize - 1)))
      = x85ReservedSize size := rfl
  have hchunk : nsgDataChunkSize = 16 := rfl
  rw [nsgStoredOffset, if_pos hlimit, Checked.add_of_lt (by omega), Checked.ok_bind,
    Checked.add_of_lt (by omega), Checked.ok_bind, hreserved, if_neg (by omega),
    Checked.sub_of_le hfit, Checked.ok_bind,
    alignNsgDataOffset_eq hE (by omega) (by omega) hfit, Checked.ok_bind]
  rfl

/-- The parser's address of a data byte is the writer's. -/
theorem stored_add_eq_dataAddress (hE : entryOffset % 32 = 0)
    (hfit : 32 * dataUnits size ≤ entryOffset) (index : Nat) :
    entryOffset - 32 * dataUnits size + padding size + index
      + ((entryOffset - 32 * dataUnits size + padding size) % 16 + index) / 16 * 16
      = dataAddress entryOffset size index := by
  rw [stored_mod hE hfit, dataAddress]

variable {partition : Partition} (hbase : partition.base = 0)
  (hfits : partition.size ≤ flash.size) (hword : partition.size < 2 ^ 32)

include hbase hfits hword

/-- Copying the data of an entry that was laid down, from byte `sourceOffset` on. -/
theorem copyNsgInlineBlock_laid {e : InlineEntry}
    (hlaid : PayloadLaid flash.data type entryOffset e) (hE : entryOffset % 32 = 0)
    (hlt : entryOffset < partition.size)
    (hunits : 32 * dataUnits e.payload.length ≤ entryOffset)
    {sourceOffset count : Nat} (hs : sourceOffset ≤ 1) (hcap : count ≤ blockInlineCapacity)
    (hcount : sourceOffset + count ≤ e.payload.length) (block : Block)
    (hblock : block.size = count) :
    ∃ block', copyNsgInlineBlock flash partition
        (entryOffset - 32 * dataUnits e.payload.length + padding e.payload.length) sourceOffset
        count block = .ok (.ok, block') ∧
      block'.version = block.version ∧
      block'.bytes flash = (e.payload.drop sourceOffset).take count := by
  obtain ⟨block', hcopy, hdata, hsz, hversion, hbytes⟩ := copyInlineBytes_eq
    (show partition.base + partition.size ≤ flash.size by omega) hword hs hcap
    (fun i => e.payload.getD (sourceOffset + i) 0)
    (fun i hi => by
      have hb := dataAddress_bounds hE hunits (show sourceOffset + i < e.payload.length by omega)
      have hd := hlaid.data (sourceOffset + i) (by omega)
      rw [stored_add_eq_dataAddress hE hunits]
      refine ⟨by omega, ?_⟩
      rw [hbase, Nat.zero_add, hd, List.getD_eq_getElem _ _ (by omega)])
    0 block (fun j hj => absurd hj (by omega))
  refine ⟨block', ?_, hversion, bytes_eq_of_inlineData hdata ?_ (fun i hi => ?_)⟩
  · rw [copyNsgInlineBlock, if_neg (by omega)]
    exact hcopy
  · simp only [List.length_take, List.length_drop]
    omega
  · simp only [List.length_take, List.length_drop] at hi
    rw [hbytes i (by omega), List.getElem_take, List.getElem_drop,
      List.getD_eq_getElem _ _ (by omega)]

/-- **Decoding inverts the writer**, for a partition at the beginning of the image. -/
theorem decodeNsgBlock_payload {e : InlineEntry}
    (hlaid : PayloadLaid flash.data type entryOffset e) (hE : entryOffset % 32 = 0)
    (hlt : entryOffset + 32 ≤ partition.size)
    (hfit : x85ReservedSize e.payload.length ≤ entryOffset) (hok : e.PayloadOk type)
    (block : Block) :
    ∃ block', decodeNsgBlock flash partition type entryOffset (partition.base + entryOffset)
        block = .ok (.ok, block') ∧ block'.Shows flash type e := by
  have hentry : partition.base + entryOffset = entryOffset := by omega
  rw [hentry]
  cases type with
  | eelite =>
      obtain ⟨hlo, hhi⟩ := hok
      obtain ⟨-, hunits⟩ := align_reserved hE (by omega) hfit
      have hread : nsgStoredSize flash .eelite entryOffset = .ok e.payload.length := by
        rw [nsgStoredSize, hlaid.size.readU16 (leBytes_length _ _) (by omega)]
        exact congrArg Except.ok (ofLeBytes_leBytes_of_lt (by omega))
      have hlimit : e.payload.length ≤ inlineLimit .eelite := hhi
      obtain ⟨block', hcopy, hversion, hbytes⟩ := copyNsgInlineBlock_laid hbase hfits hword hlaid hE
        (by omega) hunits (Nat.zero_le 1) (show e.payload.length ≤ 0x200 by omega) (by omega)
        { block with size := e.payload.length, version := e.version.toNat } rfl
      refine ⟨block', ?_, hversion, ?_⟩
      · rw [decodeNsgBlock, hread, Checked.ok_bind, if_neg (by omega)]
        simp only [nsgStoredOffset_inline hE (by omega) hlimit hfit, Checked.ok_bind]
        rw [byte_of_lt (by omega), Checked.ok_bind, hlaid.version rfl,
          if_pos (decide_eq_true hlimit)]
        exact hcopy
      · rw [hbytes, List.drop_zero, List.take_length]
        rfl
  | eefull =>
      obtain ⟨hlo, hhi⟩ := hok
      have hmeta' := metadataSize_pos (e.payload.headD 0)
      obtain ⟨-, hunits⟩ := align_reserved hE (by omega) hfit
      have hread : nsgStoredSize flash .eefull entryOffset = .ok e.payload.length := by
        rw [nsgStoredSize, hlaid.size.readU32 (leBytes_length _ _) (by omega)]
        exact congrArg Except.ok (ofLeBytes_leBytes_of_lt (by omega))
      have hlimit : e.payload.length ≤ inlineLimit .eefull := hhi
      have hfirst := hlaid.data 0 (by omega)
      have hhead : e.payload[0] = e.payload.headD 0 := by
        rw [List.headD_eq_head?_getD, List.head?_eq_getElem?, List.getElem?_eq_getElem (by omega),
          Option.getD_some]
      have hb := dataAddress_bounds hE hunits (show 0 < e.payload.length by omega)
      obtain ⟨block', hcopy, hversion, hbytes⟩ := copyNsgInlineBlock_laid hbase hfits hword hlaid hE
        (by omega) hunits (Nat.le_refl 1)
        (show e.payload.length - metadataSize (e.payload.headD 0) ≤ 0x200 by omega) (by omega)
        { block with
          size := e.payload.length - metadataSize (e.payload.headD 0)
          version := (e.payload.headD 0).toNat } rfl
      refine ⟨block', ?_, hversion, hbytes⟩
      rw [decodeNsgBlock, hread, Checked.ok_bind, if_neg (by omega)]
      simp only [nsgStoredOffset_inline hE (by omega) hlimit hfit, Checked.ok_bind]
      have hversionOffset : nsgDataByteOffset
          (entryOffset - 32 * dataUnits e.payload.length + padding e.payload.length) 0
          = .ok (dataAddress entryOffset e.payload.length 0) := by
        rw [← stored_add_eq_dataAddress hE hunits]
        exact nsgDataByteOffset_of_lt (by rw [stored_add_eq_dataAddress hE hunits]; omega)
      rw [nsgVersionOffset, if_pos (decide_eq_true hlimit), hversionOffset, Checked.ok_bind,
        if_neg (by omega), hbase, Nat.zero_add, byte_of_lt (by omega), Checked.ok_bind, hfirst, hhead,
        if_neg (by omega), Checked.sub_of_le (by omega), Checked.ok_bind,
        if_pos (decide_eq_true hlimit)]
      exact hcopy

omit hbase hfits hword

/-- An entry of the test's partition. -/
theorem decodeNsgBlock_laid (hsize : flash.size = nsgPartitionSize) {e : InlineEntry}
    (hlaid : EntryLaid flash.data type entryOffset e) (hE : entryOffset % 32 = 0)
    (hlt : entryOffset + 32 ≤ nsgPartitionSize)
    (hfit : x85ReservedSize e.payload.length ≤ entryOffset) (hok : e.SizeOk type) (block : Block) :
    ∃ block', decodeNsgBlock flash nsgPartition type entryOffset (nsgPartition.base + entryOffset)
        block = .ok (.ok, block') ∧ block'.Shows flash type e :=
  decodeNsgBlock_payload rfl (Nat.le_of_eq hsize.symm) (show nsgPartitionSize < 2 ^ 32 by decide)
    hlaid.payloadLaid hE hlt hfit hok.payloadOk block

end Decode

end Pmb887x.Eeprom
