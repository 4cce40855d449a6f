import Pmb887x.Eeprom.Decode

set_option autoImplicit false

/-! # The inline layout

The writer of the test and the parser compute the addresses of inline data by three formulas each: the reserved
size, the alignment and the address of a byte. For every size and every aligned offset the data lies below its
entry, in lower halves of units, byte by byte apart, and the parser gets it back. -/

namespace Pmb887x.Eeprom

open Library

/-- Where `write_x85_inline_entry` stores byte `index` of `size` bytes. -/
def x85PayloadAddress (entryOffset size index : Nat) : Nat :=
  x85DataByteOffset (alignX85DataOffset (sub32 entryOffset (x85ReservedSize size))) index

section Layout

variable {entryOffset size : Nat}

theorem x85PayloadAddress_eq (hE : entryOffset % 32 = 0) (hlt : entryOffset < 2 ^ 32)
    (hsize : size < 2 ^ 32) (hfit : x85ReservedSize size ≤ entryOffset) {index : Nat}
    (hi : index < size) :
    x85PayloadAddress entryOffset size index = dataAddress entryOffset size index := by
  rw [x85PayloadAddress, alignX85DataOffset_eq hE hlt hsize hfit]
  exact x85DataByteOffset_eq hE hlt (align_reserved hE hsize hfit).2 hi

/-- Distinct bytes have distinct addresses. -/
theorem dataAddress_inj {i j : Nat}
    (h : dataAddress entryOffset size i = dataAddress entryOffset size j) : i = j := by
  rcases Nat.lt_trichotomy i j with hij | hij | hij
  · exact absurd h (Nat.ne_of_lt (dataAddress_lt hij))
  · exact hij
  · exact absurd h (Nat.ne_of_gt (dataAddress_lt hij))

/-- `next + 32` in `uint32_t` is where the units of the data begin. -/
theorem wrap32_next (hlt : entryOffset < 2 ^ 32) :
    wrap32 (sub32 (entryOffset - 32 * dataUnits size) 32 + 32) = entryOffset - 32 * dataUnits size := by
  unfold wrap32 sub32
  omega

end Layout

theorem InlineEntry.PayloadOk.bounds {type : PartitionType} {e : InlineEntry} (h : e.PayloadOk type) :
    1 ≤ e.payload.length ∧ e.payload.length ≤ 0x200 := by
  cases type with
  | eelite => exact ⟨h.1, Nat.le_trans h.2 (by decide)⟩
  | eefull => exact ⟨Nat.le_trans (metadataSize_pos _) h.1, h.2⟩

/-- What the decoder needs is there after a write to any image. -/
theorem payloadLaid_write (flash : Image) (type : PartitionType) {entryOffset : Nat} (state : Nat)
    {e : InlineEntry} (hE : entryOffset % 32 = 0) (hlt : entryOffset < 2 ^ 32)
    (hsize : e.payload.length < 2 ^ 32) (hfit : x85ReservedSize e.payload.length ≤ entryOffset) :
    PayloadLaid
      (writeX85InlineEntry flash entryOffset state e.id e.version e.payload type.full).1 type
      entryOffset e := by
  obtain ⟨-, hunits⟩ := align_reserved hE hsize hfit
  obtain ⟨hother, hdata⟩ := writeX85Data_spec hE hlt hunits e.payload
    (writeX85Fields (store flash entryOffset (leBytes 4 state)) type entryOffset e.id e.version
      e.payload.length) 0 (Nat.zero_add _)
  obtain ⟨-, hversion, hsizes⟩ := writeX85Fields_fields
    (store flash entryOffset (leBytes 4 state)) type entryOffset e
  have hkeep := fun a => ne_dataAddress (a := a) hE hunits
  rw [writeX85InlineEntry_eq flash type _ _ _ hE hlt hsize hfit]
  refine ⟨fun ht => ?_, hsizes.congr fun a ha _ => hother a (hkeep a (by omega)), fun i hi => ?_⟩
  · exact (hother _ (hkeep _ (by omega))).trans (hversion ht)
  · have hbyte := hdata i hi
    rwa [Nat.zero_add] at hbyte

/-- What the layout promises of an entry at `entryOffset` in an image of `flashSize` bytes, once the writer
has left `written` and returned `next`. -/
structure ReadsBack (type : PartitionType) (entryOffset flashSize : Nat) (e : InlineEntry)
    (written : Image) (next : Nat) : Prop where
  stored : ∀ (i : Nat) (h : i < e.payload.length),
    written (x85PayloadAddress entryOffset e.payload.length i) = e.payload[i]
  lower_half : ∀ i, i < e.payload.length →
    x85PayloadAddress entryOffset e.payload.length i % 32 < 16
  below_entry : ∀ i, i < e.payload.length →
    x85PayloadAddress entryOffset e.payload.length i / 32 < entryOffset / 32
  above_next : ∀ i, i < e.payload.length →
    wrap32 (next + 32) ≤ x85PayloadAddress entryOffset e.payload.length i
  apart : ∀ i j, i < e.payload.length → j < e.payload.length →
    x85PayloadAddress entryOffset e.payload.length i
      = x85PayloadAddress entryOffset e.payload.length j → i = j
  decoded : ∀ block, ∃ block',
    decodeNsgBlock ⟨written, flashSize⟩ { base := 0, size := flashSize, layout := .nsg } type entryOffset
        entryOffset block = .ok (.ok, block') ∧
      block'.Shows ⟨written, flashSize⟩ type e

/-- **Inline entries read back.** An entry that is written at an aligned offset, not below the size it
reserves, has its payload byte by byte apart in the lower halves of the units between the next entry and
itself, and the parser decodes it to its version and payload. -/
theorem writeX85InlineEntry_readsBack (flash : Image) (type : PartitionType) (state : Nat)
    (e : InlineEntry) {entryOffset flashSize : Nat} (hE : entryOffset % 32 = 0)
    (hin : entryOffset + 32 ≤ flashSize) (hword : flashSize < 2 ^ 32)
    (hfit : x85ReservedSize e.payload.length ≤ entryOffset) (hok : e.PayloadOk type) :
    ReadsBack type entryOffset flashSize e
      (writeX85InlineEntry flash entryOffset state e.id e.version e.payload type.full).1
      (writeX85InlineEntry flash entryOffset state e.id e.version e.payload type.full).2 := by
  obtain ⟨hpos, hmax⟩ := hok.bounds
  have hlt : entryOffset < 2 ^ 32 := by omega
  have hsize : e.payload.length < 2 ^ 32 := by omega
  obtain ⟨-, hunits⟩ := align_reserved hE hsize hfit
  have hlaid := payloadLaid_write flash type state hE hlt hsize hfit
  have haddress : ∀ i, i < e.payload.length → x85PayloadAddress entryOffset e.payload.length i
      = dataAddress entryOffset e.payload.length i :=
    fun i hi => x85PayloadAddress_eq hE hlt hsize hfit hi
  constructor
  case stored =>
    intro i hi
    rw [haddress i hi]
    exact hlaid.data i hi
  case lower_half =>
    intro i hi
    rw [haddress i hi]
    exact (dataAddress_bounds hE hunits hi).2.2
  case below_entry =>
    intro i hi
    have hbelow := (dataAddress_bounds hE hunits hi).2.1
    rw [haddress i hi]
    omega
  case above_next =>
    intro i hi
    rw [haddress i hi, writeX85InlineEntry_eq flash type _ _ _ hE hlt hsize hfit, wrap32_next hlt]
    exact (dataAddress_bounds hE hunits hi).1
  case apart =>
    intro i j hi hj heq
    rw [haddress i hi, haddress j hj] at heq
    exact dataAddress_inj heq
  case decoded =>
    intro block
    have hbase : Partition.base ⟨0, flashSize, .nsg⟩ = 0 := rfl
    have hmap : PayloadLaid (FlashMap.data ⟨_, flashSize⟩) type entryOffset e := hlaid
    have hdecode :=
      decodeNsgBlock_payload hbase (Nat.le_refl flashSize) hword hmap hE hin hfit hok block
    rwa [hbase, Nat.zero_add] at hdecode

/-- The EEFULL block of the test, with five bytes of metadata behind its data. -/
def extendedEntry : InlineEntry where
  valid := true
  id := 5009
  version := 0
  payload := [0x80, 1, 2, 3, 4, 5, 6, 7, 8, 9, 10, 11, 12, 0xFF, 0xFF, 0xFF, 0xFF, 0xFF]

theorem writeX85InlineEntry_readsBack_extended :
    ReadsBack .eefull 0x3FFC0 x85PartitionSize extendedEntry
        (writeX85InlineEntry (emptyPartition .eefull) 0x3FFC0 0xFFFFFFC0 5009 0 extendedEntry.payload
          true).1
        (writeX85InlineEntry (emptyPartition .eefull) 0x3FFC0 0xFFFFFFC0 5009 0 extendedEntry.payload
          true).2 ∧
      extendedEntry.storedPayload .eefull = [1, 2, 3, 4, 5, 6, 7, 8, 9, 10, 11, 12] :=
  ⟨writeX85InlineEntry_readsBack (emptyPartition .eefull) .eefull 0xFFFFFFC0 extendedEntry (by decide)
    (by decide) (by decide) (by decide) ⟨by decide, by decide⟩, by decide⟩

end Pmb887x.Eeprom
