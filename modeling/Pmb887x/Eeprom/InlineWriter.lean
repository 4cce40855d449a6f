import Mathlib.Data.Nat.Bitwise
import Pmb887x.Eeprom.Safety

set_option autoImplicit false

/-! # Writing inline NSG entries (`unit/eeprom/test.c`)

The writer of the parser's test lays entries down from the end of a partition: an entry takes one
32-byte unit, its data the lower halves of the units below it, right-aligned, and the next entry
follows below. `EntryLaid` says where the bytes of one entry are; `writeEntries_laid` that a whole
history of writes leaves every entry in its place and the rest of the partition erased. -/

namespace Pmb887x.Eeprom

open Library

/-! ## The writer -/

/-- The contents of a flash array. -/
abbrev Image := Nat → UInt8

def x85PartitionSize : Nat := 0x40000
def x85HeaderSize : Nat := 32
def x85EntrySize : Nat := 32
def x85DataChunkSize : Nat := 16

/-- Store consecutive bytes. -/
def store (flash : Image) (offset : Nat) : List UInt8 → Image
  | [] => flash
  | b :: rest => store (Function.update flash offset b) (offset + 1) rest

def writePartitionHeader (flash : Image) (offset : Nat) (name : List UInt8) (size : Nat) : Image :=
  let flash := store flash offset name
  let flash := store flash (offset + 6) [0, 0]
  let flash := store flash (offset + 10) [0, 0]
  let flash := store flash (offset + 12) [0xF0]
  store flash (offset + 13) (List.replicate (size - 13) 0xFF)

def alignX85DataOffset (offset : Nat) : Nat :=
  if offset &&& x85DataChunkSize = 0 then offset
  else sub32 (wrap32 (offset + x85DataChunkSize * 2)) (offset &&& (x85DataChunkSize * 2 - 1))

def x85DataByteOffset (offset index : Nat) : Nat :=
  let chunkOffset := offset &&& (x85DataChunkSize - 1)
  wrap32 (offset + index + (chunkOffset + index) / x85DataChunkSize * x85DataChunkSize)

/-- The data loop of `write_x85_inline_entry`, from index `i` on. -/
def writeX85Data (flash : Image) (storedOffset i : Nat) : List UInt8 → Image
  | [] => flash
  | b :: rest =>
      writeX85Data (Function.update flash (x85DataByteOffset storedOffset i) b) storedOffset (i + 1)
        rest

/-- `reserved_size` -/
def x85ReservedSize (size : Nat) : Nat :=
  x85DataChunkSize + size + (size &&& (uint32Max - (x85DataChunkSize - 1)))

/-- The image and the offset of the next entry. -/
def writeX85InlineEntry (flash : Image) (entryOffset state id : Nat) (version : UInt8)
    (data : List UInt8) (full : Bool) : Image × Nat :=
  let flash := store flash entryOffset (leBytes 4 state)
  let flash :=
    if full then
      store (store flash (entryOffset + 4) (leBytes 4 (sub32 id 5000))) (entryOffset + 8)
        (leBytes 4 data.length)
    else
      let flash := store flash (entryOffset + 4) (leBytes 2 id)
      let flash := store flash (entryOffset + 7) [version]
      store flash (entryOffset + 8) (leBytes 2 data.length)
  let storedOffset := alignX85DataOffset (sub32 entryOffset (x85ReservedSize data.length))
  (writeX85Data flash storedOffset 0 data,
    sub32 (storedOffset &&& (uint32Max - (x85DataChunkSize * 2 - 1))) x85EntrySize)

/-! ## Histories -/

/-- One call of the writer. -/
structure InlineEntry where
  valid : Bool
  id : Nat
  version : UInt8
  payload : List UInt8

/-- `ENTRY_VALID` or `ENTRY_OBSOLETE` -/
def InlineEntry.state (e : InlineEntry) : Nat := if e.valid then 0xFFFFFFC0 else 0xFFFFFF00

def PartitionType.full : PartitionType → Bool
  | .eelite => false
  | .eefull => true

/-- A series of calls, each at the offset that the one before returned. -/
def writeEntries (type : PartitionType) : Image → Nat → List InlineEntry → Image
  | flash, _, [] => flash
  | flash, entryOffset, e :: rest =>
      let (flash, next) :=
        writeX85InlineEntry flash entryOffset e.state e.id e.version e.payload type.full
      writeEntries type flash next rest

/-- The partition before the first entry. -/
def emptyPartition (type : PartitionType) : Image :=
  writePartitionHeader (fun _ => 0xFF) (x85PartitionSize - x85HeaderSize)
    ((partitionName type).take 6) x85HeaderSize

/-- The partition that holds a history of writes. -/
def laidDown (type : PartitionType) (entries : List InlineEntry) : FlashMap where
  data := writeEntries type (emptyPartition type) (x85PartitionSize - x85HeaderSize - x85EntrySize)
    entries
  size := x85PartitionSize

/-- The sizes the writer is used with: inline data, with room for the EEFULL metadata. -/
def InlineEntry.SizeOk (type : PartitionType) (e : InlineEntry) : Prop :=
  match type with
  | .eelite => 1 ≤ e.payload.length ∧ e.payload.length ≤ 16
  | .eefull => 6 ≤ e.payload.length ∧ e.payload.length ≤ 0x200

/-- How many units the data of an entry takes. -/
def dataUnits (size : Nat) : Nat := (size + 15) / 16

/-- The entries fit below `top`, each at or above the size it reserves. -/
def Fits : Nat → List InlineEntry → Prop
  | _, [] => True
  | top, e :: rest =>
      32 + x85ReservedSize e.payload.length ≤ top ∧
        Fits (top - 32 - 32 * dataUnits e.payload.length) rest

/-! ## Stored bytes -/

theorem store_of_lt (bytes : List UInt8) :
    ∀ {flash : Image} {offset a : Nat}, a < offset → store flash offset bytes a = flash a := by
  induction bytes with
  | nil => intro flash offset a _; rfl
  | cons b rest ih =>
      intro flash offset a h
      rw [store, ih (by omega), Function.update_of_ne (by omega)]

theorem store_of_ge (bytes : List UInt8) :
    ∀ {flash : Image} {offset a : Nat}, offset + bytes.length ≤ a →
      store flash offset bytes a = flash a := by
  induction bytes with
  | nil => intro flash offset a _; rfl
  | cons b rest ih =>
      intro flash offset a h
      simp only [List.length_cons] at h
      rw [store, ih (by omega), Function.update_of_ne (by omega)]

/-- The image holds `bytes` at `offset`. -/
def HoldsAt (flash : Image) (offset : Nat) (bytes : List UInt8) : Prop :=
  ∀ (i : Nat) (h : i < bytes.length), flash (offset + i) = bytes[i]

theorem holdsAt_store (bytes : List UInt8) :
    ∀ (flash : Image) (offset : Nat), HoldsAt (store flash offset bytes) offset bytes := by
  induction bytes with
  | nil => intro flash offset i h; simp at h
  | cons b rest ih =>
      intro flash offset i h
      cases i with
      | zero => rw [Nat.add_zero, store, store_of_lt rest (by omega)]; simp
      | succ i =>
          have := ih (Function.update flash offset b) (offset + 1) i (by simpa using h)
          rw [store, show offset + (i + 1) = offset + 1 + i by omega]
          simpa using this

theorem HoldsAt.congr {flash flash' : Image} {offset : Nat} {bytes : List UInt8}
    (h : HoldsAt flash offset bytes)
    (hsame : ∀ a, offset ≤ a → a < offset + bytes.length → flash' a = flash a) :
    HoldsAt flash' offset bytes :=
  fun i hi => (hsame (offset + i) (by omega) (by omega)).trans (h i hi)

/-! ## Where the data of an entry goes -/

/-- The unused bytes in front of the first data byte, in its unit. -/
def padding (size : Nat) : Nat := 16 * dataUnits size - size

theorem padding_spec (size : Nat) :
    padding size < 16 ∧ padding size + size = 16 * dataUnits size := by
  simp only [padding, dataUnits]
  omega

theorem x85ReservedSize_eq {size : Nat} (h : size < 2 ^ 32) :
    x85ReservedSize size = 16 + size + size / 16 * 16 := by
  have hand := and_clear_low h (k := 4) (by decide)
  exact congrArg (16 + size + ·) hand

theorem and_chunk_eq_zero_iff (offset : Nat) : offset &&& 16 = 0 ↔ offset / 16 % 2 = 0 := by
  have hand := Nat.and_two_pow offset 4
  rw [show (2 : Nat) ^ 4 = 16 from rfl] at hand
  rw [hand, Nat.testBit_eq_decide_div_mod_eq, show (2 : Nat) ^ 4 = 16 from rfl]
  by_cases h : offset / 16 % 2 = 1
  · simp [h]
  · have h0 : offset / 16 % 2 = 0 := by omega
    simp [h0]

theorem and_unit_eq (offset : Nat) : offset &&& (16 * 2 - 1) = offset % 32 :=
  Nat.and_two_pow_sub_one_eq_mod offset 5

section Layout

variable {entryOffset size : Nat}

/-- The alignment step, without its machine arithmetic: the reserved size rounds the data up to
    whole units, and a size that fills its last unit reserves half a unit too much. -/
theorem align_reserved (hE : entryOffset % 32 = 0) (hsize : size < 2 ^ 32)
    (hfit : x85ReservedSize size ≤ entryOffset) :
    (if (entryOffset - x85ReservedSize size) &&& 16 = 0 then entryOffset - x85ReservedSize size
      else entryOffset - x85ReservedSize size + 32 - (entryOffset - x85ReservedSize size) % 32)
      = entryOffset - 32 * dataUnits size + padding size ∧
    32 * dataUnits size ≤ entryOffset := by
  rw [x85ReservedSize_eq hsize] at hfit ⊢
  simp only [and_chunk_eq_zero_iff, padding, dataUnits]
  split <;> omega

theorem alignX85DataOffset_eq (hE : entryOffset % 32 = 0) (hlt : entryOffset < 2 ^ 32)
    (hsize : size < 2 ^ 32) (hfit : x85ReservedSize size ≤ entryOffset) :
    alignX85DataOffset (sub32 entryOffset (x85ReservedSize size))
      = entryOffset - 32 * dataUnits size + padding size := by
  have hreserved : 16 ≤ x85ReservedSize size := by
    rw [x85ReservedSize_eq hsize]
    omega
  rw [← (align_reserved hE hsize hfit).1, sub32_of_le hfit (by omega), alignX85DataOffset]
  simp only [x85DataChunkSize, and_unit_eq]
  rw [wrap32_of_lt (by omega), sub32_of_le (by omega) (by omega)]

/-- The parser finds the data where the writer puts it. -/
theorem alignNsgDataOffset_eq (hE : entryOffset % 32 = 0) (hlt : entryOffset < 2 ^ 32)
    (hsize : size < 2 ^ 32) (hfit : x85ReservedSize size ≤ entryOffset) :
    alignNsgDataOffset (entryOffset - x85ReservedSize size)
      = .ok (entryOffset - 32 * dataUnits size + padding size) := by
  have hreserved : 16 ≤ x85ReservedSize size := by
    rw [x85ReservedSize_eq hsize]
    omega
  rw [← (align_reserved hE hsize hfit).1, alignNsgDataOffset]
  simp only [nsgDataChunkSize, and_unit_eq]
  rw [Checked.add_of_lt (by omega), Checked.ok_bind, Checked.sub_of_le (by omega)]
  split <;> rfl

/-- The address of data byte `index` of an entry. -/
def dataAddress (entryOffset size index : Nat) : Nat :=
  entryOffset - 32 * dataUnits size + padding size + index + (padding size + index) / 16 * 16

theorem stored_mod (hE : entryOffset % 32 = 0) (hfit : 32 * dataUnits size ≤ entryOffset) :
    (entryOffset - 32 * dataUnits size + padding size) % 16 = padding size := by
  have := (padding_spec size).1
  omega

theorem x85DataByteOffset_eq (hE : entryOffset % 32 = 0) (hlt : entryOffset < 2 ^ 32)
    (hfit : 32 * dataUnits size ≤ entryOffset) {index : Nat} (hi : index < size) :
    x85DataByteOffset (entryOffset - 32 * dataUnits size + padding size) index
      = dataAddress entryOffset size index := by
  have hpad := padding_spec size
  have hmod := stored_mod hE hfit
  have hand := Nat.and_two_pow_sub_one_eq_mod
    (entryOffset - 32 * dataUnits size + padding size) 4
  rw [show (2 : Nat) ^ 4 = 16 from rfl, hmod] at hand
  simp only [x85DataByteOffset, x85DataChunkSize, hand]
  rw [wrap32_of_lt (by omega), dataAddress]

/-- Data stays in the lower halves of the units below its entry. -/
theorem dataAddress_bounds (hE : entryOffset % 32 = 0) (hfit : 32 * dataUnits size ≤ entryOffset)
    {index : Nat} (hi : index < size) :
    entryOffset - 32 * dataUnits size ≤ dataAddress entryOffset size index ∧
      dataAddress entryOffset size index < entryOffset ∧
      dataAddress entryOffset size index % 32 < 16 := by
  have hpad := padding_spec size
  simp only [dataAddress]
  omega

theorem dataAddress_lt {i j : Nat} (h : i < j) :
    dataAddress entryOffset size i < dataAddress entryOffset size j := by
  have hdiv : (padding size + i) / 16 ≤ (padding size + j) / 16 :=
    Nat.div_le_div_right (by omega)
  simp only [dataAddress]
  omega

/-- The data loop writes its bytes to their addresses and nothing else. -/
theorem writeX85Data_spec (hE : entryOffset % 32 = 0) (hlt : entryOffset < 2 ^ 32)
    (hfit : 32 * dataUnits size ≤ entryOffset) (data : List UInt8) :
    ∀ (flash : Image) (i : Nat), i + data.length = size →
      (∀ a, (∀ j, i ≤ j → j < size → a ≠ dataAddress entryOffset size j) →
        writeX85Data flash (entryOffset - 32 * dataUnits size + padding size) i data a
          = flash a) ∧
      ∀ (j : Nat) (h : j < data.length),
        writeX85Data flash (entryOffset - 32 * dataUnits size + padding size) i data
          (dataAddress entryOffset size (i + j)) = data[j] := by
  induction data with
  | nil =>
      intro flash i _
      exact ⟨fun a _ => rfl, fun j h => by simp at h⟩
  | cons b rest ih =>
      intro flash i hlen
      simp only [List.length_cons] at hlen
      have haddress := x85DataByteOffset_eq hE hlt hfit (show i < size by omega)
      obtain ⟨hother, hdata⟩ := ih (Function.update flash (dataAddress entryOffset size i) b)
        (i + 1) (by omega)
      rw [writeX85Data, haddress]
      refine ⟨fun a ha => ?_, fun j hj => ?_⟩
      · rw [hother a (fun j hij => ha j (by omega)),
          Function.update_of_ne (ha i (by omega) (by omega))]
      · cases j with
        | zero =>
            rw [hother _ (fun j hij hjs => Nat.ne_of_lt (dataAddress_lt (by omega)))]
            exact Function.update_self ..
        | succ j =>
            have := hdata j (by simpa using hj)
            rw [show i + (j + 1) = i + 1 + j by omega, this]
            rfl

end Layout

/-! ## One entry -/

/-- The id field of an entry. -/
def InlineEntry.idBytes (type : PartitionType) (e : InlineEntry) : List UInt8 :=
  match type with
  | .eelite => leBytes 2 e.id
  | .eefull => leBytes 4 (sub32 e.id 5000)

/-- The size field of an entry. -/
def InlineEntry.sizeBytes (type : PartitionType) (e : InlineEntry) : List UInt8 :=
  match type with
  | .eelite => leBytes 2 e.payload.length
  | .eefull => leBytes 4 e.payload.length

/-- The entry stands at `entryOffset`, its data below it; a unit that is not full starts erased. -/
structure EntryLaid (flash : Image) (type : PartitionType) (entryOffset : Nat) (e : InlineEntry) :
    Prop where
  state : HoldsAt flash entryOffset (leBytes 4 e.state)
  id : HoldsAt flash (entryOffset + 4) (e.idBytes type)
  version : type = .eelite → flash (entryOffset + 7) = e.version
  size : HoldsAt flash (entryOffset + 8) (e.sizeBytes type)
  data : ∀ (i : Nat) (h : i < e.payload.length),
    flash (dataAddress entryOffset e.payload.length i) = e.payload[i]
  gap : padding e.payload.length ≠ 0 →
    flash (entryOffset - 32 * dataUnits e.payload.length) = 0xFF

/-- Writes below an entry's data leave it alone. -/
theorem EntryLaid.congr {flash flash' : Image} {type : PartitionType} {entryOffset : Nat}
    {e : InlineEntry} (h : EntryLaid flash type entryOffset e) (hE : entryOffset % 32 = 0)
    (hfit : 32 * dataUnits e.payload.length ≤ entryOffset)
    (hsame : ∀ a, entryOffset - 32 * dataUnits e.payload.length ≤ a → flash' a = flash a) :
    EntryLaid flash' type entryOffset e where
  state := h.state.congr (fun a ha _ => hsame a (by omega))
  id := h.id.congr (fun a ha _ => hsame a (by omega))
  version := fun ht => (hsame _ (by omega)).trans (h.version ht)
  size := h.size.congr (fun a ha _ => hsame a (by omega))
  data := fun i hi => (hsame _ (dataAddress_bounds hE hfit hi).1).trans (h.data i hi)
  gap := fun hpad => (hsame _ (Nat.le_refl _)).trans (h.gap hpad)

/-- The id, version and size fields of an entry. -/
def writeX85Fields (flash : Image) (type : PartitionType) (entryOffset id : Nat) (version : UInt8)
    (size : Nat) : Image :=
  match type with
  | .eefull =>
      store (store flash (entryOffset + 4) (leBytes 4 (sub32 id 5000))) (entryOffset + 8)
        (leBytes 4 size)
  | .eelite =>
      let flash := store flash (entryOffset + 4) (leBytes 2 id)
      let flash := store flash (entryOffset + 7) [version]
      store flash (entryOffset + 8) (leBytes 2 size)

theorem writeX85Fields_other (flash : Image) (type : PartitionType) (entryOffset id : Nat)
    (version : UInt8) (size : Nat) {a : Nat} (h : a < entryOffset + 4 ∨ entryOffset + 12 ≤ a) :
    writeX85Fields flash type entryOffset id version size a = flash a := by
  cases type with
  | eefull =>
      rcases h with h | h
      · rw [writeX85Fields, store_of_lt _ (by omega), store_of_lt _ (by omega)]
      · rw [writeX85Fields, store_of_ge _ (by simp; omega), store_of_ge _ (by simp; omega)]
  | eelite =>
      rcases h with h | h
      · rw [writeX85Fields, store_of_lt _ (by omega), store_of_lt _ (by omega),
          store_of_lt _ (by omega)]
      · rw [writeX85Fields, store_of_ge _ (by simp; omega), store_of_ge _ (by simp; omega),
          store_of_ge _ (by simp; omega)]

/-- The fields hold what they are written with. -/
theorem writeX85Fields_fields (flash : Image) (type : PartitionType) (entryOffset : Nat)
    (e : InlineEntry) :
    HoldsAt (writeX85Fields flash type entryOffset e.id e.version e.payload.length) (entryOffset + 4)
        (e.idBytes type) ∧
      (type = .eelite → writeX85Fields flash type entryOffset e.id e.version e.payload.length
        (entryOffset + 7) = e.version) ∧
      HoldsAt (writeX85Fields flash type entryOffset e.id e.version e.payload.length) (entryOffset + 8)
        (e.sizeBytes type) := by
  cases type with
  | eefull =>
      refine ⟨(holdsAt_store _ flash _).congr fun a ha hb => ?_, fun h => absurd h (by decide),
        holdsAt_store _ _ _⟩
      simp only [InlineEntry.idBytes, leBytes_length] at hb
      rw [writeX85Fields, store_of_lt _ (by omega)]
      rfl
  | eelite =>
      refine ⟨(holdsAt_store _ flash _).congr fun a ha hb => ?_, fun _ => ?_, holdsAt_store _ _ _⟩
      · simp only [InlineEntry.idBytes, leBytes_length] at hb
        rw [writeX85Fields, store_of_lt _ (by omega), store_of_lt _ (by omega)]
        rfl
      · rw [writeX85Fields, store_of_lt _ (by omega)]
        exact holdsAt_store [e.version] _ _ 0 (by simp)

/-- The header fields of an entry, before its data is written. -/
def writeX85Header (flash : Image) (type : PartitionType) (entryOffset : Nat) (e : InlineEntry) :
    Image :=
  let flash := store flash entryOffset (leBytes 4 e.state)
  match type with
  | .eefull =>
      store (store flash (entryOffset + 4) (leBytes 4 (sub32 e.id 5000))) (entryOffset + 8)
        (leBytes 4 e.payload.length)
  | .eelite =>
      let flash := store flash (entryOffset + 4) (leBytes 2 e.id)
      let flash := store flash (entryOffset + 7) [e.version]
      store flash (entryOffset + 8) (leBytes 2 e.payload.length)

theorem writeX85Header_eq (flash : Image) (type : PartitionType) (entryOffset : Nat)
    (e : InlineEntry) :
    writeX85Header flash type entryOffset e
      = writeX85Fields (store flash entryOffset (leBytes 4 e.state)) type entryOffset e.id e.version
          e.payload.length := by
  cases type with
  | eefull => rfl
  | eelite => rfl

theorem writeX85Header_other (flash : Image) (type : PartitionType) (entryOffset : Nat)
    (e : InlineEntry) {a : Nat} (h : a < entryOffset ∨ entryOffset + 12 ≤ a) :
    writeX85Header flash type entryOffset e a = flash a := by
  rw [writeX85Header_eq, writeX85Fields_other _ _ _ _ _ _ (by omega)]
  rcases h with h | h
  · exact store_of_lt _ h
  · exact store_of_ge _ (by rw [leBytes_length]; omega)

theorem writeX85Header_state (flash : Image) (type : PartitionType) (entryOffset : Nat)
    (e : InlineEntry) :
    HoldsAt (writeX85Header flash type entryOffset e) entryOffset (leBytes 4 e.state) := by
  refine (holdsAt_store _ flash _).congr fun a ha hb => ?_
  rw [leBytes_length] at hb
  rw [writeX85Header_eq, writeX85Fields_other _ _ _ _ _ _ (by omega)]

section Entry

variable (flash : Image) (type : PartitionType) {entryOffset : Nat} {payload : List UInt8}

/-- The writer, without the arithmetic of its addresses. -/
theorem writeX85InlineEntry_eq (state id : Nat) (version : UInt8) (hE : entryOffset % 32 = 0)
    (hlt : entryOffset < 2 ^ 32) (hsize : payload.length < 2 ^ 32)
    (hfit : x85ReservedSize payload.length ≤ entryOffset) :
    writeX85InlineEntry flash entryOffset state id version payload type.full
      = (writeX85Data (writeX85Fields (store flash entryOffset (leBytes 4 state)) type entryOffset id
            version payload.length)
          (entryOffset - 32 * dataUnits payload.length + padding payload.length) 0 payload,
        sub32 (entryOffset - 32 * dataUnits payload.length) 32) := by
  have hpad := padding_spec payload.length
  have hnext : (entryOffset - 32 * dataUnits payload.length + padding payload.length)
      &&& (uint32Max - (x85DataChunkSize * 2 - 1)) = entryOffset - 32 * dataUnits payload.length := by
    have hand := and_clear_low (n := entryOffset - 32 * dataUnits payload.length
      + padding payload.length) (k := 5) (by omega) (by decide)
    rw [show (2 : Nat) ^ 5 = 32 from rfl] at hand
    refine Eq.trans hand ?_
    omega
  rw [writeX85InlineEntry, alignX85DataOffset_eq hE hlt hsize hfit, hnext]
  cases type with
  | eefull => rfl
  | eelite => rfl

/-- No data byte lies at or above the entry, nor below its units, nor in an upper half. -/
theorem ne_dataAddress {size a : Nat} (hE : entryOffset % 32 = 0)
    (hunits : 32 * dataUnits size ≤ entryOffset)
    (ha : entryOffset ≤ a ∨ a < entryOffset - 32 * dataUnits size ∨ 16 ≤ a % 32) :
    ∀ j, 0 ≤ j → j < size → a ≠ dataAddress entryOffset size j := by
  rintro j - hj rfl
  have := dataAddress_bounds hE hunits hj
  omega

/-- **What the writer does.** The entry is laid down; its own unit and the lower halves of the data
    units are all that changes; the next entry goes below the data. -/
theorem writeX85InlineEntry_spec {e : InlineEntry} (hE : entryOffset % 32 = 0)
    (hlt : entryOffset < 2 ^ 32) (hsize : e.payload.length < 2 ^ 32)
    (hfit : x85ReservedSize e.payload.length ≤ entryOffset)
    (herased : ∀ a, a < entryOffset + 32 → flash a = 0xFF) :
    ∃ flash', writeX85InlineEntry flash entryOffset e.state e.id e.version e.payload type.full
        = (flash', sub32 (entryOffset - 32 * dataUnits e.payload.length) 32) ∧
      EntryLaid flash' type entryOffset e ∧
      (∀ a, a < entryOffset - 32 * dataUnits e.payload.length → flash' a = flash a) ∧
      (∀ a, entryOffset + 12 ≤ a → flash' a = flash a) ∧
      (∀ a, 16 ≤ a % 32 → flash' a = flash a) := by
  obtain ⟨-, hunits⟩ := align_reserved hE hsize hfit
  obtain ⟨hother, hdata⟩ := writeX85Data_spec hE hlt hunits e.payload
    (writeX85Header flash type entryOffset e) 0 (Nat.zero_add _)
  have hpad := padding_spec e.payload.length
  have hkeep := fun a => ne_dataAddress (a := a) hE hunits
  have hstate := writeX85Header_state flash type entryOffset e
  obtain ⟨hid, hversion, hsizes⟩ := writeX85Fields_fields
    (store flash entryOffset (leBytes 4 e.state)) type entryOffset e
  rw [← writeX85Header_eq] at hid hversion hsizes
  refine ⟨writeX85Data (writeX85Header flash type entryOffset e)
    (entryOffset - 32 * dataUnits e.payload.length + padding e.payload.length) 0 e.payload,
    ?_, ?_, ?_, ?_, ?_⟩
  · rw [writeX85InlineEntry_eq flash type _ _ _ hE hlt hsize hfit, writeX85Header_eq]
  · refine ⟨hstate.congr ?_, hid.congr ?_, fun ht => ?_, hsizes.congr ?_, fun i hi => ?_,
      fun hgap => ?_⟩
    · exact fun a ha _ => hother a (hkeep a (by omega))
    · exact fun a ha _ => hother a (hkeep a (by omega))
    · exact (hother _ (hkeep _ (by omega))).trans (hversion ht)
    · exact fun a ha _ => hother a (hkeep a (by omega))
    · have := hdata i hi
      rwa [Nat.zero_add] at this
    · rw [hother, writeX85Header_other _ _ _ _ (by omega), herased _ (by omega)]
      rintro j - hj heq
      simp only [dataAddress] at heq
      omega
  · intro a ha
    rw [hother a (hkeep a (by omega)), writeX85Header_other _ _ _ _ (by omega)]
  · intro a ha
    rw [hother a (hkeep a (by omega)), writeX85Header_other _ _ _ _ (by omega)]
  · intro a ha
    rw [hother a (hkeep a (by omega)), writeX85Header_other _ _ _ _ (by omega)]

end Entry

/-! ## A history of writes -/

/-- The entries stand one below the other from `top` down, and below them all is erased. -/
def Laid (flash : Image) (type : PartitionType) : Nat → List InlineEntry → Prop
  | top, [] => ∀ a, a < top → flash a = 0xFF
  | top, e :: rest =>
      EntryLaid flash type (top - 32) e ∧
        Laid flash type (top - 32 - 32 * dataUnits e.payload.length) rest

theorem fits_units {top : Nat} {e : InlineEntry} (ht : top % 32 = 0)
    (hsize : e.payload.length < 2 ^ 32) (h : 32 + x85ReservedSize e.payload.length ≤ top) :
    32 + 32 * dataUnits e.payload.length ≤ top := by
  have := (align_reserved (show (top - 32) % 32 = 0 by omega) hsize (by omega)).2
  omega

/-- A history that fits is laid down; the upper halves and all above `top` stay as they were. -/
theorem writeEntries_laid (type : PartitionType) (entries : List InlineEntry) :
    ∀ (flash : Image) (top : Nat), top % 32 = 0 → top < 2 ^ 30 →
      (∀ e ∈ entries, e.payload.length < 2 ^ 32) → Fits top entries →
      (∀ a, a < top → flash a = 0xFF) →
      Laid (writeEntries type flash (sub32 top 32) entries) type top entries ∧
        (∀ a, top ≤ a ∨ 16 ≤ a % 32 →
          writeEntries type flash (sub32 top 32) entries a = flash a) := by
  induction entries with
  | nil => intro flash top _ _ _ _ herased; exact ⟨herased, fun _ _ => rfl⟩
  | cons e rest ih =>
      intro flash top ht hlt hsizes hfits herased
      obtain ⟨hfit, hrest⟩ := hfits
      have hsize := hsizes e (List.mem_cons_self ..)
      have hunits := fits_units ht hsize hfit
      obtain ⟨flash', hwrite, hlaid, hbelow, habove, hupper⟩ := writeX85InlineEntry_spec
        flash type (show (top - 32) % 32 = 0 by omega) (by omega) hsize (by omega)
        (fun a ha => herased a (by omega))
      obtain ⟨hall, hother⟩ := ih flash' (top - 32 - 32 * dataUnits e.payload.length) (by omega)
        (by omega) (fun e' he' => hsizes e' (List.mem_cons_of_mem _ he')) hrest
        (fun a ha => (hbelow a ha).trans (herased a (by omega)))
      rw [writeEntries, sub32_of_le (by omega) (by omega), hwrite]
      refine ⟨⟨hlaid.congr (by omega) (by omega) (fun a ha => hother a (.inl ha)), hall⟩,
        fun a ha => ?_⟩
      rcases ha with ha | ha
      · exact (hother a (.inl (by omega))).trans (habove a (by omega))
      · exact (hother a (.inr ha)).trans (hupper a ha)

end Pmb887x.Eeprom
