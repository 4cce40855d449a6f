import Pmb887x.Eeprom.Decode

set_option autoImplicit false

/-! # The words of an image

Headers and table entries by the words that stand in the image, without the order in which the parser of
`unit/eeprom.c` reads them. -/

namespace Pmb887x.Eeprom

open Library

/-- The 16-bit word at an offset of the image. -/
def FlashMap.word16 (flash : FlashMap) (offset : Nat) : Nat :=
  ofLeBytes [flash.data offset, flash.data (offset + 1)]

/-- The 32-bit word at an offset of the image. -/
def FlashMap.word32 (flash : FlashMap) (offset : Nat) : Nat :=
  ofLeBytes [flash.data offset, flash.data (offset + 1), flash.data (offset + 2),
    flash.data (offset + 3)]

variable {flash : FlashMap} {partition : Partition} {type : PartitionType}

theorem readU32_word32 {offset : Nat} (h : offset + 4 ≤ flash.size) :
    readU32 flash offset = .ok (flash.word32 offset) := readU32_of_le h

theorem readU16_word16 {offset : Nat} (h : offset + 2 ≤ flash.size) :
    readU16 flash offset = .ok (flash.word16 offset) := readU16_of_le h

/-! ## Headers -/

/-- A header of `size` bytes with the name of the type stands at `offset`. -/
def HeaderAt (flash : FlashMap) (type : PartitionType) (size offset : Nat) : Prop :=
  (List.range 8).map (fun i => flash.data (offset + i)) = partitionName type ∧
    flash.word16 (offset + 10) = 0 ∧ flash.word32 (offset + 12) = partitionMarker ∧
    ∀ i < size, sgHeaderSize ≤ i → flash.data (offset + i) = 0xFF

instance (flash : FlashMap) (type : PartitionType) (size offset : Nat) :
    Decidable (HeaderAt flash type size offset) :=
  inferInstanceAs (Decidable (_ ∧ _ ∧ _ ∧ _))

/-- An SG partition of the type starts at `base`. -/
def SgPartitionAt (flash : FlashMap) (type : PartitionType) (base : Nat) : Prop :=
  base + sgPartitionSize ≤ flash.size ∧ HeaderAt flash type sgHeaderSize base

instance (flash : FlashMap) (type : PartitionType) (base : Nat) :
    Decidable (SgPartitionAt flash type base) :=
  inferInstanceAs (Decidable (_ ∧ _))

theorem nameMatches_eq (name : List UInt8) {header i : Nat}
    (h : header + i + name.length ≤ flash.size) :
    nameMatches flash header i name = .ok (decide
      ((List.range' i name.length).map (fun j => flash.data (header + j)) = name)) := by
  induction name generalizing i with
  | nil => rfl
  | cons c rest ih =>
      rw [List.length_cons] at h
      rw [nameMatches, byte_of_lt (by omega), Checked.ok_bind, ih (by omega), List.length_cons,
        List.range'_succ, List.map_cons]
      split_ifs with hne
      · simp [hne]
      · simp [not_not.mp hne]

theorem erasedFrom_eq {header size i : Nat} (h : header + size ≤ flash.size) :
    erasedFrom flash header size i
      = .ok (decide (∀ j < size, i ≤ j → flash.data (header + j) = 0xFF)) := by
  fun_induction erasedFrom flash header size i with
  | case1 i hlt ih =>
      rw [byte_of_lt (by omega), Checked.ok_bind]
      split_ifs with hne
      · rw [Checked.pure_eq]
        congr 1
        rw [eq_comm, decide_eq_false_iff_not]
        exact fun hall => hne (hall i hlt (Nat.le_refl _))
      · rw [ih]
        congr 1
        rw [decide_eq_decide]
        constructor
        · intro hall j hj hij
          rcases Nat.eq_or_lt_of_le hij with rfl | hlt'
          · exact not_not.mp hne
          · exact hall j hj hlt'
        · exact fun hall j hj hij => hall j hj (by omega)
  | case2 i hge =>
      rw [Checked.pure_eq]
      congr 1
      rw [eq_comm, decide_eq_true_eq]
      intro j hj hij
      omega

theorem partitionHeaderMatches_eq {header size : Nat} (hs : 16 ≤ size)
    (h : header + size ≤ flash.size) :
    partitionHeaderMatches flash header size (partitionName type)
      = .ok (decide (HeaderAt flash type size header)) := by
  have hname := partitionName_length type
  rw [partitionHeaderMatches, nameMatches_eq _ (by omega), Checked.ok_bind, hname,
    ← List.range_eq_range']
  unfold HeaderAt
  by_cases hnamed : (List.range 8).map (fun i => flash.data (header + i)) = partitionName type
  · rw [decide_eq_true hnamed, Bool.not_true, if_neg (by decide), readU16_word16 (by omega),
      Checked.ok_bind]
    by_cases hflags : flash.word16 (header + 10) = 0
    · rw [if_neg (not_not.mpr hflags), readU32_word32 (by omega), Checked.ok_bind]
      by_cases hmarker : flash.word32 (header + 12) = partitionMarker
      · rw [if_neg (not_not.mpr hmarker), erasedFrom_eq h]
        simp [hnamed, hflags, hmarker]
      · simp [hmarker]
    · simp [hflags]
  · simp [hnamed]

/-- The SG partition at `base`. -/
def sgPartition (base : Nat) : Partition := { base, size := sgPartitionSize, layout := .sg }

theorem sgPartitionMatches_eq (type : PartitionType) {offset : Nat} :
    sgPartitionMatches flash type offset = .ok (decide (SgPartitionAt flash type offset)) := by
  unfold sgPartitionMatches SgPartitionAt
  by_cases hfits : offset + sgPartitionSize ≤ flash.size
  · have hheader : sgHeaderSize ≤ sgPartitionSize := by decide
    rw [if_pos (by omega), Checked.sub_of_le (by omega), Checked.ok_bind, if_pos (by omega),
      partitionHeaderMatches_eq (by decide) (by omega)]
    simp [hfits]
  · by_cases hsize : flash.size ≥ sgPartitionSize
    · rw [if_pos hsize, Checked.sub_of_le hsize, Checked.ok_bind, if_neg (by omega)]
      simp [hfits]
    · rw [if_neg hsize]
      simp [hfits]

/-- An NSG partition of the type ends with the 64 KiB block at `offset`. -/
def NsgPartitionAt (flash : FlashMap) (type : PartitionType) (offset : Nat) : Prop :=
  partitionBlockSize * 3 ≤ offset ∧
    HeaderAt flash type nsgHeaderSize (offset + partitionBlockSize - nsgHeaderSize)

instance (flash : FlashMap) (type : PartitionType) (offset : Nat) :
    Decidable (NsgPartitionAt flash type offset) :=
  inferInstanceAs (Decidable (_ ∧ _))

/-- The NSG partition that ends with the block at `offset`. -/
def nsgPartitionTo (offset : Nat) : Partition :=
  { base := offset - partitionBlockSize * 3, size := nsgPartitionSize, layout := .nsg }

theorem nsgPartitionMatches_eq (type : PartitionType) {offset : Nat}
    (h : offset + partitionBlockSize ≤ flash.size) :
    nsgPartitionMatches flash type offset = .ok (decide (NsgPartitionAt flash type offset)) := by
  unfold nsgPartitionMatches NsgPartitionAt
  by_cases hlow : partitionBlockSize * 3 ≤ offset
  · have hheader : nsgHeaderSize ≤ partitionBlockSize := by decide
    rw [if_pos hlow, partitionHeaderMatches_eq (by decide) (by omega)]
    simp [hlow]
  · rw [if_neg hlow]
    simp [hlow]

/-- The partition of the type that starts (SG) or ends (NSG) in the block at `offset`, if any. -/
def partitionIn (flash : FlashMap) (type : PartitionType) (offset : Nat) : Option Partition :=
  if SgPartitionAt flash type offset then some (sgPartition offset)
  else if NsgPartitionAt flash type offset then some (nsgPartitionTo offset)
  else none

theorem partitionAt_eq_partitionIn (type : PartitionType) {offset : Nat}
    (h : offset + partitionBlockSize ≤ flash.size) :
    partitionAt flash type offset = .ok (partitionIn flash type offset) := by
  rw [partitionAt, sgPartitionMatches_eq, Checked.ok_bind, partitionIn]
  by_cases hsg : SgPartitionAt flash type offset
  · rw [if_pos hsg, decide_eq_true hsg, if_pos rfl]
    rfl
  · rw [if_neg hsg, decide_eq_false hsg, if_neg (by decide), nsgPartitionMatches_eq type h, Checked.ok_bind]
    by_cases hnsg : NsgPartitionAt flash type offset
    · rw [if_pos hnsg, decide_eq_true hnsg, if_pos rfl]
      rfl
    · rw [if_neg hnsg, decide_eq_false hnsg, if_neg (by decide)]
      rfl

theorem inImage_of_partitionIn {offset : Nat} (h : offset + partitionBlockSize ≤ flash.size)
    (hin : partitionIn flash type offset = some partition) : partition.InImage flash := by
  unfold partitionIn at hin
  split_ifs at hin with hsg hnsg
  · obtain rfl := Option.some.inj hin
    exact ⟨hsg.1, rfl⟩
  · obtain rfl := Option.some.inj hin
    refine ⟨?_, rfl⟩
    have hlow := hnsg.1
    simp only [nsgPartitionTo, nsgPartitionSize, partitionBlockSize] at h hlow ⊢
    omega

/-! ## Table entries -/

/-- The size field of the table entry at `entry`. -/
def sizeField (flash : FlashMap) (layout : Layout) (type : PartitionType) (entry : Nat) : Nat :=
  if layout = .nsg ∧ type = .eelite then flash.word16 (entry + 8) else flash.word32 (entry + 8)

/-- The id field of the table entry at `entry`. -/
def idField (flash : FlashMap) (layout : Layout) (type : PartitionType) (entry : Nat) : Nat :=
  if layout = .nsg ∧ type = .eelite then flash.word16 (entry + 4) else flash.word32 (entry + 4)

def entryState (flash : FlashMap) (entry : Nat) : Nat := flash.word32 entry &&& entryStateMask

/-- The block id that an id field stands for. -/
def fieldId (type : PartitionType) (field : Nat) : Nat :=
  match type with
  | .eelite => field
  | .eefull => field + eefullBlockIdBase

/-- What the search sees in the table entry at `entry`. -/
def entryClass (flash : FlashMap) (layout : Layout) (type : PartitionType) (entry : Nat) : EntryClass :=
  if isEntryStateValid (entryState flash entry) = false then .malformed
  else if entryState flash entry = entryFree then .free
  else if entryState flash entry ≠ entryValid then .inactive
  else if idField flash layout type entry > maximumId type then .malformed
  else .block (fieldId type (idField flash layout type entry))

theorem readEntryBlockId_eq (layout : Layout) (type : PartitionType) {entry : Nat}
    (hentry : entry + 16 ≤ flash.size) :
    readEntryBlockId flash layout type entry = .ok (idField flash layout type entry) := by
  unfold readEntryBlockId idField
  by_cases hshort : layout = .nsg ∧ type = .eelite
  · simp only [hshort, and_self, decide_true, if_true]
    exact readU16_word16 (by omega)
  · simp only [hshort, decide_false, Bool.false_eq_true, if_false]
    exact readU32_word32 (by omega)

theorem classifyEntry_eq (layout : Layout) (type : PartitionType) {entry : Nat}
    (hentry : entry + 16 ≤ flash.size) :
    classifyEntry flash layout type entry = .ok (entryClass flash layout type entry) := by
  rw [classifyEntry, readU32_word32 (by omega), Checked.ok_bind, ← entryState]
  dsimp only
  unfold entryClass
  cases hstate : isEntryStateValid (entryState flash entry) with
  | false => rfl
  | true =>
      rw [if_neg (show ¬ (!true) = true by decide), if_neg (show ¬ true = false by decide)]
      by_cases hfree : entryState flash entry = entryFree
      · rw [if_pos hfree, if_pos hfree]
        rfl
      · rw [if_neg hfree, if_neg hfree, readEntryBlockId_eq layout type hentry, Checked.ok_bind]
        split_ifs with hinactive hmax
        · rfl
        · rfl
        · cases type with
          | eelite => rfl
          | eefull =>
              simp only [maximumId, uint32Max, eefullBlockIdBase] at hmax
              simp only [Checked.add_of_lt (show idField flash layout .eefull entry + eefullBlockIdBase < 2 ^ 32
                by simp only [eefullBlockIdBase]; omega)]
              rfl

/-- The number of entries that a search of the partition looks at. -/
def entryCount (partition : Partition) : Nat := partition.size / eitEntrySize partition.layout - 1

/-- The offset of entry `number` in its partition. -/
def entryPlace (partition : Partition) (number : Nat) : Nat :=
  match partition.layout with
  | .nsg => partition.size - nsgEitEntrySize * number - nsgEitEntrySize
  | .sg => partition.size - sgEitEntrySize * number

/-- The offset of entry `number` in the image. -/
def entryAddress (partition : Partition) (number : Nat) : Nat := partition.base + entryPlace partition number

theorem entryOffset_eq (hp : partition.InImage flash) {number : Nat} (hpos : 1 ≤ number)
    (hcount : number ≤ entryCount partition) :
    entryOffset partition number = .ok (entryPlace partition number) ∧
      entryPlace partition number + 16 ≤ partition.size := by
  have hsize := hp.size_eq
  unfold entryOffset entryPlace
  rw [entryCount] at hcount
  cases hlayout : partition.layout with
  | nsg =>
      simp only [hlayout, eitEntrySize, nsgEitEntrySize, nsgPartitionSize, partitionBlockSize]
        at hsize hcount ⊢
      rw [Checked.mul_of_lt (by omega), Checked.ok_bind, Checked.sub_of_le (by omega),
        Checked.ok_bind, Checked.sub_of_le (by omega)]
      exact ⟨rfl, by omega⟩
  | sg =>
      simp only [hlayout, eitEntrySize, sgEitEntrySize, sgPartitionSize, partitionBlockSize]
        at hsize hcount ⊢
      rw [Checked.mul_of_lt (by omega), Checked.ok_bind, Checked.sub_of_le (by omega),
        Checked.ok_bind]
      exact ⟨rfl, by omega⟩

theorem entryAddress_le (hp : partition.InImage flash) {number : Nat} (hpos : 1 ≤ number)
    (hcount : number ≤ entryCount partition) : entryAddress partition number + 16 ≤ flash.size := by
  have hplace := (entryOffset_eq hp hpos hcount).2
  have hfits := hp.fits
  rw [entryAddress]
  omega

end Pmb887x.Eeprom
