import Pmb887x.Eeprom.DeviceEntry
import Pmb887x.Eeprom.Tool

set_option autoImplicit false

/-! # The entry that the script lists

What `getPartitions` and `parseEeprom` of `tools/fw/eeprom.pl` find in an image, said by its words: the windows
with a header, the first marked entry of an id, and what the script makes of it. -/

namespace Pmb887x.Eeprom.Tool

open Library

variable {flash : FlashMap} {type : PartitionType} {layout : Layout} {k : Nat}

/-! ## Reading the file -/

theorem readAt_of_le {offset size : Int} {a n : Nat} (ha : offset = a) (hn : size = n)
    (h : a + n ≤ flash.size) :
    readAt flash offset size = some ((List.range n).map fun i => flash.data (a + i)) := by
  subst ha hn
  rw [readAt, if_pos ⟨by omega, by omega, by omega⟩]
  rfl

theorem readAt_eq_none {offset size : Int} (h : ¬ (0 ≤ offset ∧ 0 ≤ size ∧ offset + size ≤ flash.size)) :
    readAt flash offset size = none := if_neg h

theorem inFile_of_readAt {offset size : Int} {bytes : List UInt8} (h : readAt flash offset size = some bytes) :
    0 ≤ offset ∧ 0 ≤ size ∧ offset + size ≤ flash.size := by
  by_contra hout
  rw [readAt_eq_none hout] at h
  cases h

theorem readUInt8_of_lt {offset : Int} {a : Nat} (ha : offset = a) (h : a + 1 ≤ flash.size) :
    readUInt8 flash offset = some (flash.data a).toNat := by
  rw [readUInt8, readAt_of_le ha (show (1 : Int) = (1 : Nat) from rfl) h]
  simp [ofLeBytes]

theorem readUInt16_of_le {offset : Int} {a : Nat} (ha : offset = a) (h : a + 2 ≤ flash.size) :
    readUInt16 flash offset = some (flash.word16 a) := by
  rw [readUInt16, readAt_of_le ha (show (2 : Int) = (2 : Nat) from rfl) h]
  rfl

theorem readUInt32_of_le {offset : Int} {a : Nat} (ha : offset = a) (h : a + 4 ≤ flash.size) :
    readUInt32 flash offset = some (flash.word32 a) := by
  rw [readUInt32, readAt_of_le ha (show (4 : Int) = (4 : Nat) from rfl) h]
  rfl

/-! ## The windows -/

/-- The header of the 64 KiB window `k`: at its start (SG) or at its end (NSG). -/
def windowHeader (flash : FlashMap) (layout : Layout) (k : Nat) : List UInt8 :=
  match layout with
  | .sg => (List.range 16).map fun i => flash.data (blockSize * k + i)
  | .nsg => (List.range 32).map fun i => flash.data (blockSize * k + (blockSize - 32) + i)

/-- The window has a header of the layout. -/
def hasHeader (flash : FlashMap) (layout : Layout) (k : Nat) : Bool :=
  match layout with
  | .sg => headerMatches 3 (windowHeader flash .sg k)
  | .nsg => headerMatches 19 (windowHeader flash .nsg k)

/-- The windows that the script looks at. The last one may go beyond the end of the file. -/
def windows (flash : FlashMap) : Nat := (flash.size + blockSize - 1) / blockSize

/-- The headers that the script reads in window `j` are in the file: both, or only the one at the start where it
has found an SG header in front. -/
def HeaderInFile (flash : FlashMap) (onlySg : Prop) [Decidable onlySg] (j : Nat) : Prop :=
  if onlySg then blockSize * j + 16 ≤ flash.size else blockSize * j + blockSize ≤ flash.size

/-- The first of `n` windows with a header is `k`, and has one of this layout. -/
structure FirstHeader (flash : FlashMap) (n : Nat) (layout : Layout) (k : Nat) : Prop where
  lt : k < n
  header : hasHeader flash layout k = true
  notSg : layout = .nsg → hasHeader flash .sg k = false
  before : ∀ j < k, ∀ layout', hasHeader flash layout' j = false

/-- What the script keeps of a window with a header. -/
def windowPart (flash : FlashMap) (layout : Layout) (k : Nat) : Part where
  name := headerName (windowHeader flash layout k)
  start :=
    match layout with
    | .sg => (blockSize * k : Nat)
    | .nsg => (blockSize * k : Nat) - (blockSize * 3 : Nat)
  size :=
    match layout with
    | .sg => blockSize * 2
    | .nsg => blockSize * 4
  unk := ofLeBytes (((windowHeader flash layout k).drop 8).take 2)

/-- The parts of the layout in the first `n` windows. -/
def partsBelow (flash : FlashMap) (layout : Layout) (n : Nat) : List Part :=
  ((List.range n).filter (hasHeader flash layout)).map (windowPart flash layout)

theorem partsBelow_succ (flash : FlashMap) (layout : Layout) (n : Nat) :
    partsBelow flash layout (n + 1)
      = partsBelow flash layout n ++ if hasHeader flash layout n then [windowPart flash layout n] else [] := by
  rw [partsBelow, partsBelow, List.range_succ, List.filter_append, List.map_append]
  by_cases h : hasHeader flash layout n = true
  · simp [h]
  · simp [h]

theorem partsBelow_of_none {n : Nat} (h : ∀ j < n, hasHeader flash layout j = false) :
    partsBelow flash layout n = [] := by
  rw [partsBelow, List.map_eq_nil_iff, List.filter_eq_nil_iff]
  intro j hj
  rw [h j (List.mem_range.mp hj)]
  decide

/-- The header that a pass finds among those that it has read. -/
def foundAt (flash : FlashMap) (up down : Bool) (k : Nat) : Option (Layout × Part) :=
  if up && hasHeader flash .sg k then some (.sg, windowPart flash .sg k)
  else if down && hasHeader flash .nsg k then some (.nsg, windowPart flash .nsg k)
  else none

theorem readHeader_eq {wanted : Bool} {offset : Int} {a n : Nat} (ha : offset = a) :
    readHeader flash wanted offset n =
      if wanted = true → a + n ≤ flash.size then
        some (if wanted then some ((List.range n).map fun i => flash.data (a + i)) else none)
      else none := by
  cases wanted with
  | false => simp [readHeader]
  | true =>
      by_cases hin : a + n ≤ flash.size
      · rw [readHeader, readAt_of_le ha rfl hin]
        simp [hin]
      · rw [readHeader, readAt_eq_none (by omega)]
        simp [hin]

theorem foundPart_eq (up down : Bool) (k : Nat) :
    foundPart (blockSize * k) (if up then some (windowHeader flash .sg k) else none)
      (if down then some (windowHeader flash .nsg k) else none) = foundAt flash up down k := by
  unfold foundPart foundAt hasHeader
  cases up with
  | true =>
      cases hsg : headerMatches 3 (windowHeader flash .sg k) with
      | true => simp [Option.filter, hsg, windowPart]
      | false =>
          cases down with
          | true =>
              cases hnsg : headerMatches 19 (windowHeader flash .nsg k) with
              | true => simp [Option.filter, hsg, hnsg, windowPart]
              | false => simp [Option.filter, hsg, hnsg]
          | false => simp [Option.filter, hsg]
  | false =>
      cases down with
      | true =>
          cases hnsg : headerMatches 19 (windowHeader flash .nsg k) with
          | true => simp [Option.filter, hnsg, windowPart]
          | false => simp [Option.filter, hnsg]
      | false => simp [Option.filter]

/-- One pass of the loop: the headers that it wants must be in the file. -/
theorem partitionsStep_eq (st : Option Layout × List Part) (k : Nat) :
    partitionsStep flash st k =
      if (decide (st.1 ≠ some .nsg) = true → blockSize * k + 16 ≤ flash.size) ∧
          (decide (st.1 ≠ some .sg) = true → blockSize * k + (blockSize - 32) + 32 ≤ flash.size) then
        some (match foundAt flash (decide (st.1 ≠ some .nsg)) (decide (st.1 ≠ some .sg)) k with
          | some (layout, blk) => (some layout, st.2 ++ [blk])
          | none => st)
      else none := by
  unfold partitionsStep
  generalize decide (st.1 ≠ some .nsg) = up
  generalize decide (st.1 ≠ some .sg) = down
  have hup := @readHeader_eq flash up _ (blockSize * k) 16 rfl
  have hdown := @readHeader_eq flash down ((blockSize * k : Nat) + (blockSize - 32 : Nat))
    (blockSize * k + (blockSize - 32)) 32 (by push_cast; rfl)
  have hfound := @foundPart_eq flash up down k
  simp only [windowHeader] at hfound
  simp only [Nat.cast_ofNat] at hup hdown
  by_cases hhigh : up = true → blockSize * k + 16 ≤ flash.size
  · by_cases hlow : down = true → blockSize * k + (blockSize - 32) + 32 ≤ flash.size
    · rw [if_pos hhigh] at hup
      rw [if_pos hlow] at hdown
      simp only [hup, hdown, Option.bind_eq_bind, Option.bind_some, hfound, if_pos (And.intro hhigh hlow)]
      cases foundAt flash up down k <;> rfl
    · rw [if_neg hlow] at hdown
      rw [if_neg fun hand => hlow hand.2]
      simp only [hup, hdown, Option.bind_eq_bind, if_pos hhigh, Option.bind_some, Option.bind_none]
  · rw [if_neg hhigh] at hup
    rw [if_neg fun hand => hhigh hand.1]
    simp only [hup, Option.bind_eq_bind, Option.bind_none]

theorem block_end (k : Nat) : blockSize * k + (blockSize - 32) + 32 = blockSize * k + blockSize := by
  have hsize : blockSize = 0x10000 := rfl
  omega

/-- A pass behind a header of this layout. -/
theorem partitionsStep_some (layout : Layout) (parts : List Part) (k : Nat) (st : Option Layout × List Part) :
    partitionsStep flash (some layout, parts) k = some st ↔
      HeaderInFile flash (layout = .sg) k ∧
        st = (some layout, parts ++ if hasHeader flash layout k then [windowPart flash layout k] else []) := by
  rw [partitionsStep_eq, block_end]
  unfold HeaderInFile foundAt
  cases layout with
  | sg =>
      by_cases hin : blockSize * k + 16 ≤ flash.size
      · cases hheader : hasHeader flash .sg k <;> simp [hin, eq_comm]
      · simp [hin]
  | nsg =>
      by_cases hin : blockSize * k + blockSize ≤ flash.size
      · cases hheader : hasHeader flash .nsg k <;> simp [hin, eq_comm]
      · simp [hin]

/-- A pass in front of the first header. -/
theorem partitionsStep_none (k : Nat) (st : Option Layout × List Part) :
    partitionsStep flash (none, []) k = some st ↔
      HeaderInFile flash False k ∧
        st = if hasHeader flash .sg k then (some .sg, [windowPart flash .sg k])
          else if hasHeader flash .nsg k then (some .nsg, [windowPart flash .nsg k]) else (none, []) := by
  rw [partitionsStep_eq, block_end]
  unfold HeaderInFile foundAt
  by_cases hin : blockSize * k + blockSize ≤ flash.size
  · have hup : blockSize * k + 16 ≤ flash.size := by
      have hsize : blockSize = 0x10000 := rfl
      omega
    cases hsg : hasHeader flash .sg k <;> cases hnsg : hasHeader flash .nsg k <;> simp [hin, hup, eq_comm]
  · simp [hin]

/-- What the loop has found in the first `n` windows. -/
def FoundBelow (flash : FlashMap) (n : Nat) (st : Option Layout × List Part) : Prop :=
  match st.1 with
  | none => st.2 = [] ∧ ∀ j < n, HeaderInFile flash False j ∧ ∀ layout, hasHeader flash layout j = false
  | some layout => st.2 = partsBelow flash layout n ∧
      ∃ k, FirstHeader flash n layout k ∧ ∀ j < n, HeaderInFile flash (layout = .sg ∧ k < j) j

theorem FirstHeader.succ {n : Nat} (h : FirstHeader flash n layout k) : FirstHeader flash (n + 1) layout k :=
  ⟨Nat.lt_succ_of_lt h.lt, h.header, h.notSg, h.before⟩

theorem headerInFile_congr {p q : Prop} [Decidable p] [Decidable q] {j : Nat} (h : p ↔ q) :
    HeaderInFile flash p j ↔ HeaderInFile flash q j := by
  unfold HeaderInFile
  simp only [h]

/-- One more window. -/
theorem FoundBelow.step {n : Nat} {st st' : Option Layout × List Part} (h : FoundBelow flash n st)
    (hstep : partitionsStep flash st n = some st') : FoundBelow flash (n + 1) st' := by
  obtain ⟨found, parts⟩ := st
  cases found with
  | none =>
      obtain ⟨hparts, hbefore⟩ := h
      obtain rfl : parts = [] := hparts
      obtain ⟨hin, hst⟩ := (partitionsStep_none n st').mp hstep
      -- every pass up to this one has asked for both headers
      have hall : ∀ p : Nat → Prop, [DecidablePred p] → (∀ j ≤ n, ¬ p j) →
          ∀ j < n + 1, HeaderInFile flash (p j) j := by
        intro p _ hp j hj
        rw [headerInFile_congr (iff_false_intro (hp j (Nat.lt_succ_iff.mp hj)))]
        rcases Nat.lt_succ_iff_lt_or_eq.mp hj with hj | rfl
        · exact (hbefore j hj).1
        · exact hin
      have hnone (layout : Layout) : partsBelow flash layout n = [] :=
        partsBelow_of_none fun j hj => (hbefore j hj).2 layout
      -- an SG header is looked for first, so it hides an NSG one in the same window
      by_cases hsg : hasHeader flash .sg n = true
      · rw [if_pos hsg] at hst
        subst hst
        refine ⟨?_, n, ⟨Nat.lt_succ_self n, hsg, nofun, fun j hj => (hbefore j hj).2⟩,
          hall (fun j => Layout.sg = .sg ∧ n < j) fun j hj hand => by omega⟩
        rw [partsBelow_succ, hnone, hsg]
        rfl
      · rw [if_neg hsg] at hst
        rw [Bool.not_eq_true] at hsg
        by_cases hnsg : hasHeader flash .nsg n = true
        · rw [if_pos hnsg] at hst
          subst hst
          refine ⟨?_, n, ⟨Nat.lt_succ_self n, hnsg, fun _ => hsg, fun j hj => (hbefore j hj).2⟩,
            hall (fun j => Layout.nsg = .sg ∧ n < j) fun j hj hand => by omega⟩
          rw [partsBelow_succ, hnone, hnsg]
          rfl
        · rw [if_neg hnsg] at hst
          rw [Bool.not_eq_true] at hnsg
          subst hst
          refine ⟨rfl, fun j hj => ⟨hall (fun _ => False) (fun _ _ => id) j hj, fun layout => ?_⟩⟩
          rcases Nat.lt_succ_iff_lt_or_eq.mp hj with hj | rfl
          · exact (hbefore j hj).2 layout
          · cases layout with
            | sg => exact hsg
            | nsg => exact hnsg
  | some layout =>
      obtain ⟨hparts, k, hfirst, hbefore⟩ := h
      obtain rfl : parts = partsBelow flash layout n := hparts
      obtain ⟨hin, rfl⟩ := (partitionsStep_some layout _ n st').mp hstep
      refine ⟨(partsBelow_succ flash layout n).symm, k, hfirst.succ, fun j hj => ?_⟩
      rcases Nat.lt_succ_iff_lt_or_eq.mp hj with hj | rfl
      · exact hbefore j hj
      · exact (headerInFile_congr (and_iff_left hfirst.lt)).mpr hin

/-- One window less. -/
theorem FoundBelow.unstep {n : Nat} {st' : Option Layout × List Part} (h : FoundBelow flash (n + 1) st') :
    ∃ st, FoundBelow flash n st ∧ partitionsStep flash st n = some st' := by
  obtain ⟨found, parts⟩ := st'
  cases found with
  | none =>
      obtain ⟨hparts, hbefore⟩ := h
      obtain rfl : parts = [] := hparts
      obtain ⟨hin, hnone⟩ := hbefore n (Nat.lt_succ_self n)
      refine ⟨(none, []), ⟨rfl, fun j hj => hbefore j (Nat.lt_succ_of_lt hj)⟩, ?_⟩
      rw [partitionsStep_none, hnone, hnone]
      exact ⟨hin, rfl⟩
  | some layout =>
      obtain ⟨hparts, k, hfirst, hbefore⟩ := h
      obtain rfl : parts = partsBelow flash layout (n + 1) := hparts
      rw [partsBelow_succ]
      have hin := hbefore n (Nat.lt_succ_self n)
      rcases Nat.lt_succ_iff_lt_or_eq.mp hfirst.lt with hlt | rfl
      · refine ⟨(some layout, partsBelow flash layout n), ⟨rfl, k, ⟨hlt, hfirst.header, hfirst.notSg, hfirst.before⟩,
          fun j hj => hbefore j (Nat.lt_succ_of_lt hj)⟩, ?_⟩
        rw [partitionsStep_some]
        exact ⟨(headerInFile_congr (and_iff_left hlt)).mp hin, rfl⟩
      · -- this is the first header
        have hnot (j : Nat) (hj : j ≤ k) : HeaderInFile flash (layout = .sg ∧ k < j) j ↔ HeaderInFile flash False j :=
          headerInFile_congr (iff_false_intro fun hand => Nat.not_lt.mpr hj hand.2)
        refine ⟨(none, []), ⟨rfl, fun j hj => ⟨?_, hfirst.before j hj⟩⟩, ?_⟩
        · exact (hnot j (Nat.le_of_lt hj)).mp (hbefore j (Nat.lt_succ_of_lt hj))
        · rw [partitionsStep_none, partsBelow_of_none fun j hj => hfirst.before j hj layout, hfirst.header]
          refine ⟨(hnot k (Nat.le_refl k)).mp hin, ?_⟩
          cases layout with
          | sg => rw [if_pos hfirst.header]; rfl
          | nsg => rw [hfirst.notSg rfl, if_neg Bool.false_ne_true, if_pos hfirst.header]; rfl

theorem foldlM_partitionsStep (n : Nat) (st : Option Layout × List Part) :
    (List.range n).foldlM (partitionsStep flash) (none, []) = some st ↔ FoundBelow flash n st := by
  induction n generalizing st with
  | zero =>
      rw [List.range_zero, List.foldlM_nil]
      obtain ⟨found, parts⟩ := st
      cases found with
      | none =>
          constructor
          · intro h
            cases h
            exact ⟨rfl, fun j hj => absurd hj (Nat.not_lt_zero j)⟩
          · rintro ⟨hparts, -⟩
            obtain rfl : parts = [] := hparts
            rfl
      | some layout =>
          refine iff_of_false (by simp) ?_
          rintro ⟨-, k, hfirst, -⟩
          exact Nat.not_lt_zero k hfirst.lt
  | succ n ih =>
      rw [List.range_succ, List.foldlM_append, Option.bind_eq_bind, Option.bind_eq_some_iff]
      simp only [List.foldlM_cons, List.foldlM_nil, Option.bind_eq_bind, Option.pure_def, Option.bind_fun_some, ih]
      constructor
      · rintro ⟨st₁, hfound, hstep⟩
        exact hfound.step hstep
      · exact FoundBelow.unstep

/-- The headers that the script reads are in the file, when the first one of its layout is in window `k`. -/
def HeadersInFile (flash : FlashMap) (layout : Layout) (k : Nat) : Prop :=
  ∀ j < windows flash, HeaderInFile flash (layout = .sg ∧ k < j) j

/-- **What `getPartitions` finds.** -/
theorem getPartitions_eq_some_iff (parts : List Part) :
    getPartitions flash = some (some layout, parts) ↔
      parts = partsBelow flash layout (windows flash) ∧
        ∃ k, FirstHeader flash (windows flash) layout k ∧ HeadersInFile flash layout k :=
  foldlM_partitionsStep (windows flash) (some layout, parts)

theorem eq_nil_of_getPartitions {parts : List Part} (h : getPartitions flash = some (none, parts)) : parts = [] :=
  ((foldlM_partitionsStep (windows flash) (none, parts)).mp h).1

/-! ## The entries -/

/-- The partition that starts (SG) or ends (NSG) in the window. -/
def windowPartition (layout : Layout) (k : Nat) : Partition :=
  match layout with
  | .sg => sgPartition (blockSize * k)
  | .nsg => nsgPartitionTo (blockSize * k)

/-- The windows with a header of the layout and the name of the type. -/
def typeWindows (flash : FlashMap) (type : PartitionType) (layout : Layout) : List Nat :=
  (List.range (windows flash)).filter fun k =>
    hasHeader flash layout k && decide (headerName (windowHeader flash layout k) = typeName type)

/-- The entries that the script looks at, in its order: the window and the number. -/
def scriptEntries (flash : FlashMap) (type : PartitionType) (layout : Layout) : List (Nat × Nat) :=
  (typeWindows flash type layout).flatMap fun k =>
    (List.range' 1 (entryCount (windowPartition layout k))).map fun n => (k, n)

/-- The offset of an entry in the image. -/
def scriptAddress (layout : Layout) (e : Nat × Nat) : Nat := entryAddress (windowPartition layout e.1) e.2

/-- The entry is marked as written, for this id. -/
def Marked (flash : FlashMap) (type : PartitionType) (layout : Layout) (id entry : Nat) : Prop :=
  flash.word32 entry = 0xFFFFFFC0 ∧ idField flash layout type entry ≠ 0xFFFFFFFF ∧
    fieldId type (idField flash layout type entry) = id

instance (flash : FlashMap) (type : PartitionType) (layout : Layout) (id entry : Nat) :
    Decidable (Marked flash type layout id entry) :=
  inferInstanceAs (Decidable (_ ∧ _ ∧ _))

/-- The first entry that is marked for the id. -/
def scriptEntry (flash : FlashMap) (type : PartitionType) (layout : Layout) (id : Nat) : Option (Nat × Nat) :=
  (scriptEntries flash type layout).find? fun e => decide (Marked flash type layout id (scriptAddress layout e))

/-- The partition of the window lies in the file, if its header does. -/
def PartitionInFile (flash : FlashMap) (layout : Layout) (k : Nat) : Prop :=
  match layout with
  | .sg => blockSize * k + sgPartitionSize ≤ flash.size
  | .nsg => partitionBlockSize * 3 ≤ blockSize * k

/-- The value of an entry lies in the file, its version byte included. -/
def ValueInFile (flash : FlashMap) (type : PartitionType) (partition : Partition) (entry : Nat) : Prop :=
  (partition.layout = .nsg ∧ type = .eelite ∨ 0 < sizeField flash partition.layout type entry) ∧
    partition.base + flash.word32 (entry + 12) + sizeField flash partition.layout type entry ≤ flash.size

/-- The version and the bytes by the same words, at the stored offset and with one byte of EEFULL metadata. -/
def scriptContents (flash : FlashMap) (partition : Partition) (type : PartitionType) (number : Nat) : Contents :=
  contentsOf flash partition.layout type (entryAddress partition number)
    (valueAt flash partition (entryAddress partition number)) 1

/-! ### Places -/

theorem partsOf_partsBelow (flash : FlashMap) (type : PartitionType) (layout : Layout) :
    partsOf type (partsBelow flash layout (windows flash))
      = (typeWindows flash type layout).map (windowPart flash layout) := by
  rw [partsOf, partsBelow, List.filter_map, List.filter_filter, typeWindows]
  congr 1
  refine List.filter_congr fun k _ => ?_
  rw [Bool.and_comm]
  rfl

theorem isNsg_some (layout : Layout) : isNsg (some layout) = decide (layout = .nsg) := by
  cases layout <;> rfl

theorem layout_windowPartition (layout : Layout) (k : Nat) : (windowPartition layout k).layout = layout := by
  cases layout <;> rfl

/-- The script looks at as many entries as a search does. -/
theorem entryCount_windowPartition (layout : Layout) (k : Nat) :
    entryCount (windowPartition layout k) = 0x1FFF := by
  cases layout with
  | sg => exact congrArg (· - 1) (show sgPartitionSize / sgEitEntrySize = 0x2000 by decide)
  | nsg => exact congrArg (· - 1) (show nsgPartitionSize / nsgEitEntrySize = 0x2000 by decide)

/-- The place that the loops of the script have for an entry. -/
def placeOf (flash : FlashMap) (layout : Layout) (e : Nat × Nat) : Part × Nat := (windowPart flash layout e.1, e.2)

theorem places_eq (flash : FlashMap) (type : PartitionType) (layout : Layout) :
    places (isNsg (some layout)) ((typeWindows flash type layout).map (windowPart flash layout))
      = (scriptEntries flash type layout).map (placeOf flash layout) := by
  rw [places, scriptEntries, List.flatMap_map, List.map_flatMap]
  congr 1
  funext k
  rw [List.map_map]
  cases layout <;> rfl

theorem mem_scriptEntries {e : Nat × Nat} (h : e ∈ scriptEntries flash type layout) :
    e.1 ∈ typeWindows flash type layout ∧ 1 ≤ e.2 ∧ e.2 ≤ entryCount (windowPartition layout e.1) := by
  obtain ⟨k, hk, he⟩ := List.mem_flatMap.mp h
  obtain ⟨n, hn, rfl⟩ := List.mem_map.mp he
  rw [List.mem_range'_1] at hn
  exact ⟨hk, hn.1, Nat.le_of_lt_succ (hn.2.trans_eq (Nat.add_comm 1 _))⟩

theorem inImage_windowPartition (hheader : HeaderInFile flash (layout = .sg) k)
    (hin : PartitionInFile flash layout k) : (windowPartition layout k).InImage flash := by
  unfold HeaderInFile at hheader
  cases layout with
  | sg => exact ⟨hin, rfl⟩
  | nsg =>
      refine ⟨?_, rfl⟩
      rw [if_neg nofun] at hheader
      change partitionBlockSize * 3 ≤ blockSize * k at hin
      change blockSize * k - partitionBlockSize * 3 + nsgPartitionSize ≤ flash.size
      simp only [partitionBlockSize, nsgPartitionSize, blockSize] at hheader hin ⊢
      omega

/-- The offset that the script seeks to. -/
theorem eitOffset_eq {n : Nat} (hp : (windowPartition layout k).InImage flash)
    (hin : PartitionInFile flash layout k) (hpos : 1 ≤ n) (hcount : n ≤ entryCount (windowPartition layout k)) :
    eitOffset (isNsg (some layout)) (windowPart flash layout k) n = (scriptAddress layout (k, n) : Nat) := by
  have hplace := (entryOffset_eq hp hpos hcount).2
  rw [isNsg_some]
  rw [entryCount_windowPartition] at hcount
  cases layout with
  | sg =>
      simp only [eitOffset, windowPart, scriptAddress, entryAddress, entryPlace, windowPartition, sgPartition,
        entrySize, reduceCtorEq, decide_false, Bool.false_eq_true, if_false, sgPartitionSize, sgEitEntrySize,
        partitionBlockSize, blockSize]
      omega
  | nsg =>
      change partitionBlockSize * 3 ≤ blockSize * k at hin
      simp only [partitionBlockSize, blockSize] at hin
      simp only [eitOffset, windowPart, scriptAddress, entryAddress, entryPlace, windowPartition, nsgPartitionTo,
        entrySize, decide_true, if_true, nsgPartitionSize, nsgEitEntrySize, partitionBlockSize, blockSize]
      omega

/-! ### Keys -/

/-- The table entry that the script reads at `entry`. -/
def entryAt (flash : FlashMap) (layout : Layout) (type : PartitionType) (entry : Nat) : Entry where
  eit := entry
  flags := flash.word32 entry
  blockId := idField flash layout type entry
  ver := if layout = .nsg ∧ type = .eelite then some (flash.data (entry + 7)).toNat else none
  size := (sizeField flash layout type entry : Int) - if layout = .nsg ∧ type = .eelite then 0 else 1
  offset := flash.word32 (entry + 12)

theorem readEntry_at (layout : Layout) (type : PartitionType) {a : Nat} (h : a + 16 ≤ flash.size) :
    readEntry flash type (isNsg (some layout)) a = some (entryAt flash layout type a) := by
  rw [isNsg_some]
  by_cases hshort : layout = .nsg ∧ type = .eelite
  · obtain ⟨rfl, rfl⟩ := hshort
    rw [readEntry, if_pos ⟨rfl, rfl⟩, readUInt32_of_le rfl (by omega),
      readUInt16_of_le (a := a + 4) (by omega) (by omega),
      readUInt8_of_lt (a := a + 6) (by omega) (by omega),
      readUInt8_of_lt (a := a + 7) (by omega) (by omega),
      readUInt16_of_le (a := a + 8) (by omega) (by omega),
      readUInt16_of_le (a := a + 10) (by omega) (by omega),
      readUInt32_of_le (a := a + 12) (by omega) (by omega)]
    simp [entryAt, idField, sizeField]
  · rw [readEntry, if_neg (by simpa using hshort), readUInt32_of_le rfl (by omega),
      readUInt32_of_le (a := a + 4) (by omega) (by omega),
      readUInt32_of_le (a := a + 8) (by omega) (by omega),
      readUInt32_of_le (a := a + 12) (by omega) (by omega)]
    simp [entryAt, idField, sizeField, hshort]

/-- The script lists the marked entries. -/
theorem entryId_iff {entry id : Nat} :
    entryId type (entryAt flash layout type entry) = some id ↔ Marked flash type layout id entry := by
  unfold entryId Marked entryAt
  dsimp only
  generalize idField flash layout type entry = field
  by_cases hflags : flash.word32 entry = 0xFFFFFFC0
  · rw [hflags, if_neg (by decide)]
    by_cases hfield : field = 0xFFFFFFFF
    · simp [hfield]
    · rw [if_neg hfield, if_neg (by simp)]
      cases type with
      | eelite => simp [hfield, fieldId]
      | eefull => simp [hfield, fieldId, eefullBlockIdBase]
  · simp [hflags]

/-- The key of an entry for the script's loop. -/
def placeKey (flash : FlashMap) (type : PartitionType) (nsg : Bool) (place : Part × Nat) :
    Option (Option Nat) :=
  (readEntry flash type nsg (eitOffset nsg place.1 place.2)).map (entryId type)

/-- What the script makes of an entry it lists. -/
def placeItem (flash : FlashMap) (type : PartitionType) (nsg : Bool) (place : Part × Nat) :
    Option Item :=
  (readEntry flash type nsg (eitOffset nsg place.1 place.2)).bind fun entry =>
    (entryId type entry).bind (readItem flash type nsg place.1 entry)

/-- The entry is read where its partition is in the file. -/
theorem readEntry_placeOf {e : Nat × Nat} (hp : (windowPartition layout e.1).InImage flash)
    (hin : PartitionInFile flash layout e.1) (hpos : 1 ≤ e.2)
    (hcount : e.2 ≤ entryCount (windowPartition layout e.1)) :
    readEntry flash type (isNsg (some layout))
        (eitOffset (isNsg (some layout)) (placeOf flash layout e).1 (placeOf flash layout e).2)
      = some (entryAt flash layout type (scriptAddress layout e)) := by
  have heit : eitOffset (isNsg (some layout)) (placeOf flash layout e).1 (placeOf flash layout e).2
      = (scriptAddress layout e : Nat) := eitOffset_eq hp hin hpos hcount
  rw [heit]
  exact readEntry_at layout type (entryAddress_le hp hpos hcount)

/-- An entry that the script has read begins and ends in the file. -/
theorem inFile_of_readEntry {nsg : Bool} {eit : Int} {entry : Entry} (h : readEntry flash type nsg eit = some entry) :
    0 ≤ eit ∧ eit + 16 ≤ flash.size := by
  have hfirst : readAt flash eit 4 ≠ none := by
    intro hnone
    have hflags : readUInt32 flash eit = none := by rw [readUInt32, hnone]; rfl
    unfold readEntry at h
    split_ifs at h
    · rw [hflags] at h
      cases h
    · rw [hflags] at h
      cases h
  -- the flags are the first word of both formats, the offset is the last one
  have hlast : readAt flash (eit + 12) 4 ≠ none := by
    intro hnone
    have hoffset : readUInt32 flash (eit + 12) = none := by rw [readUInt32, hnone]; rfl
    unfold readEntry at h
    simp only [hoffset, Option.bind_eq_bind, Option.bind_none, Option.bind_fun_none, ite_self] at h
    cases h
  obtain ⟨first, hfirst⟩ := Option.ne_none_iff_exists'.mp hfirst
  obtain ⟨last, hlast⟩ := Option.ne_none_iff_exists'.mp hlast
  have hbegin := inFile_of_readAt hfirst
  have hend := inFile_of_readAt hlast
  omega

/-- A partition whose entries can all be read is in the file. -/
theorem partitionInFile_of_keys
    (h : ∀ n, 1 ≤ n → n ≤ entryCount (windowPartition layout k) →
      placeKey flash type (isNsg (some layout)) (placeOf flash layout (k, n)) ≠ none) :
    PartitionInFile flash layout k := by
  have hread : ∀ n, 1 ≤ n → n ≤ entryCount (windowPartition layout k) →
      0 ≤ eitOffset (isNsg (some layout)) (windowPart flash layout k) n ∧
        eitOffset (isNsg (some layout)) (windowPart flash layout k) n + 16 ≤ flash.size := by
    intro n hpos hcount
    obtain ⟨key, hkey⟩ := Option.ne_none_iff_exists'.mp (h n hpos hcount)
    obtain ⟨entry, hentry, -⟩ := Option.map_eq_some_iff.mp hkey
    exact inFile_of_readEntry hentry
  rw [isNsg_some, entryCount_windowPartition] at hread
  cases layout with
  | sg =>
      -- the table of an SG partition grows down from its end: entry 1 is the highest
      have htop := (hread 1 (Nat.le_refl 1) (by decide)).2
      simp only [eitOffset, windowPart, entrySize, reduceCtorEq, decide_false, Bool.false_eq_true, if_false,
        blockSize] at htop
      change blockSize * k + sgPartitionSize ≤ flash.size
      simp only [blockSize, sgPartitionSize, partitionBlockSize]
      omega
  | nsg =>
      -- entry 0x1FFF is the lowest one of an NSG partition
      have hbottom := (hread 0x1FFF (by decide) (by decide)).1
      simp only [eitOffset, windowPart, entrySize, decide_true, if_true, blockSize] at hbottom
      change partitionBlockSize * 3 ≤ blockSize * k
      simp only [blockSize, partitionBlockSize]
      omega

/-! ### Items -/

/-- The item of a listed entry. -/
def scriptItem (flash : FlashMap) (partition : Partition) (type : PartitionType) (number id : Nat) : Item where
  flags := flash.word32 (entryAddress partition number)
  type := type
  id := id
  ver := (scriptContents flash partition type number).version
  size := (scriptContents flash partition type number).bytes.length
  eit := entryAddress partition number
  offset := partition.base + flash.word32 (entryAddress partition number + 12) + if type = .eefull then 1 else 0
  value := (scriptContents flash partition type number).bytes

variable {partition : Partition} {blk : Part}

/-- The script reads a value that is in the file. -/
theorem readItem_of_valueInFile {number : Nat} (hstart : blk.start = partition.base)
    (hvalue : ValueInFile flash type partition (entryAddress partition number)) (id : Nat) :
    readItem flash type (isNsg (some partition.layout)) blk
        (entryAt flash partition.layout type (entryAddress partition number)) id
      = some (scriptItem flash partition type number id) := by
  obtain ⟨hsize, hend⟩ := hvalue
  unfold readItem readVersion scriptItem scriptContents contentsOf entryAt valueAt
  rw [isNsg_some, hstart]
  generalize sizeField flash partition.layout type (entryAddress partition number) = size at hsize hend ⊢
  generalize flash.word32 (entryAddress partition number + 12) = offset at hend ⊢
  cases type with
  | eefull =>
      -- the version is the first byte of the value
      replace hsize : 0 < size := hsize.resolve_left fun hand => by cases hand.2
      have hversion : readUInt8 flash (partition.base + offset) = some (flash.data (partition.base + offset)).toNat :=
        readUInt8_of_lt (by omega) (by omega)
      have hbytes : readAt flash (partition.base + offset + 1) ((size : Int) - 1)
          = some ((List.range (size - 1)).map fun i => flash.data (partition.base + offset + 1 + i)) :=
        readAt_of_le (by omega) (by omega) (by omega)
      simp [hversion, hbytes, Nat.add_assoc, Nat.cast_sub (Nat.succ_le_of_lt hsize)]
  | eelite =>
      cases hlayout : partition.layout with
      | nsg =>
          have hbytes : readAt flash (partition.base + offset) size
              = some ((List.range size).map fun i => flash.data (partition.base + offset + i)) :=
            readAt_of_le (by omega) (by omega) (by omega)
          simp [hbytes]
      | sg =>
          -- the version is the last byte of the value
          replace hsize : 0 < size := hsize.resolve_left fun hand => by
            rw [hlayout] at hand
            cases hand.1
          have hversion : readUInt8 flash (partition.base + offset + ((size : Int) - 1))
              = some (flash.data (partition.base + offset + (size - 1))).toNat :=
            readUInt8_of_lt (by omega) (by omega)
          have hbytes : readAt flash (partition.base + offset) ((size : Int) - 1)
              = some ((List.range (size - 1)).map fun i => flash.data (partition.base + offset + i)) :=
            readAt_of_le (by omega) (by omega) (by omega)
          simp [hversion, hbytes, Nat.cast_sub (Nat.succ_le_of_lt hsize)]

/-- A value that the script has read is in the file. -/
theorem valueInFile_of_readItem {entry id : Nat} {item : Item} (hstart : blk.start = partition.base)
    (h : readItem flash type (isNsg (some partition.layout)) blk (entryAt flash partition.layout type entry) id
      = some item) : ValueInFile flash type partition entry := by
  rw [isNsg_some] at h
  obtain ⟨⟨valueOffset, ver⟩, hversion, h⟩ := Option.bind_eq_some_iff.mp h
  obtain ⟨value, hvalue, -⟩ := Option.bind_eq_some_iff.mp h
  replace hvalue := inFile_of_readAt hvalue
  unfold ValueInFile
  unfold readVersion at hversion
  unfold entryAt at hversion hvalue
  dsimp only at hversion hvalue
  generalize sizeField flash partition.layout type entry = size at hversion hvalue ⊢
  generalize flash.word32 (entry + 12) = offset at hversion hvalue ⊢
  cases type with
  | eefull =>
      obtain ⟨_, -, hver⟩ := Option.bind_eq_some_iff.mp ((if_pos rfl).symm.trans hversion)
      cases hver
      simp only [reduceCtorEq, and_false, if_false] at hvalue
      omega
  | eelite =>
      cases hlayout : partition.layout with
      | nsg =>
          rw [hlayout] at hversion hvalue
          simp only [reduceCtorEq, if_false, if_true, decide_true, and_self, Option.map_some, Option.some.injEq,
            Prod.mk.injEq] at hversion
          obtain ⟨rfl, -⟩ := hversion
          simp only [and_self, if_true] at hvalue
          exact ⟨.inl ⟨rfl, rfl⟩, by omega⟩
      | sg =>
          rw [hlayout] at hversion hvalue
          simp only [reduceCtorEq, decide_false, Bool.false_eq_true, if_false, false_and,
            Option.map_eq_some_iff] at hversion hvalue
          obtain ⟨ver', hread, hver⟩ := hversion
          obtain ⟨bytes, hread, -⟩ := Option.map_eq_some_iff.mp hread
          have hlast := inFile_of_readAt hread
          cases hver
          exact ⟨.inr (by omega), by omega⟩

theorem start_windowPart (hin : PartitionInFile flash layout k) :
    (windowPart flash layout k).start = (windowPartition layout k).base := by
  cases layout with
  | sg => rfl
  | nsg =>
      change partitionBlockSize * 3 ≤ blockSize * k at hin
      change ((blockSize * k : Nat) : Int) - (blockSize * 3 : Nat) = (blockSize * k - partitionBlockSize * 3 : Nat)
      simp only [partitionBlockSize, blockSize] at hin ⊢
      omega

/-- The key of an entry that is in the file. -/
theorem placeKey_placeOf_iff {e : Nat × Nat} {id : Nat}
    (hread : readEntry flash type (isNsg (some layout))
        (eitOffset (isNsg (some layout)) (placeOf flash layout e).1 (placeOf flash layout e).2)
      = some (entryAt flash layout type (scriptAddress layout e))) :
    placeKey flash type (isNsg (some layout)) (placeOf flash layout e) = some (some id) ↔
      Marked flash type layout id (scriptAddress layout e) := by
  rw [placeKey, hread, Option.map_some, Option.some.injEq, entryId_iff]

/-- The item of a marked entry. -/
theorem placeItem_placeOf {e : Nat × Nat} {id : Nat} (hin : PartitionInFile flash layout e.1)
    (hread : readEntry flash type (isNsg (some layout))
        (eitOffset (isNsg (some layout)) (placeOf flash layout e).1 (placeOf flash layout e).2)
      = some (entryAt flash layout type (scriptAddress layout e)))
    (hmarked : Marked flash type layout id (scriptAddress layout e)) (item : Item) :
    placeItem flash type (isNsg (some layout)) (placeOf flash layout e) = some item ↔
      ValueInFile flash type (windowPartition layout e.1) (scriptAddress layout e) ∧
        item = scriptItem flash (windowPartition layout e.1) type e.2 id := by
  have hstart : (placeOf flash layout e).1.start = (windowPartition layout e.1).base := start_windowPart hin
  have hlayout := layout_windowPartition layout e.1
  rw [placeItem, hread, Option.bind_some, entryId_iff.mpr hmarked, Option.bind_some]
  constructor
  · intro hitem
    have hvalue : ValueInFile flash type (windowPartition layout e.1) (scriptAddress layout e) :=
      valueInFile_of_readItem hstart (by rw [hlayout]; exact hitem)
    refine ⟨hvalue, ?_⟩
    have hreads := readItem_of_valueInFile hstart hvalue id
    rw [hlayout] at hreads
    exact Option.some.inj (hitem.symm.trans hreads)
  · rintro ⟨hvalue, rfl⟩
    have hreads := readItem_of_valueInFile hstart hvalue id
    rw [hlayout] at hreads
    exact hreads

end Pmb887x.Eeprom.Tool
