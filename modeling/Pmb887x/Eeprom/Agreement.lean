import Pmb887x.Eeprom.ScriptEntry

set_option autoImplicit false

/-! # The device's reader and the host tool's

The parser of `unit/eeprom.c` and the script `tools/fw/eeprom.pl` read one format. The script knows
only a part of it: entries whose state word is exactly `0xFFFFFFC0`, the first of each id, the value
at the stored offset, one byte of EEFULL metadata. `readers_agree_iff` says for which images it lists
the block that the parser finds, in terms of the words of the image. -/

namespace Pmb887x.Eeprom

open Library

namespace Tool

variable {flash : FlashMap} {type : PartitionType} {layout : Layout} {k : Nat}

/-! ## What the script lists -/

theorem parseEntry_eq (flash : FlashMap) (type : PartitionType) (nsg : Bool) :
    parseEntry flash type nsg
      = collectStep (placeKey flash type nsg) (placeItem flash type nsg) := by
  funext st place
  unfold parseEntry collectStep placeKey placeItem
  cases readEntry flash type nsg (eitOffset nsg place.1 place.2) with
  | none => rfl
  | some entry =>
      dsimp only [Option.bind_eq_bind, Option.bind_some, Option.map_some]
      cases hid : entryId type entry with
      | none => rfl
      | some id =>
          dsimp only [Option.bind_some]
          by_cases hseen : id ∈ st.1
          · rw [if_pos hseen, if_pos hseen]
          · rw [if_neg hseen, if_neg hseen]
            cases readItem flash type nsg place.1 entry id <;> rfl

/-- The item of a place carries its key. -/
theorem placeItem_id {nsg : Bool} {place : Part × Nat} {item : Item} {id : Nat}
    (hkey : placeKey flash type nsg place = some (some id))
    (h : placeItem flash type nsg place = some item) : item.id = id := by
  unfold placeKey at hkey
  unfold placeItem at h
  cases hentry : readEntry flash type nsg (eitOffset nsg place.1 place.2) with
  | none =>
      rw [hentry] at hkey
      cases hkey
  | some entry =>
      rw [hentry, Option.map_some, Option.some.injEq] at hkey
      rw [hentry, Option.bind_some, hkey, Option.bind_some, readItem, Option.bind_eq_bind,
        Option.bind_eq_some_iff] at h
      obtain ⟨version, -, h⟩ := h
      obtain ⟨value, -, h⟩ := Option.bind_eq_some_iff.1 h
      cases h
      rfl

/-- The item shows the block. -/
def Item.Shows (flash : FlashMap) (item : Item) (block : Block) : Prop :=
  item.ver = block.version ∧ item.size = block.size ∧ item.value = block.bytes flash

/-- The script gets through the partitions it has found: it can read every table entry, and the
value of the first entry it lists of each id. -/
def ReadsThrough (flash : FlashMap) (type : PartitionType) (nsg : Bool) (blocks : List Part) :
    Prop :=
  (∀ place ∈ places nsg blocks, placeKey flash type nsg place ≠ none) ∧
    ∀ id place, firstWith (placeKey flash type nsg) (places nsg blocks) id = some place →
      placeItem flash type nsg place ≠ none

/-- **What `parseEeprom` lists**: an item of each id, made of the first entry it has. -/
theorem parseEeprom_lists {nsg : Bool} {blocks : List Part} (id : Nat) (P : Item → Prop) :
    (∃ items, parseEeprom flash type blocks nsg = some items ∧
        ∃ item ∈ items, item.id = id ∧ P item) ↔
      ReadsThrough flash type nsg blocks ∧
        ∃ place item, firstWith (placeKey flash type nsg) (places nsg blocks) id = some place ∧
          placeItem flash type nsg place = some item ∧ P item := by
  unfold parseEeprom
  rw [parseEntry_eq]
  constructor
  · rintro ⟨items, hrun, item, hitem, hid, hP⟩
    rw [Option.map_eq_some_iff] at hrun
    obtain ⟨st, hst, rfl⟩ := hrun
    obtain ⟨hkeys, hmakes⟩ := collect_reads hst
    refine ⟨⟨hkeys, fun k place h => hmakes k (by simp) place h⟩, ?_⟩
    obtain h | ⟨k, -, place, hfirst, hmake⟩ := (collect_mem hst item).1 hitem
    · cases h
    · have hk := placeItem_id (firstWith_key hfirst).2 hmake
      rw [hid] at hk
      subst hk
      exact ⟨place, item, hfirst, hmake, hP⟩
  · rintro ⟨⟨hkeys, hmakes⟩, place, item, hfirst, hmake, hP⟩
    have hruns : ∃ st, (places nsg blocks).foldlM
        (collectStep (placeKey flash type nsg) (placeItem flash type nsg)) ([], []) = some st :=
      collect_runs hkeys (fun k _ place h => hmakes k place h)
    obtain ⟨st, hst⟩ := hruns
    refine ⟨st.2, by rw [hst]; rfl, item, ?_, placeItem_id (firstWith_key hfirst).2 hmake, hP⟩
    exact (collect_mem hst item).2 (.inr ⟨id, by simp, place, hfirst, hmake⟩)

/-! ## The images that it gets through -/

/-- The script gets through the image: the headers that it reads are in the file, so are the partitions of the
type, and the value of the first marked entry of each id. -/
structure ScriptReads (flash : FlashMap) (type : PartitionType) (layout : Layout) : Prop where
  headers : ∃ k, FirstHeader flash (windows flash) layout k ∧ HeadersInFile flash layout k
  partitions : ∀ k ∈ typeWindows flash type layout, PartitionInFile flash layout k
  values : ∀ id e, scriptEntry flash type layout id = some e →
    ValueInFile flash type (windowPartition layout e.1) (scriptAddress layout e)

/-- The header of a partition is in the file. -/
theorem headerInFile_of_typeWindow {j : Nat} (hheaders : HeadersInFile flash layout k)
    (hj : j ∈ typeWindows flash type layout) : HeaderInFile flash (layout = .sg) j := by
  obtain ⟨hlt, hheader⟩ := List.mem_filter.mp hj
  rw [Bool.and_eq_true] at hheader
  have hin := hheaders j (List.mem_range.mp hlt)
  by_cases hbehind : k < j
  · exact (headerInFile_congr (and_iff_left hbehind)).mp hin
  · replace hin := (headerInFile_congr (iff_false_intro fun hand => hbehind hand.2)).mp hin
    have hend : blockSize * j + blockSize ≤ flash.size := hin
    have hsize : blockSize = 0x10000 := rfl
    unfold HeaderInFile
    split_ifs
    · omega
    · exact hend

/-- The table entries of the partitions of the type can be read. -/
theorem readEntry_scriptEntries (hheaders : HeadersInFile flash layout k)
    (hpartitions : ∀ j ∈ typeWindows flash type layout, PartitionInFile flash layout j) :
    ∀ e ∈ scriptEntries flash type layout,
      readEntry flash type (isNsg (some layout))
          (eitOffset (isNsg (some layout)) (placeOf flash layout e).1 (placeOf flash layout e).2)
        = some (entryAt flash layout type (scriptAddress layout e)) := by
  intro e he
  obtain ⟨hwindow, hpos, hcount⟩ := mem_scriptEntries he
  have hin := hpartitions e.1 hwindow
  have hheader := headerInFile_of_typeWindow hheaders hwindow
  exact readEntry_placeOf (inImage_windowPartition hheader hin) hin hpos hcount

/-- The script's first entry of an id. -/
theorem firstWith_places {places' : List (Part × Nat)} (id : Nat)
    (hplaces : places' = (scriptEntries flash type layout).map (placeOf flash layout))
    (hread : ∀ e ∈ scriptEntries flash type layout,
      readEntry flash type (isNsg (some layout))
          (eitOffset (isNsg (some layout)) (placeOf flash layout e).1 (placeOf flash layout e).2)
        = some (entryAt flash layout type (scriptAddress layout e))) :
    firstWith (placeKey flash type (isNsg (some layout))) places' id
      = (scriptEntry flash type layout id).map (placeOf flash layout) := by
  rw [hplaces]
  refine firstWith_map fun e he => ?_
  rw [placeKey_placeOf_iff (hread e he), decide_eq_true_iff]

theorem scriptEntry_marked {id : Nat} {e : Nat × Nat} (h : scriptEntry flash type layout id = some e) :
    e ∈ scriptEntries flash type layout ∧ Marked flash type layout id (scriptAddress layout e) :=
  ⟨List.mem_of_find?_eq_some h, by simpa using List.find?_some h⟩

/-- **When the script gets through** the partitions of the type. -/
theorem readsThrough_iff (hfirst : FirstHeader flash (windows flash) layout k)
    (hheaders : HeadersInFile flash layout k) :
    ReadsThrough flash type (isNsg (some layout)) (partsOf type (partsBelow flash layout (windows flash))) ↔
      ScriptReads flash type layout := by
  have hplaces : places (isNsg (some layout)) (partsOf type (partsBelow flash layout (windows flash)))
      = (scriptEntries flash type layout).map (placeOf flash layout) := by
    rw [partsOf_partsBelow, places_eq]
  unfold ReadsThrough
  rw [hplaces]
  constructor
  · rintro ⟨hkeys, hitems⟩
    have hpartitions : ∀ j ∈ typeWindows flash type layout, PartitionInFile flash layout j := by
      intro j hj
      refine partitionInFile_of_keys fun n hpos hcount => hkeys _ (List.mem_map_of_mem ?_)
      refine List.mem_flatMap.mpr ⟨j, hj, List.mem_map.mpr ⟨n, ?_, rfl⟩⟩
      exact List.mem_range'_1.mpr ⟨hpos, Nat.lt_of_le_of_lt hcount (Nat.lt_add_of_pos_left Nat.one_pos)⟩
    have hread := readEntry_scriptEntries hheaders hpartitions
    refine ⟨⟨k, hfirst, hheaders⟩, hpartitions, fun id e he => ?_⟩
    obtain ⟨hmem, hmarked⟩ := scriptEntry_marked he
    have hitem := hitems id (placeOf flash layout e) (by rw [firstWith_places id rfl hread, he]; rfl)
    obtain ⟨item, hitem⟩ := Option.ne_none_iff_exists'.mp hitem
    exact ((placeItem_placeOf (hpartitions _ (mem_scriptEntries hmem).1) (hread e hmem) hmarked item).mp hitem).1
  · rintro ⟨-, hpartitions, hvalues⟩
    have hread := readEntry_scriptEntries hheaders hpartitions
    constructor
    · intro place hplace
      obtain ⟨e, he, rfl⟩ := List.mem_map.mp hplace
      rw [placeKey, hread e he]
      exact Option.some_ne_none _
    · intro id place hplace
      rw [firstWith_places id rfl hread] at hplace
      obtain ⟨e, he, rfl⟩ := Option.map_eq_some_iff.mp hplace
      obtain ⟨hmem, hmarked⟩ := scriptEntry_marked he
      have hitem := (placeItem_placeOf (hpartitions _ (mem_scriptEntries hmem).1) (hread e hmem) hmarked _).mpr
        ⟨hvalues id e he, rfl⟩
      rw [hitem]
      exact Option.some_ne_none _

end Tool

open Tool

variable {flash : FlashMap} {type : PartitionType} {blockId : Nat}

/-! ## The agreement -/

/-- The script lists the block: an item with its id, version, size and bytes. -/
def Lists (flash : FlashMap) (type : PartitionType) (blockId : Nat) (block : Block) : Prop :=
  ∃ items, Tool.listItems flash type = some items ∧
    ∃ item ∈ items, item.id = blockId ∧ item.Shows flash block

theorem scriptItem_shows_iff {partition : Partition} {number id : Nat} {block : Block} :
    (scriptItem flash partition type number id).Shows flash block ↔
      block.Holds flash (scriptContents flash partition type number) := by
  unfold Item.Shows Block.Holds scriptItem
  dsimp only
  constructor
  · rintro ⟨hversion, -, hbytes⟩
    exact ⟨hversion.symm, hbytes.symm⟩
  · rintro ⟨hversion, hbytes⟩
    refine ⟨hversion.symm, ?_, hbytes.symm⟩
    rw [← hbytes, Block.bytes, List.length_map, List.length_range]

/-- **What the script lists**, by the words of the image. -/
theorem lists_iff (block : Block) :
    Lists flash type blockId block ↔ ∃ layout e, ScriptReads flash type layout ∧
      scriptEntry flash type layout blockId = some e ∧
        block.Holds flash (scriptContents flash (windowPartition layout e.1) type e.2) := by
  constructor
  · rintro ⟨items, hitems, hitem⟩
    obtain ⟨⟨found, parts⟩, hparts, hparse⟩ := Option.bind_eq_some_iff.mp hitems
    -- an image without a header has no items
    cases found with
    | none =>
        obtain rfl := eq_nil_of_getPartitions hparts
        cases hparse
        obtain ⟨item, hmem, -⟩ := hitem
        cases hmem
    | some layout =>
        obtain ⟨rfl, k, hfirst, hheaders⟩ := (getPartitions_eq_some_iff parts).mp hparts
        obtain ⟨hreads, place, item, hplace, hmake, hshows⟩ :=
          (parseEeprom_lists blockId fun item => item.Shows flash block).mp ⟨items, hparse, hitem⟩
        replace hreads := (readsThrough_iff hfirst hheaders).mp hreads
        have hread := readEntry_scriptEntries hheaders hreads.partitions
        rw [firstWith_places blockId (by rw [partsOf_partsBelow, places_eq]) hread] at hplace
        obtain ⟨e, he, rfl⟩ := Option.map_eq_some_iff.mp hplace
        obtain ⟨hmem, hmarked⟩ := scriptEntry_marked he
        obtain ⟨-, rfl⟩ := (placeItem_placeOf (hreads.partitions _ (mem_scriptEntries hmem).1) (hread e hmem)
          hmarked item).mp hmake
        exact ⟨layout, e, hreads, he, scriptItem_shows_iff.mp hshows⟩
  · rintro ⟨layout, e, hreads, he, hholds⟩
    obtain ⟨k, hfirst, hheaders⟩ := hreads.headers
    have hread := readEntry_scriptEntries hheaders hreads.partitions
    obtain ⟨hmem, hmarked⟩ := scriptEntry_marked he
    have hitem := (placeItem_placeOf (hreads.partitions _ (mem_scriptEntries hmem).1) (hread e hmem) hmarked _).mpr
      ⟨hreads.values blockId e he, rfl⟩
    obtain ⟨items, hparse, hlisted⟩ := (parseEeprom_lists blockId fun item => item.Shows flash block).mpr
      ⟨(readsThrough_iff hfirst hheaders).mpr hreads, placeOf flash layout e, _,
        by rw [firstWith_places blockId (by rw [partsOf_partsBelow, places_eq]) hread, he]; rfl,
        hitem, scriptItem_shows_iff.mpr hholds⟩
    refine ⟨items, ?_, hlisted⟩
    rw [listItems, (getPartitions_eq_some_iff _).mpr ⟨rfl, k, hfirst, hheaders⟩]
    exact hparse

/-- What the words of the image have to be: the script gets through it, and its first marked entry of the id, read
at the stored offset and with one byte of EEFULL metadata, is the version and the bytes of the entry that the
device takes. -/
def ReadersAgree (flash : FlashMap) (type : PartitionType) (blockId : Nat) : Prop :=
  ∃ layout e partition number, ScriptReads flash type layout ∧
    scriptEntry flash type layout blockId = some e ∧ DeviceEntry flash type blockId partition number ∧
      scriptContents flash (windowPartition layout e.1) type e.2 = deviceContents flash partition type number

/-- **When the two readers agree.** A search of the device ends with `OK`; the script lists its block if and only
if the words of the image are such. -/
theorem readers_agree_iff (flash : FlashMap) (type : PartitionType) (blockId : Nat)
    (start block : Block) (hsize : flash.size < 2 ^ 32)
    (h : eepromFindBlockInMemory flash type blockId start = .ok (.ok, block)) :
    Lists flash type blockId block ↔ ReadersAgree flash type blockId := by
  obtain ⟨partition, number, -, hentry, hversion, hbytes⟩ := eepromFindBlockInMemory_takes hsize h
  rw [lists_iff]
  constructor
  · rintro ⟨layout, e, hreads, he, hversion', hbytes'⟩
    refine ⟨layout, e, partition, number, hreads, he, hentry, ?_⟩
    exact Contents.ext (hversion'.symm.trans hversion) (hbytes'.symm.trans hbytes)
  · rintro ⟨layout, e, partition', number', hreads, he, hentry', hsame⟩
    obtain ⟨rfl, rfl⟩ := hentry.unique hentry'
    exact ⟨layout, e, hreads, he, by rw [hsame]; exact ⟨hversion, hbytes⟩⟩

/-- The two readings of one entry that is not inline are the same exactly if it has no extended metadata. -/
theorem scriptContents_eq_deviceContents_iff {partition : Partition} {number : Nat}
    (hinline : ¬ IsInline flash partition type number)
    (hfits : type = .eefull → metadataSize (valueAt flash partition (entryAddress partition number) 0) ≤
      sizeField flash partition.layout type (entryAddress partition number)) :
    scriptContents flash partition type number = deviceContents flash partition type number ↔
      (type = .eefull → metadataSize (valueAt flash partition (entryAddress partition number) 0) = 1) := by
  have hstored : storedAt flash partition type number
      = valueAt flash partition (entryAddress partition number) := funext fun i => if_neg hinline
  unfold scriptContents deviceContents
  rw [hstored]
  constructor
  · rintro hsame rfl
    -- the script takes one byte off whatever the metadata is, so the lengths differ
    have hlength := congrArg (fun contents => contents.bytes.length) hsame
    simp only [contentsOf, List.length_map, List.length_range] at hlength
    have hpos := metadataSize_pos (valueAt flash partition (entryAddress partition number) 0)
    have hle := hfits rfl
    omega
  · intro hmetadata
    cases type with
    | eelite => cases partition.layout <;> rfl
    | eefull => rw [hmetadata rfl]

/-! ## Two images -/

variable (version : UInt8)

theorem windows_sgImage : windows (sgImage version) = 2 :=
  show (0x20000 + 0x10000 - 1) / 0x10000 = 2 by decide

theorem typeWindows_sgImage : typeWindows (sgImage version) .eefull .sg = [0] := by
  rw [typeWindows, windows_sgImage]
  rfl

/-- The table entry at the top is the only marked one. -/
theorem marked_sgImage {id number : Nat} (hpos : 1 ≤ number) (hcount : number ≤ 0x1FFF)
    (h : Marked (sgImage version) .eefull .sg id (scriptAddress .sg (0, number))) : number = 1 := by
  by_contra hne
  have haddress : scriptAddress .sg (0, number) = 0x20000 - 16 * number := Nat.zero_add _
  rw [haddress] at h
  have hword := h.1
  generalize hentry : 0x20000 - 16 * number = entry at hword
  by_cases hlast : number = 0x1FFF
  -- the last entry of the table lies on the value, every other one is erased
  · obtain rfl : entry = 16 := by omega
    have hbytes : ofLeBytes [version, 1, 2, 3] = 0xFFFFFFC0 := hword
    have hlt := version.toNat_lt
    simp [ofLeBytes] at hbytes
    omega
  · have herased : ∀ i < 4, (sgImage version).data (entry + i) = 0xFF := by
      intro i hi
      simp only [sgImage]
      rw [if_neg (by omega), if_neg (by omega), if_pos (by omega)]
    rw [FlashMap.word32, herased 1 (by decide), herased 2 (by decide), herased 3 (by decide)] at hword
    have hfirst := herased 0 (by decide)
    rw [Nat.add_zero] at hfirst
    rw [hfirst] at hword
    exact absurd hword (by decide)

theorem scriptEntry_sgImage {id : Nat} {e : Nat × Nat}
    (h : scriptEntry (sgImage version) .eefull .sg id = some e) : e = (0, 1) := by
  obtain ⟨hmem, hmarked⟩ := scriptEntry_marked h
  obtain ⟨hwindow, hpos, hcount⟩ := mem_scriptEntries hmem
  rw [typeWindows_sgImage, List.mem_singleton] at hwindow
  rw [entryCount_windowPartition] at hcount
  obtain ⟨window, number⟩ := e
  obtain rfl : window = 0 := hwindow
  obtain rfl : number = 1 := marked_sgImage version hpos hcount hmarked
  rfl

/-- The words of this entry. -/
theorem word32_sgImage {i : Nat} (hi : i + 4 ≤ 16) : (sgImage version).word32 (0x1FFF0 + i)
    = ofLeBytes ((List.range 4).map fun j =>
        [0xC0, 0xFF, 0xFF, 0xFF, 9, 0, 0, 0, 10, 0, 0, 0, 16, 0, 0, 0].getD (i + j) 0) := by
  have hbyte : ∀ j < 16, (sgImage version).data (0x1FFF0 + j)
      = [0xC0, 0xFF, 0xFF, 0xFF, 9, 0, 0, 0, 10, 0, 0, 0, 16, 0, 0, 0].getD j 0 := by
    intro j hj
    simp only [sgImage]
    rw [if_neg (by omega), if_neg (by omega), if_neg (by omega), Nat.add_sub_cancel_left]
  simp only [FlashMap.word32, Nat.add_assoc]
  rw [hbyte i (by omega), hbyte (i + 1) (by omega), hbyte (i + 2) (by omega), hbyte (i + 3) (by omega)]
  rfl

theorem stateWord_sgImage : (sgImage version).word32 0x1FFF0 = 0xFFFFFFC0 :=
  (word32_sgImage version (show 0 + 4 ≤ 16 by decide)).trans (by decide)

theorem idField_sgImage : idField (sgImage version) .sg .eefull 0x1FFF0 = 9 :=
  (word32_sgImage version (show 4 + 4 ≤ 16 by decide)).trans (by decide)

theorem sizeField_sgImage : sizeField (sgImage version) .sg .eefull 0x1FFF0 = 10 :=
  (word32_sgImage version (show 8 + 4 ≤ 16 by decide)).trans (by decide)

theorem valueOffset_sgImage : (sgImage version).word32 (0x1FFF0 + 12) = 16 :=
  (word32_sgImage version (show 12 + 4 ≤ 16 by decide)).trans (by decide)

theorem address_sgImage : scriptAddress .sg (0, 1) = 0x1FFF0 := by decide

theorem scriptEntry_sgImage_5009 : scriptEntry (sgImage version) .eefull .sg 5009 = some (0, 1) := by
  rw [scriptEntry, scriptEntries, typeWindows_sgImage, List.flatMap_cons, entryCount_windowPartition,
    List.range'_succ]
  refine List.find?_cons_of_pos (decide_eq_true ?_)
  rw [address_sgImage]
  refine ⟨stateWord_sgImage version, ?_, ?_⟩
  · rw [idField_sgImage]
    decide
  · rw [idField_sgImage]
    rfl

/-- The script gets through the image. -/
theorem scriptReads_sgImage : ScriptReads (sgImage version) .eefull .sg where
  headers := by
    rw [windows_sgImage]
    refine ⟨0, ⟨by decide, rfl, nofun, nofun⟩, fun j hj => ?_⟩
    rw [windows_sgImage] at hj
    obtain rfl | rfl : j = 0 ∨ j = 1 := by omega
    · exact show (_ : Nat) ≤ 0x20000 by decide
    · exact show (_ : Nat) ≤ 0x20000 by decide
  partitions := by
    intro k hk
    rw [typeWindows_sgImage, List.mem_singleton] at hk
    subst hk
    exact Nat.le_refl 0x20000
  values := by
    intro id e he
    obtain rfl := scriptEntry_sgImage version he
    rw [address_sgImage]
    unfold ValueInFile
    rw [layout_windowPartition, sizeField_sgImage, valueOffset_sgImage]
    exact ⟨.inr (by decide), show 0 + 16 + 10 ≤ 0x20000 by decide⟩

theorem partitionIn_sgImage : partitionIn (sgImage version) .eefull 0 = some (sgPartition 0) := by
  have hmarker : (sgImage version).word32 (0 + 12) = ofLeBytes [0xF0, 0xFF, 0xFF, 0xFF] := rfl
  refine if_pos ⟨Nat.le_refl 0x20000, rfl, rfl, hmarker.trans (by decide), fun i hi hge => ?_⟩
  exact absurd hi (Nat.not_lt.mpr hge)

/-- The device takes the same entry. -/
theorem deviceEntry_sgImage : DeviceEntry (sgImage version) .eefull 5009 (sgPartition 0) 1 where
  taken := {
    pos := Nat.le_refl 1
    le := (entryCount_windowPartition .sg 0).ge.trans' (by decide)
    valid := by
      have haddress : entryAddress (sgPartition 0) 1 = 0x1FFF0 := by decide
      rw [haddress, entryClass, entryState, stateWord_sgImage]
      have hid : idField (sgImage version) (sgPartition 0).layout .eefull 0x1FFF0 = 9 := idField_sgImage version
      rw [hid]
      rfl
    first := fun _ n hpos hlt => absurd hpos (Nat.not_le.mpr hlt)
    last := nofun }
  place := by
    have hblocks : (sgImage version).size / partitionBlockSize = 2 :=
      show 0x20000 / partitionBlockSize = 2 by decide
    exact ⟨0, by omega, partitionIn_sgImage version, fun place hlt => absurd hlt (Nat.not_lt_zero place)⟩

/-- The readers agree where the metadata is one byte. -/
theorem readersAgree_sgImage (h : metadataSize version = 1) : ReadersAgree (sgImage version) .eefull 5009 := by
  have hinline : ¬ IsInline (sgImage version) (sgPartition 0) .eefull 1 := fun hand => nomatch hand.1
  have hmetadata : metadataSize (valueAt (sgImage version) (sgPartition 0) (entryAddress (sgPartition 0) 1) 0) = 1 :=
    h
  have hsize : sizeField (sgImage version) (sgPartition 0).layout .eefull (entryAddress (sgPartition 0) 1) = 10 :=
    sizeField_sgImage version
  refine ⟨.sg, (0, 1), sgPartition 0, 1, scriptReads_sgImage version, scriptEntry_sgImage_5009 version,
    deviceEntry_sgImage version, (scriptContents_eq_deviceContents_iff hinline fun _ => ?_).mpr fun _ => hmetadata⟩
  rw [hmetadata, hsize]
  decide

/-- Only this entry can be the script's. -/
theorem eq_of_scriptReads_sgImage {layout : Layout} {id : Nat} {e : Nat × Nat}
    (hreads : ScriptReads (sgImage version) .eefull layout)
    (he : scriptEntry (sgImage version) .eefull layout id = some e) : layout = .sg ∧ e = (0, 1) := by
  cases layout with
  | nsg =>
      obtain ⟨k, hfirst, -⟩ := hreads.headers
      have hsg : hasHeader (sgImage version) .sg 0 = true := rfl
      rcases Nat.eq_zero_or_pos k with rfl | hpos
      · exact absurd (hsg.symm.trans (hfirst.notSg rfl)) (by decide)
      · exact absurd (hsg.symm.trans (hfirst.before 0 hpos .sg)) (by decide)
  | sg => exact ⟨rfl, scriptEntry_sgImage version he⟩

/-- The script counts the other five bytes of extended metadata to the value. -/
theorem scriptContents_extended :
    (scriptContents extendedImage (windowPartition .sg 0) .eefull 1).bytes.length = 9 := by
  have hsize : sizeField extendedImage .sg .eefull 0x1FFF0 = 10 := sizeField_sgImage 0x80
  have haddress : entryAddress (windowPartition .sg 0) 1 = 0x1FFF0 := by decide
  rw [scriptContents, haddress]
  change ((List.range (sizeField extendedImage .sg .eefull 0x1FFF0 - 1)).map _).length = 9
  rw [hsize, List.length_map, List.length_range]

theorem exists_found {start : Block} {versionNumber : Nat} {bytes : List UInt8}
    (h : (eepromFindBlockInMemory flash type blockId start).map
        (fun r => (r.1, r.2.version, r.2.bytes flash)) = .ok (.ok, versionNumber, bytes)) :
    ∃ block, eepromFindBlockInMemory flash type blockId start = .ok (.ok, block) ∧
      block.version = versionNumber ∧ block.bytes flash = bytes := by
  cases hfind : eepromFindBlockInMemory flash type blockId start with
  | error fault =>
      rw [hfind] at h
      cases h
  | ok r =>
      obtain ⟨result, block⟩ := r
      rw [hfind] at h
      obtain ⟨rfl, hversion, hbytes⟩ : result = .ok ∧ block.version = versionNumber ∧ block.bytes flash = bytes := by
        simpa [Except.map] using h
      exact ⟨block, rfl, hversion, hbytes⟩

theorem extendedImage_found :
    ∃ block, eepromFindBlockInMemory extendedImage .eefull 5009 emptyBlock = .ok (.ok, block) ∧
      block.version = 0x80 ∧ block.bytes extendedImage = [1, 2, 3, 4] :=
  exists_found (by decide +kernel)

theorem plainImage_found :
    ∃ block, eepromFindBlockInMemory (sgImage 5) .eefull 5009 emptyBlock = .ok (.ok, block) ∧
      block.version = 5 ∧ block.bytes (sgImage 5) = [1, 2, 3, 4, 0xFF, 0xFF, 0xFF, 0xFF, 0xFF] :=
  exists_found (by decide +kernel)

theorem not_lists_extended {block : Block} (hbytes : block.bytes extendedImage = [1, 2, 3, 4]) :
    ¬ Lists extendedImage .eefull 5009 block := by
  intro hlists
  obtain ⟨layout, e, hreads, he, -, hsame⟩ := (lists_iff block).mp hlists
  obtain ⟨rfl, rfl⟩ := eq_of_scriptReads_sgImage 0x80 hreads he
  have hlength := scriptContents_extended
  rw [← hsame, hbytes] at hlength
  exact absurd hlength (by decide)

/-- The image with a plain block meets the condition, the one with extended metadata does not. -/
theorem readers_agree_iff_images :
    (∃ block, eepromFindBlockInMemory (sgImage 5) .eefull 5009 emptyBlock = .ok (.ok, block) ∧
      block.bytes (sgImage 5) = [1, 2, 3, 4, 0xFF, 0xFF, 0xFF, 0xFF, 0xFF] ∧
      ReadersAgree (sgImage 5) .eefull 5009 ∧ Lists (sgImage 5) .eefull 5009 block) ∧
    ∃ block, eepromFindBlockInMemory extendedImage .eefull 5009 emptyBlock = .ok (.ok, block) ∧
      ¬ ReadersAgree extendedImage .eefull 5009 := by
  obtain ⟨plain, hplain, -, hbytes⟩ := plainImage_found
  obtain ⟨block, hfind, -, hfour⟩ := extendedImage_found
  have hagree := readersAgree_sgImage 5 (by decide)
  refine ⟨⟨plain, hplain, hbytes, hagree, ?_⟩, block, hfind, ?_⟩
  · exact (readers_agree_iff (sgImage 5) .eefull 5009 emptyBlock plain (by decide) hplain).mpr hagree
  · exact mt (readers_agree_iff extendedImage .eefull 5009 emptyBlock block (by decide) hfind).mpr
      (not_lists_extended hfour)

/-- The device finds a block of four bytes; the script lists nine. -/
theorem readers_disagree :
    ∃ block, eepromFindBlockInMemory extendedImage .eefull 5009 emptyBlock = .ok (.ok, block) ∧
      block.version = 0x80 ∧ block.bytes extendedImage = [1, 2, 3, 4] ∧
      ¬ Lists extendedImage .eefull 5009 block := by
  obtain ⟨block, hfind, hversion, hbytes⟩ := extendedImage_found
  exact ⟨block, hfind, hversion, hbytes, not_lists_extended hbytes⟩

end Pmb887x.Eeprom
