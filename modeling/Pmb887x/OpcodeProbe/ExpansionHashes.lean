import Pmb887x.OpcodeProbe.ExpansionMerged

set_option autoImplicit false

/-! # The hashes of a family

The map of a run passes the check of the archive, and the hashes that `pack_expansion_hashes.pl` computes from
its text are those that the device computed from the words before it printed them. So a run that prints the
same records again finds all of its blocks in the packed table. -/

namespace Pmb887x.OpcodeProbe.Expansion

open Library UnitTest
open Boot.Output (ascii newline space)

/-! ## The map is valid -/

variable (index : FamilyIndex) (observed : Nat → Result) (board : Board)

theorem newline_not_mem_recordText (index expansion : Nat) (record : Record) :
    newline ∉ recordText index expansion record := by
  refine not_mem_joinFields (by decide) fun field hfield => ?_
  simp only [List.mem_cons] at hfield
  rcases hfield with rfl | rfl | rfl | hfield
  · exact (clean_unsigned index).1
  · exact (clean_hex 4 expansion).1
  · exact (clean_name _).1
  · obtain ⟨w, -, rfl⟩ := List.mem_map.mp hfield
    exact (clean_hex 4 w.toNat).1

theorem metadataLine_eq : metadataLine index = (ascii "# family," ++ unsigned index ++ [comma]) ++
    (word (families.get index).firstWord ++ ([comma] ++ ascii (families.get index).name)) := by
  rw [metadataLine, description, joinFields_cons, joinFields, List.intercalate_singleton]
  rfl

theorem newline_not_mem_metadataLine : newline ∉ metadataLine index := by
  have htext : Clean (ascii "# family,") := clean_ascii (by decide)
  have hcomma : Clean [comma] := by decide
  have hclean : Clean (metadataLine index) := by
    rw [metadataLine_eq]
    simp only [clean_append, htext, hcomma, clean_unsigned, word, clean_hex, clean_familyNames,
      and_self]
  exact hclean.1

/-- The header in two parts, of which the check reads the first. -/
theorem mapHeader_eq : mapHeader = ascii "family,expansion,outcome,entered,trap,post,done," ++
    (ascii "st0,st1,st2,a0l,a0h,a1l,a1h,r0," ++
      ascii "b0l,b0h,b0st0,b1l,b1h,b1st0,pl,ph,scratch,sp,stack_top,observed_memory") := by
  have hstart : ascii "family,expansion,outcome,entered,trap,post,done,st0,st1,st2,a0l,a0h,a1l,a1h,r0,"
      = ascii "family,expansion,outcome,entered,trap,post,done," ++
          ascii "st0,st1,st2,a0l,a0h,a1l,a1h,r0," := by
    rw [ascii_ofList, ascii_ofList, ascii_ofList]
    rfl
  rw [mapHeader, ascii_append, hstart, List.append_assoc]

theorem newline_not_mem_mapHeader : newline ∉ mapHeader := by
  have hstart : newline ∉ ascii "family,expansion,outcome,entered,trap,post,done," := by decide
  have hend : newline ∉ ascii "b0l,b0h,b0st0,b1l,b1h,b1st0,pl,ph,scratch,sp,stack_top,observed_memory" := by
    rw [ascii_ofList]
    decide
  rw [mapHeader_eq, List.mem_append, List.mem_append]
  exact not_or.mpr ⟨hstart, not_or.mpr ⟨by decide, hend⟩⟩

theorem newline_not_mem_map : ∀ line ∈ metadataLine index :: mapHeader ::
    mapRecords index (runRecord board index observed), newline ∉ line := by
  refine List.forall_mem_cons.mpr ⟨newline_not_mem_metadataLine index,
    List.forall_mem_cons.mpr ⟨newline_not_mem_mapHeader, fun line hline => ?_⟩⟩
  obtain ⟨expansion, -, rfl⟩ := List.mem_map.mp hline
  exact newline_not_mem_recordText index expansion _

theorem scan_metadataLine :
    (scan (metadataPattern index) (metadataLine index ++ [newline])).isNone = false := by
  have hall : ∀ family ∈ families, ascii family.name ≠ [] ∧
      (ascii family.name).all (fun b => decide (b ≠ 13 ∧ b ≠ newline)) = true := by
    simp only [families, List.forall_mem_cons]
    decide
  obtain ⟨hname, hbroken⟩ := hall _ (families.get_mem index)
  have hline : metadataLine index ++ [newline] = (ascii "# family," ++ unsigned index ++ [comma]) ++
      (word (families.get index).firstWord ++ ([comma] ++ (ascii (families.get index).name ++
        ([newline] ++ [])))) := by
    rw [metadataLine_eq]
    simp only [List.append_assoc, List.append_nil]
  rw [hline, metadataPattern, scan_literal, scan_hexWord, scan_literal,
    scan_many_before hname hbroken (by decide), scan_literal]
  rfl

theorem scan_mapHeader : (scan headerPattern (mapHeader ++ [newline])).isNone = false := by
  rw [mapHeader_eq, List.append_assoc, headerPattern, scan_literal, scan_remainder]
  rfl

/-- A record of the map is what the check looks for. -/
theorem validRecord_recordText (index expansion : Nat) (record : Record) :
    validRecord index expansion (splitAll (chomp (recordText index expansion record.normal ++ [newline])))
      = true := by
  have hname : [ascii "complete", ascii "trap-complete", ascii "timeout", ascii "unsafe-skip"].contains
      record.normal.outcome.name = true := by
    have hnormal : record.normal.outcome = normalOutcome record.outcome := rfl
    rw [hnormal]
    cases record.outcome <;> decide
  have hwords : (record.normal.words.map word).all (fun field => (scan [hexWord] field).isSome)
      = true := by
    rw [List.all_map, List.all_eq_true]
    intro w _
    have hscan := scan_word w
    rw [Function.comp_apply]
    cases hw : scan [hexWord] (word w) with
    | none => simp [hw] at hscan
    | some captured => rfl
  have hlength : record.normal.words.length = 24 := record.normal.length
  rw [chomp_newline, splitAll_recordText, recordFields, validRecord]
  simp only [List.length_cons, List.length_map, hlength, List.getD_cons_zero, List.getD_cons_succ,
    number_unsigned, hname, List.drop_succ_cons, List.drop_zero, hwords, beq_self_eq_true, Bool.and_self]

theorem validateRecords_map (index : Nat) (records : Nat → Record) (expansions : List Nat) :
    validateRecords index expansions ((expansions.map fun e =>
      recordText index e (records e).normal).map fun line => line ++ [newline]) = .ok () := by
  induction expansions with
  | nil => rfl
  | cons expansion expansions ih =>
      rw [List.map_cons, List.map_cons, validateRecords, if_pos (validRecord_recordText _ _ _)]
      exact ih

/-- A file with a valid head is valid if its records are. -/
theorem validateExpansionMap_of_head {family : Nat} {file head columns : Text} {records : List Text}
    (hlines : inputLines file = head :: columns :: records)
    (hhead : (scan (metadataPattern family) head).isNone = false)
    (hcolumns : (scan headerPattern columns).isNone = false) :
    validateExpansionMap family file = validateRecords family (List.range 0x10000) records := by
  rw [validateExpansionMap, hlines]
  simp only [List.headD_cons, List.tail_cons, hhead, hcolumns, Bool.false_eq_true, if_false]

/-- **The map of a run is valid.** -/
theorem validateExpansionMap_runMap :
    validateExpansionMap index (runMap index observed board) = .ok () := by
  have hlines := inputLines_unlines (newline_not_mem_map index observed board)
  rw [List.map_cons, List.map_cons] at hlines
  rw [runMap, validateExpansionMap_of_head hlines (scan_metadataLine index) scan_mapHeader, mapRecords]
  exact validateRecords_map index (runRecord board index observed) (List.range 0x10000)

/-! ## One hash on both sides -/

/-- A byte of FNV-1a, as the device takes it. -/
def fnvStep (hash byte : UInt32) : UInt32 := (hash ^^^ byte) * hashPrime

theorem fnv1aByte_toNat (hash byte : UInt32) :
    fnv1aByte hash.toNat byte.toNat = (fnvStep hash byte).toNat := by
  have hmask : ∀ n : Nat, n &&& 0xFFFFFFFF = n % 2 ^ 32 := fun n =>
    Nat.and_two_pow_sub_one_eq_mod n 32
  rw [fnv1aByte, fnvStep, UInt32.toNat_mul, UInt32.toNat_xor, hmask]
  rfl

theorem expansionHashWord_toNat (hash : UInt32) (w : UInt16) :
    fnv1aByte (fnv1aByte hash.toNat (w.toNat &&& 0xFF)) (w.toNat >>> 8)
      = (expansionHashWord hash w).toNat := by
  have hlow : w.toNat &&& 0xFF = (w &&& 0xFF).toUInt32.toNat := by
    rw [UInt16.toNat_toUInt32, UInt16.toNat_and]
    rfl
  have hhigh : w.toNat >>> 8 = (w >>> 8).toUInt32.toNat := by
    rw [UInt16.toNat_toUInt32, UInt16.toNat_shiftRight]
    rfl
  rw [hlow, hhigh, fnv1aByte_toNat, fnv1aByte_toNat]
  rfl

/-- **The two programs hash words alike.** -/
theorem fnv1aWords_toNat (hash : UInt32) (words : List UInt16) :
    fnv1aWords hash.toNat (words.map UInt16.toNat)
      = (words.foldl expansionHashWord hash).toNat := by
  induction words generalizing hash with
  | nil => rfl
  | cons w words ih =>
      rw [List.map_cons, fnv1aWords, List.foldl_cons, expansionHashWord_toNat, List.foldl_cons]
      exact ih _

theorem packedCode_name (outcome : Outcome) :
    packedCode outcome.name = some (outcomeCode outcome).toNat := by
  cases outcome <;> decide

/-- The words that are hashed of a record. -/
def hashedWords (expansion : Nat) (record : Record) : List UInt16 :=
  UInt16.ofNat expansion :: outcomeCode record.normal.outcome :: record.words

theorem expansionHashRecord_eq (hash : UInt32) (expansion : Nat) (record : Record) :
    expansionHashRecord hash (UInt16.ofNat expansion) record
      = (hashedWords expansion record).foldl expansionHashWord hash := by
  have hnormal : record.normal.outcome
      = if record.outcome = .trapTimeout then .timeout else record.outcome := rfl
  rw [hashedWords, List.foldl_cons, List.foldl_cons, hnormal, expansionHashRecord]

/-! ## The device -/

theorem hash_printProgress (index expansion : Nat) (st : State) :
    (printProgress index expansion st).hash = st.hash := by
  rw [printProgress]
  split_ifs
  · rfl
  · rfl

theorem hash_compareBlock (hashes : HardwareHashes) (first index expansion : Nat) (st : State) :
    (compareBlock hashes first index expansion st).hash = st.hash := by
  rw [compareBlock]
  split_ifs
  · rfl
  · rfl
  · rfl

/-- A turn hashes its record, anew if a block begins. -/
theorem hash_probeExpansion (hashes : HardwareHashes) (first index expansion : Nat)
    (r : Option Result) (st : State) :
    (probeExpansion hashes first index expansion r st).hash
      = (hashedWords expansion (recordOf r)).foldl expansionHashWord
          (if expansion % 256 = 0 then hashOffsetBasis else st.hash) := by
  have hbegin : (beginBlock expansion st).hash
      = if expansion % 256 = 0 then hashOffsetBasis else st.hash := by
    rw [beginBlock]
    split_ifs
    · rfl
    · rfl
  rw [probeExpansion, hash_printProgress, hash_compareBlock, ← expansionHashRecord_eq, ← hbegin]
  simp only [addRecord, State.print]

/-- The hash that the device has when the words below `n` have been probed. -/
def deviceHash (hashes : HardwareHashes) (n : Nat) : UInt32 :=
  (stateUpTo hashes board index observed n).hash

theorem deviceHash_succ (hashes : HardwareHashes) (n : Nat) :
    deviceHash index observed board hashes (n + 1)
      = (hashedWords n (runRecord board index observed n)).foldl expansionHashWord
          (if n % 256 = 0 then hashOffsetBasis else deviceHash index observed board hashes n) := by
  rw [deviceHash, stateUpTo, hash_probeExpansion]
  rfl

/-- The hash of a block, which the device compares at the last of its words. -/
def blockHash (hashes : HardwareHashes) (block : Nat) : UInt32 :=
  deviceHash index observed board hashes (256 * block + 256)

/-! ## The script -/

variable (hashes : HardwareHashes)

/-- What `pack_expansion_hashes.pl` has when it has read the records below `n`. -/
structure PackedUpTo (n : Nat) (p : Packing) : Prop where
  hash : n % 256 ≠ 0 → p.hash = (deviceHash index observed board hashes n).toNat
  hashes : p.hashes
    = (List.range (n / 256)).map fun block => (blockHash index observed board hashes block).toNat

theorem packedUpTo_zero : PackedUpTo index observed board hashes 0 ⟨0, []⟩ where
  hash h := absurd (Nat.zero_mod 256) h
  hashes := by rw [Nat.zero_div, List.range_zero, List.map_nil]

theorem packRecord_mapRecord {n : Nat} (hn : n < 0x10000) (p : Packing) :
    packRecord index (mapRecords index (runRecord board index observed)) p n
      = .ok ⟨fnv1aWords (if n % 256 = 0 then 0x811C9DC5 else p.hash)
            ((hashedWords n (runRecord board index observed n)).map UInt16.toNat),
          if n % 256 = 255 then p.hashes ++
            [fnv1aWords (if n % 256 = 0 then 0x811C9DC5 else p.hash)
              ((hashedWords n (runRecord board index observed n)).map UInt16.toNat)]
          else p.hashes⟩ := by
  have hline : (mapRecords index (runRecord board index observed)).getD n []
      = recordText index n (runRecord board index observed n).normal := by
    rw [mapRecords, List.getD_eq_getElem?_getD, List.getElem?_map, List.getElem?_range hn]
    rfl
  have horder : ¬ (number (unsigned index) ≠ index ∨ hexOf (hex 4 n) ≠ n) := by
    rw [number_unsigned, hexOf_hex (by decide) hn]
    simp
  have hlength : ¬ ((runRecord board index observed n).normal.words.map word).length ≠ 24 := by
    rw [List.length_map, (runRecord board index observed n).normal.length]
    exact fun h => h rfl
  have hhex : ((runRecord board index observed n).normal.words.map word).map hexOf
      = (runRecord board index observed n).words.map UInt16.toNat := by
    rw [List.map_map]
    exact List.map_congr_left fun w _ => hexOf_hex (by decide) w.toNat_lt
  have hexpansion : (UInt16.ofNat n).toNat = n := by
    rw [UInt16.toNat_ofNat', Nat.mod_eq_of_lt hn]
  rw [packRecord, hline, splitFields_recordText index hn, recordFields]
  simp only [List.getD_cons_zero, List.getD_cons_succ, if_neg horder, packedCode_name,
    List.drop_succ_cons, List.drop_zero, if_neg hlength, hhex, hashedWords, List.map_cons, hexpansion]

/-- A turn of the script follows the device. -/
theorem PackedUpTo.step {n : Nat} {p : Packing} (h : PackedUpTo index observed board hashes n p)
    (hn : n < 0x10000) :
    ∃ p', packRecord index (mapRecords index (runRecord board index observed)) p n = .ok p' ∧
      PackedUpTo index observed board hashes (n + 1) p' := by
  have hstart : (if n % 256 = 0 then 0x811C9DC5 else p.hash)
      = (if n % 256 = 0 then hashOffsetBasis
          else deviceHash index observed board hashes n).toNat := by
    split_ifs with hblock
    · rfl
    · exact h.hash hblock
  have hhash : fnv1aWords (if n % 256 = 0 then 0x811C9DC5 else p.hash)
      ((hashedWords n (runRecord board index observed n)).map UInt16.toNat)
      = (deviceHash index observed board hashes (n + 1)).toNat := by
    rw [hstart, fnv1aWords_toNat, deviceHash_succ]
  have hrecord := packRecord_mapRecord index observed board hn p
  rw [hhash, h.hashes] at hrecord
  refine ⟨_, hrecord, fun _ => rfl, ?_⟩
  split_ifs with hend
  · -- the last word of a block
    have hblock : (n + 1) / 256 = n / 256 + 1 := by omega
    have hlast : 256 * (n / 256) + 256 = n + 1 := by omega
    rw [hblock, List.range_succ, List.map_append, List.map_singleton, blockHash, hlast]
  · have hblock : (n + 1) / 256 = n / 256 := by omega
    rw [hblock]

theorem packRecords_ok :
    ∃ p, (List.range 0x10000).foldlM
        (packRecord index (mapRecords index (runRecord board index observed))) ⟨0, []⟩ = .ok p ∧
      PackedUpTo index observed board hashes 0x10000 p :=
  foldlM_range_ok (packedUpTo_zero index observed board hashes)
    (fun _ hn _ h => h.step index observed board hashes hn) (Nat.le_refl 0x10000)

/-- The hashes of a file whose records can be packed. -/
theorem packFamily_of_records {family : Nat} {file head columns : Text} {records : List Text}
    {p : Packing} (hfile : splitRecords file = head :: columns :: records)
    (hlength : records.length = 0x10000)
    (hp : (List.range 0x10000).foldlM (packRecord family records) ⟨0, []⟩ = .ok p) :
    packFamily family file = .ok p.hashes := by
  rw [packFamily, hfile]
  simp only [List.drop_succ_cons, List.drop_zero, hlength, ne_eq, not_true_eq_false, if_false, hp,
    Except.map]

/-- **The packed hashes are those of the device**, for every block. -/
theorem packFamily_runMap :
    packFamily index (runMap index observed board)
      = .ok ((List.range 256).map fun block => (blockHash index observed board hashes block).toNat) := by
  have hhead : metadataLine index ≠ [] := by
    rw [metadataLine_eq]
    simp [ascii]
  have hcolumns : mapHeader ≠ [] := by
    rw [mapHeader_eq]
    exact List.append_ne_nil_of_left_ne_nil (by decide) _
  have hrecords : ∀ line ∈ mapRecords index (runRecord board index observed), line ≠ [] := by
    intro line hline
    obtain ⟨expansion, -, rfl⟩ := List.mem_map.mp hline
    rw [recordText_eq]
    exact List.append_ne_nil_of_left_ne_nil (unsigned_ne_nil _) _
  have hfile := splitRecords_unlines (newline_not_mem_map index observed board)
    (List.forall_mem_cons.mpr ⟨hhead, List.forall_mem_cons.mpr ⟨hcolumns, hrecords⟩⟩)
  have hlength : (mapRecords index (runRecord board index observed)).length = 0x10000 := by
    rw [mapRecords, List.length_map, List.length_range]
  obtain ⟨p, hp, hpacked⟩ := packRecords_ok index observed board hashes
  rw [runMap, packFamily_of_records hfile hlength hp, hpacked.hashes]

end Pmb887x.OpcodeProbe.Expansion
