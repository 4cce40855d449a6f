import Pmb887x.Library.Bytes
import Pmb887x.Library.IntelHex

set_option autoImplicit false

/-! # Dumping the mask ROM of the DSP (`rom-dump.c`)

The program reads the ROM block by block through the boot firmware of the DSP and prints it as Intel HEX: the
fixed part first, then every bank of the banked window behind it. What it prints, the comment and result lines
left out, is a file that a loader accepts, and the image is the ROM, or the beginning of it if the DSP stops
answering (`romDump_loads`). -/

namespace Pmb887x.Dsp.RomDump

open Library IntelHex

/-! ## The program -/

abbrev Line := List Char

def ihexRecordWords : Nat := 8
def dspBootMaxWords : Nat := 507
def dspBootBlockWords : Nat := dspBootMaxWords / ihexRecordWords * ihexRecordWords
def noUpperAddress : Nat := 0xFFFF

/-- `(uint8_t) -sum` -/
def ihexChecksum (sum : Nat) : Nat := (2 ^ 32 - sum % 2 ^ 32) % 2 ^ 8

def printIhexExtendedAddress (upperAddress : Nat) : Line :=
  let sum := 2 + 4 + (upperAddress >>> 8) + (upperAddress &&& 0xFF)
  [':', '0', '2', '0', '0', '0', '0', '0', '4'] ++ hexPadded 4 upperAddress ++ hexPadded 2 (ihexChecksum sum)

def lowByte (word : UInt16) : Nat := word.toNat % 2 ^ 8
def highByte (word : UInt16) : Nat := (word.toNat >>> 8) % 2 ^ 8

/-- The lines, and the new `*current_upper_address`. -/
def printIhexData (address : Nat) (words : List UInt16) (currentUpperAddress : Nat) : List Line × Nat :=
  let upperAddress := (address >>> 16) % 2 ^ 16
  let lowerAddress := address % 2 ^ 16
  let byteCount := words.length * 2
  let sum := byteCount + (lowerAddress >>> 8) + (lowerAddress &&& 0xFF)
    + (words.map fun word => lowByte word + highByte word).sum
  let extended :=
    if upperAddress ≠ currentUpperAddress then [printIhexExtendedAddress upperAddress] else []
  let line := [':'] ++ hexPadded 2 byteCount ++ hexPadded 4 lowerAddress ++ ['0', '0']
    ++ words.flatMap (fun word => hexPadded 2 (lowByte word) ++ hexPadded 2 (highByte word))
    ++ hexPadded 2 (ihexChecksum sum)
  (extended ++ [line], upperAddress)

/-- `printf(":00000001FF\n")` -/
def endLine : Line := [':', '0', '0', '0', '0', '0', '0', '0', '1', 'F', 'F']

/-- What has been printed, `current_upper_address`, and the running `value_hash`. -/
structure Dump where
  lines : List Line
  upperAddress : Nat
  hash : UInt32

def hashWord (hash : UInt32) (word : UInt16) : UInt32 := (hash ^^^ word.toUInt32) * 0x01000193

/-- The loop over the records of a block, from word `i` on. -/
def dumpRecords (outputFirst source first : Nat) (result : List UInt16) (i : Nat) (s : Dump) : Dump :=
  if i < result.length then
    let recordWords := (result.drop i).take ihexRecordWords
    let printed := printIhexData (wrap32 ((outputFirst + source + i - first) * 2)) recordWords s.upperAddress
    dumpRecords outputFirst source first result (i + ihexRecordWords)
      { lines := s.lines ++ printed.1, upperAddress := printed.2, hash := recordWords.foldl hashWord s.hash }
  else s
termination_by result.length - i
decreasing_by simp only [ihexRecordWords]; omega

/-- The DSP behind its boot firmware. The answers are arbitrary: a command completes or times out. -/
structure BootFirmware where
  /-- the `DLOAD` in front of the fixed part completes -/
  selectsFixed : Bool
  /-- the `DLOAD` of this bank into the page register completes -/
  selects : Nat → Bool
  /-- with this page selected, the read command for a block at this address completes -/
  reads : Nat → Nat → Bool
  /-- with this page selected, the word at an address -/
  word : Nat → Nat → UInt16

/-- `dsp_read`; the words are in the result area. -/
def dspRead (dsp : BootFirmware) (page source words : Nat) : Option (List UInt16) :=
  if dsp.reads page source then some ((List.range words).map fun i => dsp.word page (source + i)) else none

/-- `block_words` -/
def blockWords (remaining : Nat) : Nat := if remaining < dspBootBlockWords then remaining else dspBootBlockWords

theorem blockWords_le (remaining : Nat) : blockWords remaining ≤ remaining := by
  rw [blockWords]
  split <;> omega

theorem blockWords_pos {remaining : Nat} (h : 0 < remaining) : 0 < blockWords remaining := by
  have hpos : 0 < dspBootBlockWords := by decide
  rw [blockWords]
  split <;> omega

/-- The loop of `dump_region` over the blocks, from `source` on. -/
def dumpBlocks (dsp : BootFirmware) (page first words outputFirst source : Nat) (s : Dump) : Bool × Dump :=
  if source < first + words then
    match dspRead dsp page source (blockWords (first + words - source)) with
    | none => (false, s)
    | some result =>
        dumpBlocks dsp page first words outputFirst (source + blockWords (first + words - source))
          (dumpRecords outputFirst source first result 0 s)
  else (true, s)
termination_by first + words - source
decreasing_by
  have hpos : 0 < blockWords (first + words - source) := blockWords_pos (by omega)
  omega

def dumpRegion (dsp : BootFirmware) (page first words outputFirst : Nat) (s : Dump) : Bool × Dump :=
  dumpBlocks dsp page first words outputFirst first { s with hash := 0x811C9DC5 }

/-- One of the two ROMs of `struct dsp_rom_layout`. -/
structure RomLayout where
  fixedFirst : Nat
  fixedWords : Nat
  windowFirst : Nat
  windowWords : Nat
  pageShift : Nat
  pageCount : Nat

/-- The loop over the banks, from `page` on; the hashes of the banks that were dumped. -/
def dumpPages (dsp : BootFirmware) (layout : RomLayout) (page : Nat) (s : Dump) (hashes : List UInt32) :
    List Line × List UInt32 :=
  if page < layout.pageCount then
    let selected := page <<< layout.pageShift
    if dsp.selects selected then
      let dumped := dumpRegion dsp selected layout.windowFirst layout.windowWords
        (layout.fixedWords + page * layout.windowWords) s
      if dumped.1 then dumpPages dsp layout (page + 1) dumped.2 (hashes ++ [dumped.2.hash])
      else (dumped.2.lines ++ [endLine], hashes)
    else (s.lines ++ [endLine], hashes)
  else (s.lines ++ [endLine], hashes)
termination_by layout.pageCount - page

/-- `main` behind the checks of the mask ID, for one ROM; `skipFixed` is whether a ROM without a fixed part
    goes on at once, as the data ROM does. -/
def romDump (dsp : BootFirmware) (layout : RomLayout) (skipFixed : Bool) : List Line × List UInt32 :=
  let s : Dump := ⟨[], noUpperAddress, 0⟩
  if skipFixed ∧ layout.fixedWords = 0 then dumpPages dsp layout 0 s []
  else if dsp.selectsFixed then
    let dumped := dumpRegion dsp 0 layout.fixedFirst layout.fixedWords 0 s
    if dumped.1 then dumpPages dsp layout 0 dumped.2 [dumped.2.hash]
    else (dumped.2.lines ++ [endLine], [])
  else ([], [])

/-- `ROM_LAYOUT_06XX` and `ROM_LAYOUT_08XX`, the program ROM -/
def programLayout06xx : RomLayout := ⟨0x1000, 0xA000, 0xB000, 0x5000, 1, 2⟩
def programLayout08xx : RomLayout := ⟨0x2000, 0x8000, 0xA000, 0x6000, 2, 4⟩

/-- `ROM_LAYOUT_06XX` and `ROM_LAYOUT_08XX`, the data ROM; its page register holds the bank itself -/
def dataLayout06xx : RomLayout := ⟨0x6000, 0x3000, 0x9000, 0x4800, 0, 2⟩
def dataLayout08xx : RomLayout := ⟨0, 0, 0x8000, 0x5000, 0, 4⟩

/-! ## The text of a record -/

theorem hexBytes_append (xs ys : List UInt8) : hexBytes (xs ++ ys) = hexBytes xs ++ hexBytes ys :=
  List.flatMap_append

theorem hexPadded_two {b : Nat} (h : b < 256) : hexPadded 2 b = hexBytes [UInt8.ofNat b] := by
  have hbyte : (UInt8.ofNat b).toNat = b := by rw [UInt8.toNat_ofNat', Nat.mod_eq_of_lt h]
  rw [hexPadded_of_lt (by decide) (by omega)]
  simp only [hexFixed, hexBytes, List.flatMap_cons, List.flatMap_nil, List.append_nil, List.nil_append, hbyte]
  rw [Nat.mod_eq_of_lt (show b / 16 < 16 by omega)]
  rfl

theorem hexPadded_four {a : Nat} (h : a < 2 ^ 16) :
    hexPadded 4 a = hexBytes [UInt8.ofNat (a / 256), UInt8.ofNat (a % 256)] := by
  rw [show [UInt8.ofNat (a / 256), UInt8.ofNat (a % 256)]
      = [UInt8.ofNat (a / 256)] ++ [UInt8.ofNat (a % 256)] from rfl, hexBytes_append,
    ← hexPadded_two (by omega), ← hexPadded_two (by omega), hexPadded_of_lt (by decide) (by omega),
    hexPadded_of_lt (by decide) (by omega), hexPadded_of_lt (by decide) (by omega)]
  simp only [hexFixed, List.nil_append, List.cons_append]
  rw [show a / 256 / 16 = a / 16 / 16 / 16 by omega, show a / 256 = a / 16 / 16 by omega,
    show a % 256 / 16 % 16 = a / 16 % 16 by omega, show a % 256 % 16 = a % 16 by omega]

/-- The bytes of words, as the program prints them. -/
def wordBytes (words : List UInt16) : List UInt8 :=
  words.flatMap fun word => [UInt8.ofNat (lowByte word), UInt8.ofNat (highByte word)]

theorem wordBytes_append (xs ys : List UInt16) : wordBytes (xs ++ ys) = wordBytes xs ++ wordBytes ys :=
  List.flatMap_append

theorem wordBytes_length (words : List UInt16) : (wordBytes words).length = words.length * 2 := by
  induction words with
  | nil => rfl
  | cons word words ih =>
      rw [wordBytes, List.flatMap_cons, ← wordBytes, List.length_append, ih, List.length_cons]
      simp only [List.length_cons, List.length_nil]
      omega

theorem lowByte_lt (word : UInt16) : lowByte word < 256 := Nat.mod_lt _ (by decide)

theorem highByte_lt (word : UInt16) : highByte word < 256 := Nat.mod_lt _ (by decide)

theorem hexBytes_wordBytes (words : List UInt16) :
    words.flatMap (fun word => hexPadded 2 (lowByte word) ++ hexPadded 2 (highByte word))
      = hexBytes (wordBytes words) := by
  induction words with
  | nil => rfl
  | cons word words ih =>
      have hhead : wordBytes (word :: words)
          = [UInt8.ofNat (lowByte word)] ++ [UInt8.ofNat (highByte word)] ++ wordBytes words := rfl
      rw [List.flatMap_cons, ih, hhead, hexBytes_append, hexBytes_append, hexPadded_two (lowByte_lt word),
        hexPadded_two (highByte_lt word)]

theorem sum_wordBytes (words : List UInt16) :
    ((wordBytes words).map UInt8.toNat).sum = (words.map fun word => lowByte word + highByte word).sum := by
  induction words with
  | nil => rfl
  | cons word words ih =>
      have hlow : (UInt8.ofNat (lowByte word)).toNat = lowByte word := by
        rw [UInt8.toNat_ofNat', Nat.mod_eq_of_lt (lowByte_lt word)]
      have hhigh : (UInt8.ofNat (highByte word)).toNat = highByte word := by
        rw [UInt8.toNat_ofNat', Nat.mod_eq_of_lt (highByte_lt word)]
      rw [wordBytes, List.flatMap_cons, ← wordBytes, List.map_append, List.sum_append, ih, List.map_cons,
        List.sum_cons]
      simp only [List.map_cons, List.map_nil, List.sum_cons, List.sum_nil, hlow, hhigh, Nat.add_zero]

/-- The program adds up everything but the kind of a data record, which is zero. -/
theorem hexPadded_ihexChecksum {sum : Nat} {bytes : List UInt8} (h : (bytes.map UInt8.toNat).sum = sum) :
    hexPadded 2 (ihexChecksum sum) = hexBytes [checksum bytes] := by
  have hbyte : ihexChecksum sum < 256 := Nat.mod_lt _ (by decide)
  rw [hexPadded_two hbyte, checksum, h]
  congr 2
  apply UInt8.toNat_inj.mp
  rw [ihexChecksum, UInt8.toNat_ofNat', UInt8.toNat_ofNat']
  omega

def dataRecord (lowerAddress : Nat) (words : List UInt16) (haddress : lowerAddress < 2 ^ 16)
    (hwords : words.length ≤ ihexRecordWords) : Record where
  address := lowerAddress
  kind := 0
  data := wordBytes words
  address_lt := haddress
  length_lt := by
    rw [wordBytes_length]
    simp only [ihexRecordWords] at hwords
    omega

def extendedRecord (upperAddress : Nat) : Record where
  address := 0
  kind := 4
  data := [UInt8.ofNat (upperAddress / 256), UInt8.ofNat (upperAddress % 256)]
  address_lt := by decide
  length_lt := by simp

def endRecord : Record where
  address := 0
  kind := 1
  data := []
  address_lt := by decide
  length_lt := by decide

theorem endLine_eq : endLine = endRecord.line := by decide

theorem and_255 (n : Nat) : n &&& 0xFF = n % 256 := Nat.and_two_pow_sub_one_eq_mod n 8

theorem shiftRight_8 (n : Nat) : n >>> 8 = n / 256 := Nat.shiftRight_eq_div_pow n 8

theorem printIhexExtendedAddress_eq {upperAddress : Nat} (h : upperAddress < 2 ^ 16) :
    printIhexExtendedAddress upperAddress = (extendedRecord upperAddress).line := by
  have hhigh : (UInt8.ofNat (upperAddress / 256)).toNat = upperAddress / 256 := by
    rw [UInt8.toNat_ofNat', Nat.mod_eq_of_lt (by omega)]
  have hlow : (UInt8.ofNat (upperAddress % 256)).toNat = upperAddress % 256 := by
    rw [UInt8.toNat_ofNat', Nat.mod_eq_of_lt (by omega)]
  have hbytes : (extendedRecord upperAddress).bytes
      = [2, 0, 0, 4] ++ [UInt8.ofNat (upperAddress / 256), UInt8.ofNat (upperAddress % 256)] := by
    simp [extendedRecord, Record.bytes]
  have hsum : ((extendedRecord upperAddress).bytes.map UInt8.toNat).sum
      = 2 + 4 + (upperAddress >>> 8) + (upperAddress &&& 0xFF) := by
    rw [and_255, shiftRight_8, hbytes]
    simp only [List.map_append, List.map_cons, List.map_nil, List.sum_append, List.sum_cons, List.sum_nil,
      hhigh, hlow]
    change 6 + (upperAddress / 256 + (upperAddress % 256 + 0)) = _
    omega
  have hhead : [':', '0', '2', '0', '0', '0', '0', '0', '4'] = ':' :: hexBytes [2, 0, 0, 4] := by decide
  rw [printIhexExtendedAddress, hexPadded_ihexChecksum hsum, hexPadded_four h, Record.line, hexBytes_append,
    hbytes, hexBytes_append, hhead]
  rfl

theorem printIhexData_eq {address : Nat} {words : List UInt16} (hwords : words.length ≤ ihexRecordWords)
    (current : Nat) :
    printIhexData address words current
      = ((if (address >>> 16) % 2 ^ 16 ≠ current then [(extendedRecord ((address >>> 16) % 2 ^ 16)).line] else [])
          ++ [(dataRecord (address % 2 ^ 16) words (Nat.mod_lt _ (by decide)) hwords).line],
        (address >>> 16) % 2 ^ 16) := by
  have hlower : address % 2 ^ 16 < 2 ^ 16 := Nat.mod_lt _ (by decide)
  have hcount : words.length * 2 < 256 := by
    simp only [ihexRecordWords] at hwords
    omega
  generalize hrecord : dataRecord (address % 2 ^ 16) words hlower hwords = record
  have hbytes : record.bytes = [UInt8.ofNat (words.length * 2)]
      ++ [UInt8.ofNat (address % 2 ^ 16 / 256), UInt8.ofNat (address % 2 ^ 16 % 256)] ++ [0]
      ++ wordBytes words := by
    rw [← hrecord, Record.bytes, dataRecord, wordBytes_length]
    rfl
  have hsum : (record.bytes.map UInt8.toNat).sum
      = words.length * 2 + (address % 2 ^ 16) >>> 8 + ((address % 2 ^ 16) &&& 0xFF)
        + (words.map fun word => lowByte word + highByte word).sum := by
    rw [hbytes, and_255, shiftRight_8, List.map_append, List.sum_append, sum_wordBytes]
    congr 1
    simp only [List.map_append, List.map_cons, List.map_nil, List.sum_append, List.sum_cons, List.sum_nil,
      UInt8.toNat_ofNat', UInt8.toNat_ofNat]
    omega
  have hline : [':'] ++ hexPadded 2 (words.length * 2) ++ hexPadded 4 (address % 2 ^ 16) ++ ['0', '0']
      ++ words.flatMap (fun word => hexPadded 2 (lowByte word) ++ hexPadded 2 (highByte word))
      ++ hexPadded 2 (ihexChecksum (words.length * 2 + (address % 2 ^ 16) >>> 8 + ((address % 2 ^ 16) &&& 0xFF)
        + (words.map fun word => lowByte word + highByte word).sum)) = record.line := by
    rw [hexPadded_ihexChecksum hsum, hexPadded_two hcount, hexPadded_four hlower, hexBytes_wordBytes,
      Record.line, hexBytes_append, hbytes, hexBytes_append, hexBytes_append, hexBytes_append]
    rfl
  have hupper : (address >>> 16) % 2 ^ 16 < 2 ^ 16 := Nat.mod_lt _ (by decide)
  rw [printIhexData, ← printIhexExtendedAddress_eq hupper]
  simp only [hline]

/-! ## The loader follows the printer -/

/-- What has been printed loads to these bytes, and the loader is in the segment the printer takes it to be in. -/
def Prints (s : Dump) (image : List (Nat × UInt8)) : Prop :=
  ∃ upper, loadFrom ⟨0, [], false⟩ s.lines = some ⟨upper, image, false⟩
    ∧ (s.upperAddress = upper ∨ s.upperAddress = noUpperAddress)

/-- One record: it is not cut by the end of a segment, because it starts at a multiple of its size. -/
theorem prints_printIhexData {s : Dump} {image : List (Nat × UInt8)} (hs : Prints s image) (address : Nat)
    {words : List UInt16} (hwords : words.length ≤ ihexRecordWords) (haligned : 16 ∣ address)
    (hend : address + 2 * words.length ≤ 2 ^ 32 - 2 ^ 16) (hpos : 0 < words.length) (hash : UInt32) :
    Prints ⟨s.lines ++ (printIhexData address words s.upperAddress).1,
        (printIhexData address words s.upperAddress).2, hash⟩
      (image ++ place address (wordBytes words)) := by
  obtain ⟨upper, hload, hupper⟩ := hs
  have hlower : address % 2 ^ 16 < 2 ^ 16 := Nat.mod_lt _ (by decide)
  have hnew : (address >>> 16) % 2 ^ 16 = address / 2 ^ 16 := by
    rw [Nat.shiftRight_eq_div_pow, Nat.mod_eq_of_lt]
    omega
  have hnone : address / 2 ^ 16 ≠ noUpperAddress := by
    simp only [noUpperAddress]
    omega
  have hfits : (dataRecord (address % 2 ^ 16) words hlower hwords).address
      + (dataRecord (address % 2 ^ 16) words hlower hwords).data.length ≤ 2 ^ 16 := by
    simp only [dataRecord, wordBytes_length]
    simp only [ihexRecordWords] at hwords
    omega
  -- the data record, once the loader is in its segment
  have hdata : loadFrom ⟨address / 2 ^ 16, image, false⟩ [(dataRecord (address % 2 ^ 16) words hlower hwords).line]
      = some ⟨address / 2 ^ 16, image ++ place address (wordBytes words), false⟩ := by
    rw [loadFrom, List.foldlM_cons, loadLine_data rfl rfl hfits]
    simp only [dataRecord, Nat.div_add_mod']
    rfl
  refine ⟨address / 2 ^ 16, ?_, Or.inl ?_⟩
  · rw [printIhexData_eq hwords, hnew, loadFrom_append, hload, Option.bind_some, loadFrom_append]
    by_cases hsame : address / 2 ^ 16 = s.upperAddress
    · have heq : upper = address / 2 ^ 16 := by
        rcases hupper with h | h
        · rw [← h, hsame]
        · exact absurd (hsame.trans h) hnone
      rw [if_neg (not_not.mpr hsame), heq]
      exact hdata
    · have hextended : loadFrom ⟨upper, image, false⟩ [(extendedRecord (address / 2 ^ 16)).line]
          = some ⟨address / 2 ^ 16, image, false⟩ := by
        rw [loadFrom, List.foldlM_cons, loadLine_extended rfl rfl (by omega) rfl]
        rfl
      rw [if_pos hsame, hextended]
      exact hdata
  · rw [printIhexData_eq hwords, hnew]

/-! ## Blocks and regions -/

theorem dumpRecords_prints {outputFirst source first : Nat} (result : List UInt16) (hfirst : first ≤ source)
    (haligned : 8 ∣ outputFirst + (source - first))
    (hend : 2 * (outputFirst + (source - first) + result.length) ≤ 2 ^ 32 - 2 ^ 16) {i : Nat} (hi : 8 ∣ i)
    {s : Dump} {image : List (Nat × UInt8)} (hs : Prints s image) :
    Prints (dumpRecords outputFirst source first result i s)
        (image ++ place (2 * (outputFirst + (source - first) + i)) (wordBytes (result.drop i)))
      ∧ (dumpRecords outputFirst source first result i s).hash = (result.drop i).foldl hashWord s.hash := by
  induction hn : result.length - i using Nat.strong_induction_on generalizing i s image with
  | _ n ih =>
      rw [dumpRecords]
      by_cases hlt : i < result.length
      · rw [if_pos hlt]
        have haddress : wrap32 ((outputFirst + source + i - first) * 2)
            = 2 * (outputFirst + (source - first) + i) := by
          rw [wrap32_of_lt (by omega)]
          omega
        have hrecord : ((result.drop i).take ihexRecordWords).length ≤ ihexRecordWords := by
          rw [List.length_take]
          exact Nat.min_le_left _ _
        have hle : ((result.drop i).take ihexRecordWords).length ≤ result.length - i := by
          rw [List.length_take, List.length_drop]
          exact Nat.min_le_right _ _
        have hpos : 0 < ((result.drop i).take ihexRecordWords).length := by
          rw [List.length_take, List.length_drop]
          simp only [ihexRecordWords]
          omega
        have hstep := prints_printIhexData hs (2 * (outputFirst + (source - first) + i)) hrecord
          (by omega) (by omega) hpos (((result.drop i).take ihexRecordWords).foldl hashWord s.hash)
        have hsplit : result.drop i
            = (result.drop i).take ihexRecordWords ++ result.drop (i + ihexRecordWords) := by
          rw [← List.drop_drop, List.take_append_drop]
        have hnext : 8 ∣ i + ihexRecordWords := by
          simp only [ihexRecordWords]
          omega
        have hrest := ih (result.length - (i + ihexRecordWords)) (by simp only [ihexRecordWords]; omega) hnext
          hstep rfl
        rw [haddress]
        -- the next record begins where this one ends, unless this is the last one
        have himage : place (2 * (outputFirst + (source - first) + i)) (wordBytes (result.drop i))
            = place (2 * (outputFirst + (source - first) + i))
                (wordBytes ((result.drop i).take ihexRecordWords))
              ++ place (2 * (outputFirst + (source - first) + (i + ihexRecordWords)))
                (wordBytes (result.drop (i + ihexRecordWords))) := by
          by_cases hlast : result.length ≤ i + ihexRecordWords
          · rw [List.drop_eq_nil_of_le hlast, List.take_of_length_le (by rw [List.length_drop]; omega)]
            exact (List.append_nil _).symm
          · have hfull : ((result.drop i).take ihexRecordWords).length = ihexRecordWords := by
              rw [List.length_take, List.length_drop]
              omega
            conv_lhs => rw [hsplit]
            rw [wordBytes_append, place_append, wordBytes_length, hfull]
            rfl
        refine ⟨?_, ?_⟩
        · rw [himage, ← List.append_assoc]
          exact hrest.1
        · rw [hrest.2, ← List.foldl_append, ← hsplit]
      · rw [if_neg hlt, List.drop_eq_nil_of_le (by omega)]
        refine ⟨?_, rfl⟩
        rw [show place (2 * (outputFirst + (source - first) + i)) (wordBytes []) = [] from rfl, List.append_nil]
        exact hs

/-- The words of a region. -/
def regionWords (dsp : BootFirmware) (page first words : Nat) : List UInt16 :=
  (List.range' first words).map (dsp.word page)

theorem regionWords_length (dsp : BootFirmware) (page first words : Nat) :
    (regionWords dsp page first words).length = words := by
  rw [regionWords, List.length_map, List.length_range']

theorem regionWords_add (dsp : BootFirmware) (page first words words' : Nat) :
    regionWords dsp page first (words + words')
      = regionWords dsp page first words ++ regionWords dsp page (first + words) words' := by
  rw [regionWords, ← List.range'_append_1, List.map_append]
  rfl

theorem dspRead_eq {dsp : BootFirmware} {page source words : Nat} {result : List UInt16}
    (h : dspRead dsp page source words = some result) : result = regionWords dsp page source words := by
  rw [dspRead] at h
  split_ifs at h with hread
  rw [← Option.some.inj h, regionWords, List.range'_eq_map_range, List.map_map]
  rfl

theorem dvd_blockWords {remaining : Nat} (h : 8 ∣ remaining) : 8 ∣ blockWords remaining := by
  rw [blockWords]
  split
  · exact h
  · exact ⟨63, rfl⟩

/-- The blocks from `source` on: a beginning of what is left of the region is printed, and all of it where every
    block is read. -/
theorem dumpBlocks_prints (dsp : BootFirmware) (page : Nat) {first words outputFirst : Nat} (hwords : 8 ∣ words)
    (haligned : 8 ∣ outputFirst) (hend : 2 * (outputFirst + words) ≤ 2 ^ 32 - 2 ^ 16) (source : Nat) {left : Nat}
    (hfirst : first ≤ source) (hleft : source + left = first + words) (hsource : 8 ∣ source - first) {s : Dump}
    {image : List (Nat × UInt8)} (hs : Prints s image) :
    ∃ printed, printed <+: regionWords dsp page source left
      ∧ Prints (dumpBlocks dsp page first words outputFirst source s).2
          (image ++ place (2 * (outputFirst + (source - first))) (wordBytes printed))
      ∧ ((dumpBlocks dsp page first words outputFirst source s).1 = true →
          printed = regionWords dsp page source left
            ∧ (dumpBlocks dsp page first words outputFirst source s).2.hash = printed.foldl hashWord s.hash)
      ∧ ((∀ source, dsp.reads page source = true) →
          (dumpBlocks dsp page first words outputFirst source s).1 = true) := by
  have hempty : ∀ start, place start (wordBytes []) = [] := fun _ => rfl
  induction left using Nat.strong_induction_on generalizing source s image with
  | _ left ih =>
      rw [dumpBlocks]
      by_cases hlt : source < first + words
      · rw [if_pos hlt, show first + words - source = left by omega]
        have hpos : 0 < blockWords left := blockWords_pos (by omega)
        have hle : blockWords left ≤ left := blockWords_le left
        cases hread : dspRead dsp page source (blockWords left) with
        | none =>
            refine ⟨[], List.nil_prefix, ?_, fun h => absurd h Bool.false_ne_true, fun h => ?_⟩
            · rw [hempty, List.append_nil]
              exact hs
            · rw [dspRead, if_pos (h source)] at hread
              exact absurd hread (Option.some_ne_none _)
        | some result =>
            have hresult := dspRead_eq hread
            have hlength : result.length = blockWords left := by rw [hresult, regionWords_length]
            have hrecords := dumpRecords_prints result hfirst (Nat.dvd_add haligned hsource)
              (by omega) (Nat.dvd_zero 8) hs
            rw [List.drop_zero, Nat.add_zero] at hrecords
            have hstep : 8 ∣ blockWords left := dvd_blockWords (by omega)
            obtain ⟨printed, hprefix, hprints, hall, hreads⟩ := ih (left - blockWords left) (by omega)
              (source + blockWords left) (by omega) (by omega) (by omega) hrecords.1
            have hregion : regionWords dsp page source left
                = result ++ regionWords dsp page (source + blockWords left) (left - blockWords left) := by
              rw [hresult, ← regionWords_add, Nat.add_sub_cancel' hle]
            have hplace : place (2 * (outputFirst + (source - first))) (wordBytes (result ++ printed))
                = place (2 * (outputFirst + (source - first))) (wordBytes result)
                  ++ place (2 * (outputFirst + (source + blockWords left - first))) (wordBytes printed) := by
              rw [wordBytes_append, place_append, wordBytes_length, hlength]
              congr 2
              omega
            refine ⟨result ++ printed, ?_, ?_, fun h => ?_, hreads⟩
            · rw [hregion]
              exact (List.prefix_append_right_inj result).mpr hprefix
            · rw [hplace, ← List.append_assoc]
              exact hprints
            · obtain ⟨rfl, hhash⟩ := hall h
              refine ⟨hregion.symm, ?_⟩
              rw [List.foldl_append, ← hrecords.2]
              exact hhash
      · rw [if_neg hlt]
        obtain rfl : left = 0 := by omega
        refine ⟨[], List.nil_prefix, ?_, fun _ => ⟨rfl, rfl⟩, fun _ => rfl⟩
        rw [hempty, List.append_nil]
        exact hs

/-- The hash of a region: word-wise FNV-1a. -/
def regionHash (words : List UInt16) : UInt32 := words.foldl hashWord 0x811C9DC5

theorem dumpRegion_prints (dsp : BootFirmware) (page first : Nat) {words : Nat} (outputFirst : Nat) (hwords : 8 ∣ words)
    (haligned : 8 ∣ outputFirst) (hend : 2 * (outputFirst + words) ≤ 2 ^ 32 - 2 ^ 16) {s : Dump}
    {image : List (Nat × UInt8)} (hs : Prints s image) :
    ∃ printed, printed <+: regionWords dsp page first words
      ∧ Prints (dumpRegion dsp page first words outputFirst s).2
          (image ++ place (2 * outputFirst) (wordBytes printed))
      ∧ ((dumpRegion dsp page first words outputFirst s).1 = true →
          printed = regionWords dsp page first words
            ∧ (dumpRegion dsp page first words outputFirst s).2.hash = regionHash printed)
      ∧ ((∀ source, dsp.reads page source = true) →
          (dumpRegion dsp page first words outputFirst s).1 = true) := by
  have hblocks := dumpBlocks_prints dsp page hwords haligned hend first (Nat.le_refl first) rfl
    (by rw [Nat.sub_self]; exact Nat.dvd_zero 8) (s := { s with hash := 0x811C9DC5 }) hs
  rw [Nat.sub_self, Nat.add_zero] at hblocks
  exact hblocks

/-! ## The ROM -/

/-- The fixed part and the windows behind it, as the image has them. -/
structure RomLayout.Aligned (layout : RomLayout) : Prop where
  fixed : 8 ∣ layout.fixedWords
  window : 8 ∣ layout.windowWords
  fits : 2 * (layout.fixedWords + layout.pageCount * layout.windowWords) ≤ 2 ^ 32 - 2 ^ 16

/-- The banks from `page` on. -/
def banks (dsp : BootFirmware) (layout : RomLayout) (page : Nat) : List (List UInt16) :=
  (List.range' page (layout.pageCount - page)).map fun page =>
    regionWords dsp (page <<< layout.pageShift) layout.windowFirst layout.windowWords

theorem banks_cons (dsp : BootFirmware) {layout : RomLayout} {page : Nat} (h : page < layout.pageCount) :
    banks dsp layout page
      = regionWords dsp (page <<< layout.pageShift) layout.windowFirst layout.windowWords
        :: banks dsp layout (page + 1) := by
  rw [banks, show layout.pageCount - page = layout.pageCount - (page + 1) + 1 by omega, List.range'_succ,
    List.map_cons]
  rfl

/-- The parts of the ROM in the order of the dump. -/
def romParts (dsp : BootFirmware) (layout : RomLayout) : List (List UInt16) :=
  (if layout.fixedWords = 0 then [] else [regionWords dsp 0 layout.fixedFirst layout.fixedWords])
    ++ banks dsp layout 0

/-- The firmware completes every command. -/
structure BootFirmware.Answers (dsp : BootFirmware) : Prop where
  selectsFixed : dsp.selectsFixed = true
  selects : ∀ page, dsp.selects page = true
  reads : ∀ page source, dsp.reads page source = true

theorem load_endLine {s : Dump} {image : List (Nat × UInt8)} (hs : Prints s image) :
    load (s.lines ++ [endLine]) = some image := by
  obtain ⟨upper, hload, -⟩ := hs
  rw [load, loadFrom_append, hload, Option.bind_some, loadFrom, List.foldlM_cons, endLine_eq,
    loadLine_end rfl rfl rfl]
  rfl

/-- The banks from `page` on, with the hashes so far. -/
theorem dumpPages_loads (dsp : BootFirmware) {layout : RomLayout} (haligned : layout.Aligned) {page : Nat}
    (hpage : page ≤ layout.pageCount) {s : Dump} {image : List (Nat × UInt8)} (hs : Prints s image)
    (hashes : List UInt32) :
    ∃ printed, printed <+: (banks dsp layout page).flatten
      ∧ load (dumpPages dsp layout page s hashes).1
          = some (image ++ place (2 * (layout.fixedWords + page * layout.windowWords)) (wordBytes printed))
      ∧ (dumpPages dsp layout page s hashes).2 <+: hashes ++ (banks dsp layout page).map regionHash
      ∧ (dsp.Answers → printed = (banks dsp layout page).flatten
          ∧ (dumpPages dsp layout page s hashes).2 = hashes ++ (banks dsp layout page).map regionHash) := by
  have hstop : load (s.lines ++ [endLine])
      = some (image ++ place (2 * (layout.fixedWords + page * layout.windowWords)) (wordBytes [])) := by
    rw [load_endLine hs, show wordBytes [] = [] from rfl, show place _ [] = [] from rfl, List.append_nil]
  induction hn : layout.pageCount - page using Nat.strong_induction_on generalizing page s image hashes with
  | _ n ih =>
      rw [dumpPages]
      by_cases hlt : page < layout.pageCount
      · rw [if_pos hlt]
        dsimp only
        cases hselects : dsp.selects (page <<< layout.pageShift) with
        | false =>
            refine ⟨[], List.nil_prefix, hstop, List.prefix_append _ _, fun h => ?_⟩
            exact absurd (h.selects _) (by rw [hselects]; exact Bool.false_ne_true)
        | true =>
            rw [if_pos rfl]
            have hnext : (page + 1) * layout.windowWords ≤ layout.pageCount * layout.windowWords :=
              Nat.mul_le_mul_right _ hlt
            have hsucc : (page + 1) * layout.windowWords = page * layout.windowWords + layout.windowWords :=
              Nat.succ_mul _ _
            have hfits := haligned.fits
            obtain ⟨printed, hprefix, hprints, hdone, hanswers⟩ := dumpRegion_prints dsp
              (page <<< layout.pageShift) layout.windowFirst
              (layout.fixedWords + page * layout.windowWords) haligned.window
              (Nat.dvd_add haligned.fixed (Dvd.dvd.mul_left haligned.window page)) (by omega) hs
            generalize dumpRegion dsp (page <<< layout.pageShift) layout.windowFirst layout.windowWords
              (layout.fixedWords + page * layout.windowWords) s = dumped at hprints hdone hanswers
            rw [banks_cons dsp hlt, List.flatten_cons, List.map_cons]
            cases hdumped : dumped.1 with
            | false =>
                refine ⟨printed, hprefix.trans (List.prefix_append _ _), load_endLine hprints,
                  List.prefix_append _ _, fun h => ?_⟩
                rw [hanswers (h.reads _)] at hdumped
                exact absurd hdumped.symm Bool.false_ne_true
            | true =>
                obtain ⟨rfl, hhash⟩ := hdone hdumped
                obtain ⟨rest, hrest, hload, hhashes, hall⟩ := ih (layout.pageCount - (page + 1)) (by omega)
                  (by omega) hprints (hashes ++ [dumped.2.hash]) (by
                    rw [load_endLine hprints, show wordBytes [] = [] from rfl, show place _ [] = [] from rfl,
                      List.append_nil]) rfl
                rw [hhash, List.append_assoc, List.singleton_append] at hhashes hall
                rw [if_pos rfl, hhash]
                refine ⟨_ ++ rest, (List.prefix_append_right_inj _).mpr hrest, ?_, hhashes, fun h => ?_⟩
                · rw [hhash] at hload
                  rw [hload, wordBytes_append, place_append, wordBytes_length, regionWords_length,
                    ← List.append_assoc, hsucc]
                  congr 4
                  omega
                · obtain ⟨rfl, hhashes⟩ := hall h
                  exact ⟨rfl, hhashes⟩
      · rw [if_neg hlt]
        have hnone : banks dsp layout page = [] := by
          rw [banks, Nat.sub_eq_zero_of_le (by omega)]
          rfl
        rw [hnone, List.map_nil, List.append_nil]
        exact ⟨[], List.nil_prefix, hstop, List.prefix_refl _, fun _ => ⟨rfl, rfl⟩⟩

/-- The ROMs of the two layouts, with what the program does where there is no fixed part. -/
def romLayouts : List (RomLayout × Bool) :=
  [(programLayout06xx, false), (programLayout08xx, false), (dataLayout06xx, true), (dataLayout08xx, true)]

theorem romLayouts_aligned {rom : RomLayout × Bool} (h : rom ∈ romLayouts) :
    rom.1.Aligned ∧ (rom.1.fixedWords = 0 → rom.2 = true) := by
  simp only [romLayouts, List.mem_cons, List.not_mem_nil, or_false] at h
  obtain rfl | rfl | rfl | rfl := h
  · exact ⟨⟨by decide, by decide, by decide⟩, by decide⟩
  · exact ⟨⟨by decide, by decide, by decide⟩, by decide⟩
  · exact ⟨⟨by decide, by decide, by decide⟩, by decide⟩
  · exact ⟨⟨by decide, by decide, by decide⟩, by decide⟩

/-- For each ROM and whatever the DSP answers, what the program prints is a file that loads, from address zero on,
    to a beginning of the ROM, with the hashes of the parts it went through; where every command completes, it is
    the whole ROM. -/
theorem romDump_loads (rom : RomLayout × Bool) (h : rom ∈ romLayouts) (dsp : BootFirmware) :
    ∃ words, words <+: (romParts dsp rom.1).flatten
      ∧ load (romDump dsp rom.1 rom.2).1 = some (place 0 (wordBytes words))
      ∧ (romDump dsp rom.1 rom.2).2 <+: (romParts dsp rom.1).map regionHash
      ∧ (dsp.Answers → words = (romParts dsp rom.1).flatten
          ∧ (romDump dsp rom.1 rom.2).2 = (romParts dsp rom.1).map regionHash) := by
  obtain ⟨haligned, hskip⟩ := romLayouts_aligned h
  obtain ⟨layout, skipFixed⟩ := rom
  have hstart : Prints ⟨[], noUpperAddress, 0⟩ [] := ⟨0, rfl, Or.inr rfl⟩
  rw [romDump]
  by_cases hnone : layout.fixedWords = 0
  · have hpages := dumpPages_loads dsp haligned (Nat.zero_le _) hstart []
    rw [Nat.zero_mul, Nat.add_zero, hnone] at hpages
    rw [if_pos ⟨hskip hnone, hnone⟩, romParts, if_pos hnone, List.nil_append]
    exact hpages
  · rw [if_neg (fun h => hnone h.2), romParts, if_neg hnone]
    have hfits := haligned.fits
    obtain ⟨printed, hprefix, hprints, hdone, hanswers⟩ := dumpRegion_prints dsp 0 layout.fixedFirst 0
      haligned.fixed (Nat.dvd_zero 8) (by omega) hstart
    generalize dumpRegion dsp 0 layout.fixedFirst layout.fixedWords 0 ⟨[], noUpperAddress, 0⟩ = dumped
      at hprints hdone hanswers
    rw [List.singleton_append, List.flatten_cons, List.map_cons]
    cases hselects : dsp.selectsFixed with
    | false =>
        refine ⟨[], List.nil_prefix, rfl, List.nil_prefix, fun h => ?_⟩
        rw [h.selectsFixed] at hselects
        exact absurd hselects.symm Bool.false_ne_true
    | true =>
        rw [if_pos rfl]
        dsimp only at hprefix hprints hdone hanswers ⊢
        cases hdumped : dumped.1 with
        | false =>
            refine ⟨printed, hprefix.trans (List.prefix_append _ _), load_endLine hprints, List.nil_prefix,
              fun h => ?_⟩
            rw [hanswers (h.reads _)] at hdumped
            exact absurd hdumped.symm Bool.false_ne_true
        | true =>
            obtain ⟨rfl, hhash⟩ := hdone hdumped
            obtain ⟨rest, hrest, hload, hhashes, hall⟩ := dumpPages_loads dsp haligned (Nat.zero_le _) hprints
              [dumped.2.hash]
            rw [hhash, List.singleton_append] at hhashes hall
            rw [if_pos rfl, hhash]
            rw [hhash, Nat.zero_mul, Nat.add_zero, List.nil_append] at hload
            refine ⟨_ ++ rest, (List.prefix_append_right_inj _).mpr hrest, ?_, hhashes, fun h => ?_⟩
            · rw [hload, wordBytes_append, place_append, wordBytes_length, regionWords_length, Nat.zero_add,
                Nat.mul_comm layout.fixedWords 2]
            · obtain ⟨rfl, hhashes⟩ := hall h
              exact ⟨rfl, hhashes⟩

/-- A firmware that stops after the first bank. -/
theorem romDump_loads_first : ∃ words,
    words <+: (romParts ⟨true, fun page => page = 0, fun _ _ => true, fun _ address => address.toUInt16⟩
      programLayout06xx).flatten
      ∧ load (romDump ⟨true, fun page => page = 0, fun _ _ => true, fun _ address => address.toUInt16⟩
          programLayout06xx false).1
        = some (place 0 (wordBytes words)) := by
  obtain ⟨words, hprefix, hload, -⟩ := romDump_loads (programLayout06xx, false)
    (by simp only [romLayouts, List.mem_cons, true_or])
    ⟨true, fun page => page = 0, fun _ _ => true, fun _ address => address.toUInt16⟩
  exact ⟨words, hprefix, hload⟩

end Pmb887x.Dsp.RomDump
