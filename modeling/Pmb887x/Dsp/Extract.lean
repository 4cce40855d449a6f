import Pmb887x.Dsp.ContainerReader

set_option autoImplicit false

/-! # The container extractor (`tools/dsp/extract_dsp_firmware.pl`)

The Perl tool parses the container at an address of a firmware image and writes its bytes to
`container.bin`. What it accepts is a container, and the reader of the unit tests finds the same records in
the written file. -/

namespace Pmb887x.Dsp

open Library

/-! ## The tool -/

inductive RecordType where
  | pload
  | dload
  | branch
  deriving DecidableEq

/-- The value of the type field. -/
def RecordType.code : RecordType → Nat
  | .pload => 0
  | .dload => 1
  | .branch => 2

/-- A record of the tool; `offset` is its place in the firmware file. -/
structure ExtractedRecord where
  index : Nat
  type : RecordType
  offset : Nat
  destination : Nat
  length : Nat
  raw : List UInt8
  payload : List UInt8
  deriving DecidableEq

inductive ExtractError where
  | outsideInput (offset : Int)
  | shortRead (description : String) (offset wanted got : Nat)
  | invalidType (type offset : Nat)
  | unreasonableLength (length offset : Nat)
  | exceedsAddressSpace (offset : Nat)
  | pastEnd
  | noBranch
  deriving DecidableEq

def readExact (file : List UInt8) (offset length : Nat) (description : String) :
    Except ExtractError (List UInt8) :=
  let data := (file.drop offset).take length
  if data.length ≠ length then .error (.shortRead description offset length data.length)
  else .ok data

/-- One pass of the loop of `parse_container`, up to the record it pushes. -/
def parseRecord (file : List UInt8) (index cursor : Nat) : Except ExtractError ExtractedRecord := do
  let header ← readExact file cursor 4 "DSP record header"
  let type := ofLeBytes (header.take 2)
  let destination := ofLeBytes (header.drop 2)
  if type = 2 then
    .ok { index := index, type := .branch, offset := cursor, destination := destination,
          length := 0, raw := header, payload := [] }
  else if type ≠ 0 ∧ type ≠ 1 then .error (.invalidType type cursor)
  else do
    let lengthData ← readExact file (cursor + 4) 2 "DSP record length"
    let length := ofLeBytes lengthData
    if length > 0x1000 then .error (.unreasonableLength length cursor)
    else if destination + length > 0x10000 then .error (.exceedsAddressSpace cursor)
    else do
      let payload ← readExact file (cursor + 6) (length * 2) "DSP record payload"
      .ok { index := index, type := if type = 0 then .pload else .dload, offset := cursor,
            destination := destination, length := length, raw := header ++ lengthData ++ payload,
            payload := payload }

/-- The loop of `parse_container` with `remaining` passes left: the records, the cursor behind them and
the branch. -/
def parseRecords (file : List UInt8) :
    Nat → Nat → Nat → Except ExtractError (List ExtractedRecord × Nat × Option Nat)
  | 0, _, cursor => .ok ([], cursor, none)
  | remaining + 1, index, cursor => do
      let record ← parseRecord file index cursor
      if record.type = .branch then .ok ([record], cursor + 4, some record.destination)
      else if cursor + (6 + record.length * 2) > file.length then .error .pastEnd
      else do
        let parsed ← parseRecords file remaining (index + 1) (cursor + (6 + record.length * 2))
        .ok (record :: parsed.1, parsed.2)

/-- The records, the size of the container and the branch. -/
def parseContainer (file : List UInt8) (offset : Int) :
    Except ExtractError (List ExtractedRecord × Nat × Nat) :=
  if offset < 0 ∨ offset ≥ file.length then .error (.outsideInput offset)
  else do
    let parsed ← parseRecords file 256 0 offset.toNat
    match parsed.2.2 with
    | none => .error .noBranch
    | some branch => .ok (parsed.1, parsed.2.1 - offset.toNat, branch)

/-- The words the records of a type reach to. -/
def imageWords (records : List ExtractedRecord) (type : RecordType) : Nat :=
  records.foldl (fun words record =>
    if record.type ≠ type then words
    else if record.destination + record.length > words then record.destination + record.length
    else words) 0

def buildSparseImage (records : List ExtractedRecord) (type : RecordType) : List UInt8 :=
  records.foldl (fun image record =>
    if record.type ≠ type then image
    else
      image.take (record.destination * 2) ++ record.payload ++
        image.drop (record.destination * 2 + record.length * 2))
    (List.replicate (imageWords records type * 2) 0xFF)

/-- What `extract_container` finds and the images it writes. -/
structure Extracted where
  records : List ExtractedRecord
  containerSize : Nat
  branch : Nat
  container : List UInt8
  pram : List UInt8
  dram : List UInt8
  deriving DecidableEq

def extractContainer (file : List UInt8) (base address : Nat) : Except ExtractError Extracted := do
  let parsed ← parseContainer file (address - base : Int)
  .ok { records := parsed.1, containerSize := parsed.2.1, branch := parsed.2.2,
        container := parsed.1.flatMap ExtractedRecord.raw,
        pram := buildSparseImage parsed.1 .pload, dram := buildSparseImage parsed.1 .dload }

/-! ## What the tool accepts -/

def ContainerRecord.type : ContainerRecord → RecordType
  | .load .program _ _ => .pload
  | .load .data _ _ => .dload
  | .branch _ => .branch

/-- The record the tool keeps for one at `cursor`. -/
def ContainerRecord.extracted (index cursor : Nat) (r : ContainerRecord) : ExtractedRecord where
  index := index
  type := r.type
  offset := cursor
  destination := r.destination
  length := r.payload.length / 2
  raw := r.encode
  payload := r.payload

def extractedAt : Nat → Nat → List ContainerRecord → List ExtractedRecord
  | _, _, [] => []
  | index, cursor, r :: records =>
      r.extracted index cursor :: extractedAt (index + 1) (cursor + r.encode.length) records

theorem readExact_ok {file data : List UInt8} {offset length : Nat} {description : String}
    (h : readExact file offset length description = .ok data) :
    data.length = length ∧ file.drop offset = data ++ file.drop (offset + length) := by
  unfold readExact at h
  dsimp only at h
  split_ifs at h with hlength
  obtain rfl := Except.ok.inj h
  refine ⟨not_not.mp hlength, ?_⟩
  rw [← List.drop_drop, List.take_append_drop]

theorem leBytes_ofLeBytes_of_length {bytes : List UInt8} (h : bytes.length = 2) :
    leBytes 2 (ofLeBytes bytes) = bytes := by
  obtain ⟨b₀, b₁, rfl⟩ := List.length_eq_two.mp h
  exact leBytes_ofLeBytes_two b₀ b₁

theorem ofLeBytes_lt_of_length {bytes : List UInt8} (h : bytes.length = 2) :
    ofLeBytes bytes < 2 ^ 16 := by
  obtain ⟨b₀, b₁, rfl⟩ := List.length_eq_two.mp h
  exact ofLeBytes_two_lt b₀ b₁

/-- The type field of a load names its space. -/
theorem exists_space_of_type {type : Nat} (h : ¬ (type ≠ 0 ∧ type ≠ 1)) :
    ∃ space : LoadSpace, space.command = type ∧ ∀ destination payload,
      (ContainerRecord.load space destination payload).type
        = if type = 0 then .pload else .dload := by
  by_cases hzero : type = 0
  · exact ⟨.program, hzero.symm, fun _ _ => (if_pos hzero).symm⟩
  · have hone : type = 1 := not_not.mp fun hne => h ⟨hzero, hne⟩
    exact ⟨.data, hone.symm, fun _ _ => (if_neg hzero).symm⟩

/-- A pass that succeeds has a valid record in front of it. -/
theorem parseRecord_ok {file : List UInt8} {index cursor : Nat} {record : ExtractedRecord}
    (h : parseRecord file index cursor = .ok record) :
    ∃ r : ContainerRecord, r.Valid ∧ record = r.extracted index cursor ∧
      file.drop cursor = r.encode ++ file.drop (cursor + r.encode.length) := by
  obtain ⟨header, hheader, h⟩ := exists_of_bind_eq_ok h
  obtain ⟨hheaderLength, hfile⟩ := readExact_ok hheader
  have htypeLength : (header.take 2).length = 2 := by simp [hheaderLength]
  have hdestinationLength : (header.drop 2).length = 2 := by simp [hheaderLength]
  have hsplit : leBytes 2 (ofLeBytes (header.take 2)) ++ leBytes 2 (ofLeBytes (header.drop 2))
      = header := by
    rw [leBytes_ofLeBytes_of_length htypeLength, leBytes_ofLeBytes_of_length hdestinationLength,
      List.take_append_drop]
  have hdestination := ofLeBytes_lt_of_length hdestinationLength
  dsimp only at h
  by_cases hbranch : ofLeBytes (header.take 2) = 2
  · rw [if_pos hbranch] at h
    obtain rfl := Except.ok.inj h
    have hencode : (ContainerRecord.branch (ofLeBytes (header.drop 2))).encode = header := by
      rw [hbranch] at hsplit
      exact hsplit
    refine ⟨.branch (ofLeBytes (header.drop 2)), hdestination, ?_, ?_⟩
    · simp only [ContainerRecord.extracted, hencode, ContainerRecord.type,
        ContainerRecord.destination, ContainerRecord.payload, List.length_nil, Nat.zero_div]
    · rw [hencode, hheaderLength]
      exact hfile
  · rw [if_neg hbranch] at h
    by_cases hunknown : ofLeBytes (header.take 2) ≠ 0 ∧ ofLeBytes (header.take 2) ≠ 1
    · rw [if_pos hunknown] at h
      cases h
    rw [if_neg hunknown] at h
    obtain ⟨lengthData, hlengthData, h⟩ := exists_of_bind_eq_ok h
    obtain ⟨htwo, hlengthFile⟩ := readExact_ok hlengthData
    by_cases hlong : ofLeBytes lengthData > 0x1000
    · rw [if_pos hlong] at h
      cases h
    by_cases hbeyond : ofLeBytes (header.drop 2) + ofLeBytes lengthData > 0x10000
    · rw [if_neg hlong, if_pos hbeyond] at h
      cases h
    rw [if_neg hlong, if_neg hbeyond] at h
    obtain ⟨payload, hpayload, h⟩ := exists_of_bind_eq_ok h
    obtain ⟨hpayloadLength, hpayloadFile⟩ := readExact_ok hpayload
    obtain rfl := Except.ok.inj h
    obtain ⟨space, hcommand, htype⟩ := exists_space_of_type hunknown
    have hwords : payload.length / 2 = ofLeBytes lengthData := by
      rw [hpayloadLength, Nat.mul_div_cancel _ (Nat.succ_pos 1)]
    have hencode : (ContainerRecord.load space (ofLeBytes (header.drop 2)) payload).encode
        = header ++ lengthData ++ payload := by
      rw [ContainerRecord.encode, hcommand, hwords, leBytes_ofLeBytes_of_length htwo, hsplit]
    refine ⟨.load space (ofLeBytes (header.drop 2)) payload,
      ⟨hdestination, ofLeBytes lengthData, ofLeBytes_lt_of_length htwo, ?_, ?_⟩, ?_, ?_⟩
    · rw [hpayloadLength, Nat.mul_comm]
    · exact Nat.le_of_not_lt hbeyond
    · simp only [ContainerRecord.extracted, hencode, htype, ContainerRecord.destination,
        ContainerRecord.payload, hwords]
    · have hlength : (header ++ lengthData ++ payload).length = 6 + ofLeBytes lengthData * 2 := by
        rw [List.length_append, List.length_append, hheaderLength, htwo, hpayloadLength]
      rw [hencode, hlength, ← Nat.add_assoc, hfile, hlengthFile, hpayloadFile, List.append_assoc,
        List.append_assoc]

/-- The length of a record as the cursor advances over it. -/
theorem ContainerRecord.length_encode_load {space : LoadSpace} {destination : Nat}
    {payload : List UInt8} (h : (ContainerRecord.load space destination payload).Valid) :
    (ContainerRecord.load space destination payload).encode.length
      = 6 + payload.length / 2 * 2 := by
  obtain ⟨-, words, -, hlength, -⟩ := h
  simp only [encode, List.length_append, leBytes_length]
  omega

/-- The loop ends at a branch with a container behind the cursor. -/
theorem parseRecords_ok {file : List UInt8} {remaining index cursor stop branch : Nat}
    {records : List ExtractedRecord}
    (h : parseRecords file remaining index cursor = .ok (records, stop, some branch)) :
    ∃ loads : List ContainerRecord, (∀ r ∈ loads, r.Valid ∧ r.isBranch = false) ∧
      branch < 2 ^ 16 ∧
      records = extractedAt index cursor (loads ++ [.branch branch]) ∧
      stop = cursor + (containerFormat.encodeAll (loads ++ [.branch branch])).length ∧
      file.drop cursor = containerFormat.encodeAll (loads ++ [.branch branch]) ++ file.drop stop := by
  induction remaining generalizing index cursor records with
  | zero => cases h
  | succ remaining ih =>
      obtain ⟨record, hrecord, h⟩ := exists_of_bind_eq_ok h
      obtain ⟨r, hvalid, rfl, hfile⟩ := parseRecord_ok hrecord
      cases r with
      | branch destination =>
          have htype : ((ContainerRecord.branch destination).extracted index cursor).type
              = .branch := rfl
          rw [if_pos htype] at h
          obtain ⟨rfl, hrest⟩ := Prod.mk.inj (Except.ok.inj h)
          obtain ⟨rfl, hbranch⟩ := Prod.mk.inj hrest
          obtain rfl : destination = branch := Option.some.inj hbranch
          have hencode : containerFormat.encodeAll ([] ++ [.branch destination])
              = (ContainerRecord.branch destination).encode := List.append_nil _
          refine ⟨[], by simp, hvalid, rfl, ?_, ?_⟩
          · rw [hencode]
            rfl
          · rw [hencode]
            exact hfile
      | load space destination payload =>
          have htype : ((ContainerRecord.load space destination payload).extracted index
              cursor).type ≠ .branch := by cases space <;> intro h <;> cases h
          have hadvance : cursor + (6
              + ((ContainerRecord.load space destination payload).extracted index cursor).length * 2)
              = cursor + (ContainerRecord.load space destination payload).encode.length := by
            rw [ContainerRecord.length_encode_load hvalid]
            rfl
          rw [if_neg htype, hadvance] at h
          by_cases hend : cursor + (ContainerRecord.load space destination payload).encode.length
              > file.length
          · rw [if_pos hend] at h
            cases h
          rw [if_neg hend] at h
          obtain ⟨parsed, hparsed, h⟩ := exists_of_bind_eq_ok h
          obtain ⟨rest, stop', branch'⟩ := parsed
          obtain ⟨rfl, hstop⟩ := Prod.mk.inj (Except.ok.inj h)
          obtain ⟨rfl, rfl⟩ := Prod.mk.inj hstop
          obtain ⟨loads, hloads, hbranch, rfl, hstop, hrest⟩ := ih hparsed
          refine ⟨.load space destination payload :: loads,
            List.forall_mem_cons.mpr ⟨⟨hvalid, rfl⟩, hloads⟩, hbranch, rfl, ?_, ?_⟩
          · rw [List.cons_append, RecordFormat.encodeAll_cons, List.length_append, ← Nat.add_assoc]
            exact hstop
          · rw [List.cons_append, RecordFormat.encodeAll_cons, List.append_assoc, ← hrest]
            exact hfile

/-! ## The two readers -/

/-- The record the unit tests read is the one the tool keeps. -/
structure SameRecord (container : List UInt8) (e : ExtractedRecord) (c : DspContainerRecord) :
    Prop where
  command : c.command = e.type.code
  destination : c.destination = e.destination
  words : c.words = e.length
  payload : c.payload container = e.payload

theorem extractedAt_raw (index cursor : Nat) (records : List ContainerRecord) :
    (extractedAt index cursor records).flatMap ExtractedRecord.raw
      = containerFormat.encodeAll records := by
  induction records generalizing index cursor with
  | nil => rfl
  | cons r records ih =>
      rw [extractedAt, List.flatMap_cons, ih, RecordFormat.encodeAll_cons]
      rfl

theorem sameRecord_at {container rest : List UInt8} {r : ContainerRecord} {start : Nat}
    (hvalid : r.Valid) (hcontainer : container.drop start = r.encode ++ rest)
    (index cursor : Nat) : SameRecord container (r.extracted index cursor) (r.at start) where
  command := by
    cases r with
    | branch destination => rfl
    | load space destination payload => cases space <;> rfl
  destination := by cases r <;> rfl
  words := by
    cases r with
    | branch destination => exact (Nat.zero_div 2).symm
    | load space destination payload => rfl
  payload := ContainerRecord.payload_at hvalid hcontainer

theorem sameRecords_at {container rest : List UInt8} {records : List ContainerRecord}
    {start : Nat} (hvalid : ∀ r ∈ records, r.Valid)
    (hcontainer : container.drop start = containerFormat.encodeAll records ++ rest)
    (index cursor : Nat) :
    List.Forall₂ (SameRecord container) (extractedAt index cursor records)
      (recordsAt start records) := by
  induction records generalizing start index cursor with
  | nil => exact .nil
  | cons r records ih =>
      obtain ⟨hr, hrecords⟩ := List.forall_mem_cons.mp hvalid
      rw [RecordFormat.encodeAll_cons, List.append_assoc] at hcontainer
      change container.drop start = r.encode ++ _ at hcontainer
      have hnext : container.drop (start + r.encode.length)
          = containerFormat.encodeAll records ++ rest := by
        rw [← List.drop_drop, hcontainer, List.drop_left]
      exact .cons (sameRecord_at hr hcontainer index cursor) (ih hrecords hnext _ _)

/-- A successful run of the tool wrote the bytes of a container, its own records. -/
theorem extractContainer_ok {file : List UInt8} {base address : Nat} {out : Extracted}
    (h : extractContainer file base address = .ok out) :
    ∃ (offset : Nat) (loads : List ContainerRecord), (offset : Int) = address - base ∧
      (∀ r ∈ loads, r.Valid ∧ r.isBranch = false) ∧ out.branch < 2 ^ 16 ∧
      out.records = extractedAt 0 offset (loads ++ [.branch out.branch]) ∧
      out.container = containerFormat.encodeAll (loads ++ [.branch out.branch]) ∧
      out.containerSize = out.container.length ∧
      out.container = (file.drop offset).take out.containerSize := by
  obtain ⟨⟨records, size, branch⟩, hparsed, h⟩ := exists_of_bind_eq_ok h
  obtain rfl := Except.ok.inj h
  unfold parseContainer at hparsed
  split_ifs at hparsed with houtside
  obtain ⟨hnonneg, -⟩ := not_or.mp houtside
  obtain ⟨⟨records', stop, branch'⟩, hrecords, hparsed⟩ := exists_of_bind_eq_ok hparsed
  cases branch' with
  | none => cases hparsed
  | some branch' =>
      obtain ⟨rfl, hrest⟩ := Prod.mk.inj (Except.ok.inj hparsed)
      obtain ⟨rfl, rfl⟩ := Prod.mk.inj hrest
      obtain ⟨loads, hloads, hbranch, rfl, rfl, hfile⟩ := parseRecords_ok hrecords
      have hraw := extractedAt_raw 0 ((address : Int) - base).toNat (loads ++ [.branch branch'])
      refine ⟨((address : Int) - base).toNat, loads, Int.toNat_of_nonneg (Int.not_lt.mp hnonneg),
        hloads, hbranch, rfl, hraw, ?_, ?_⟩
      · show _ - _ = List.length (List.flatMap _ _)
        rw [hraw, Nat.add_sub_cancel_left]
      · show List.flatMap _ _ = List.take (_ - _) _
        rw [hraw, Nat.add_sub_cancel_left, hfile, List.take_left]

/-- **Agreement on containers.** The loop over any byte string ends, reads only inside of it and yields
records that tile a prefix; they end with a branch just when the string is a container, and then they are
all of it. What the extractor writes is a container: the bytes of the firmware at the address, in which
the unit tests find the extractor's records. -/
theorem container_readers_agree :
    (∀ bytes, ∃ records last, ReadsContainer bytes records last) ∧
    ∀ file base address out, extractContainer file base address = .ok out →
      ∃ (offset : Nat) (records : List DspContainerRecord) (last : DspContainerReader),
        (offset : Int) = address - base ∧
        out.container = (file.drop offset).take out.containerSize ∧
        out.container.length = out.containerSize ∧
        ReadsContainer out.container records last ∧
        last.complete = true ∧ last.offset = out.container.length ∧
        List.Forall₂ (SameRecord out.container) out.records records ∧
        records.getLast?.map DspContainerRecord.destination = some out.branch := by
  refine ⟨fun bytes => ⟨_, _, readsContainer_decodeAll bytes⟩, fun file base address out h => ?_⟩
  obtain ⟨offset, loads, hoffset, hloads, hbranch, hrecords, hcontainer, hsize, hbytes⟩ :=
    extractContainer_ok h
  have hdecoded : containerFormat.decodeAll out.container = (loads ++ [.branch out.branch], []) := by
    rw [hcontainer, RecordFormat.encodeAll_append, RecordFormat.encodeAll_cons,
      RecordFormat.encodeAll_nil, List.append_nil]
    exact containerFormat.decodeAll_stream hloads hbranch rfl
  have hread := readsContainer_decodeAll out.container
  have hlast := DspContainerReader.after_offset (dspContainerReaderInit out.container)
    (loads ++ [.branch out.branch])
  have hvalid : ∀ r ∈ loads ++ [.branch out.branch], r.Valid := by
    have hends : (ContainerRecord.branch out.branch).Valid := hbranch
    simpa [or_imp, forall_and, hends] using fun r hr => (hloads r hr).1
  rw [hdecoded] at hread
  refine ⟨offset, _, _, hoffset, hbytes, hsize.symm, hread, ?_, ?_, ?_, ?_⟩
  · rw [DspContainerReader.after_complete, List.getLast?_concat]
    rfl
  · rw [hlast, ← hcontainer]
    exact Nat.zero_add _
  · have hdrop : out.container.drop 0
        = containerFormat.encodeAll (loads ++ [.branch out.branch]) ++ [] := by
      rw [List.append_nil, ← hcontainer]
      rfl
    rw [hrecords]
    exact sameRecords_at hvalid hdrop 0 offset
  · rw [← List.getLast?_map, recordsAt_map ContainerRecord.destination_at, List.map_append]
    exact List.getLast?_concat

/-- A container behind one byte of the firmware. -/
theorem container_readers_agree_example :
    let file := [0xFF, 0, 0, 0x10, 0, 1, 0, 0xAA, 0xBB, 2, 0, 0x34, 0x12, 0xEE]
    ∃ out, extractContainer file 0xA0000000 0xA0000001 = .ok out ∧
      ∃ (offset : Nat) (records : List DspContainerRecord) (last : DspContainerReader),
        (offset : Int) = ((0xA0000001 : Nat) : Int) - (0xA0000000 : Nat) ∧
        out.container = (file.drop offset).take out.containerSize ∧
        out.container.length = out.containerSize ∧
        ReadsContainer out.container records last ∧
        last.complete = true ∧ last.offset = out.container.length ∧
        List.Forall₂ (SameRecord out.container) out.records records ∧
        records.getLast?.map DspContainerRecord.destination = some out.branch := by
  intro file
  have hrun : extractContainer file 0xA0000000 0xA0000001 = .ok
      { records :=
          [{ index := 0, type := .pload, offset := 1, destination := 0x10, length := 1,
             raw := [0, 0, 0x10, 0, 1, 0, 0xAA, 0xBB], payload := [0xAA, 0xBB] },
           { index := 1, type := .branch, offset := 9, destination := 0x1234, length := 0,
             raw := [2, 0, 0x34, 0x12], payload := [] }]
        containerSize := 12
        branch := 0x1234
        container := [0, 0, 0x10, 0, 1, 0, 0xAA, 0xBB, 2, 0, 0x34, 0x12]
        pram := List.replicate 32 0xFF ++ [0xAA, 0xBB]
        dram := [] } := by decide +kernel
  exact ⟨_, hrun, container_readers_agree.2 file _ _ _ hrun⟩

end Pmb887x.Dsp
