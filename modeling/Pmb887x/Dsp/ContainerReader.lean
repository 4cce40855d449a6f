import Pmb887x.Library.Checked
import Pmb887x.Dsp.Container

set_option autoImplicit false

/-! # The reader of DSP containers (`unit/dsp/dsp-container.h`)

`dspContainerNext` takes one record off a container; its accesses to the string are checked. The loop over
it yields the records that `containerFormat` decodes, and these tile a prefix of the string. -/

namespace Pmb887x.Dsp

open Library

/-! ## The reader -/

structure DspContainerReader where
  data : List UInt8
  size : Nat
  offset : Nat
  complete : Bool
  deriving DecidableEq

/-- `data` is the position of the payload in the string, `none` for a null pointer. -/
structure DspContainerRecord where
  command : Nat
  destination : Nat
  words : Nat
  data : Option Nat
  deriving DecidableEq

def readByte (data : List UInt8) (index : Nat) : Checked UInt8 :=
  match data[index]? with
  | some b => .ok b
  | none => .error (.read index)

def dspContainerReadU16 (data : List UInt8) (index : Nat) : Checked Nat := do
  let low ← readByte data index
  let high ← readByte data (index + 1)
  pure (low.toNat ||| high.toNat <<< 8)

def dspContainerReaderInit (data : List UInt8) : DspContainerReader where
  data := data
  size := data.length
  offset := 0
  complete := false

/-- The reader and the record, `none` for false. -/
def dspContainerNext (reader : DspContainerReader) :
    Checked (Option (DspContainerReader × DspContainerRecord)) :=
  if reader.complete ∨ reader.size < reader.offset ∨ reader.size - reader.offset < 4 then .ok none
  else do
    let command ← dspContainerReadU16 reader.data reader.offset
    let destination ← dspContainerReadU16 reader.data (reader.offset + 2)
    if command = containerBranch then
      if reader.offset + 4 ≠ reader.size then .ok none
      else
        .ok (some ({ reader with offset := reader.offset + 4, complete := true },
          { command := command, destination := destination, words := 0, data := none }))
    else if command ≠ containerPload ∧ command ≠ containerDload then .ok none
    else if reader.size - reader.offset < 6 then .ok none
    else do
      let words ← dspContainerReadU16 reader.data (reader.offset + 4)
      if destination + words > addressSpaceWords then .ok none
      else if 2 * words > reader.size - reader.offset - 6 then .ok none
      else
        .ok (some ({ reader with offset := reader.offset + (6 + 2 * words) },
          { command := command, destination := destination, words := words,
            data := some (reader.offset + 6) }))

/-- `while (dsp_container_next(&reader, &record))`: the records and the reader behind them, `none` when
`fuel` calls do not end the loop. -/
def dspContainerRecords : Nat → DspContainerReader →
    Checked (Option (List DspContainerRecord × DspContainerReader))
  | 0, _ => .ok none
  | fuel + 1, reader => do
      match ← dspContainerNext reader with
      | none => .ok (some ([], reader))
      | some (reader', record) =>
          match ← dspContainerRecords fuel reader' with
          | none => .ok none
          | some (records, last) => .ok (some (record :: records, last))

/-! ## The reader takes the records of the format -/

/-- The reader is inside the string, and done only at its end. -/
structure DspContainerReader.Sound (reader : DspContainerReader) : Prop where
  size_eq : reader.size = reader.data.length
  offset_le : reader.offset ≤ reader.size
  complete_end : reader.complete = true → reader.offset = reader.size

def DspContainerReader.rest (reader : DspContainerReader) : List UInt8 :=
  reader.data.drop reader.offset

def ContainerRecord.destination : ContainerRecord → Nat
  | .load _ destination _ => destination
  | .branch destination => destination

/-- The record the reader reports for one at `offset`. -/
def ContainerRecord.at (offset : Nat) : ContainerRecord → DspContainerRecord
  | .load space destination payload =>
      { command := space.command, destination := destination, words := payload.length / 2,
        data := some (offset + 6) }
  | .branch destination =>
      { command := containerBranch, destination := destination, words := 0, data := none }

/-- The reader behind a record. -/
def DspContainerReader.behind (reader : DspContainerReader) (r : ContainerRecord) :
    DspContainerReader :=
  { reader with offset := reader.offset + r.encode.length, complete := r.isBranch }

theorem readByte_of_drop {data rest : List UInt8} {offset : Nat} {b : UInt8}
    (h : data.drop offset = b :: rest) : readByte data offset = .ok b := by
  have hb : data[offset]? = some b := by
    rw [← List.head?_drop, h]
    rfl
  rw [readByte, hb]

theorem dspContainerReadU16_of_drop {data rest : List UInt8} {offset : Nat} {b₀ b₁ : UInt8}
    (h : data.drop offset = b₀ :: b₁ :: rest) :
    dspContainerReadU16 data offset = .ok (ofLeBytes [b₀, b₁]) := by
  have hnext : data.drop (offset + 1) = b₁ :: rest := by rw [← List.drop_drop, h]; rfl
  have hb₀ : b₀.toNat < 2 ^ 8 := b₀.toNat_lt
  rw [dspContainerReadU16, readByte_of_drop h, readByte_of_drop hnext]
  show Except.ok (b₀.toNat ||| b₁.toNat <<< 8) = _
  rw [Nat.or_comm, ← Nat.shiftLeft_add_eq_or_of_lt hb₀, Nat.shiftLeft_eq]
  simp [ofLeBytes, Nat.add_comm, Nat.mul_comm]

theorem ContainerRecord.decode_short {bytes : List UInt8} (h : bytes.length < 4) :
    decode bytes = none := by
  unfold decode
  split
  · simp at h
    omega
  · rfl

theorem exists_four_of_length {bytes : List UInt8} (h : 4 ≤ bytes.length) :
    ∃ c₀ c₁ d₀ d₁ rest, bytes = c₀ :: c₁ :: d₀ :: d₁ :: rest := by
  obtain _ | ⟨c₀, _ | ⟨c₁, _ | ⟨d₀, _ | ⟨d₁, rest⟩⟩⟩⟩ := bytes
  · simp at h
  · simp at h
  · simp at h
  · simp at h
  · exact ⟨c₀, c₁, d₀, d₁, rest, rfl⟩

theorem ContainerRecord.loadSpace?_eq_none {command : Nat} :
    loadSpace? command = none ↔ command ≠ containerPload ∧ command ≠ containerDload := by
  unfold loadSpace?
  split_ifs with hpload hdload
  · simp [hpload]
  · simp [hdload]
  · simp [hpload, hdload]

theorem DspContainerReader.Sound.length_rest {reader : DspContainerReader} (h : reader.Sound) :
    reader.rest.length = reader.size - reader.offset := by
  rw [rest, List.length_drop, h.size_eq]

section

variable {c₀ c₁ d₀ d₁ : UInt8} {tail : List UInt8}

theorem ContainerRecord.decode_branch (h : ofLeBytes [c₀, c₁] = containerBranch) :
    decode (c₀ :: c₁ :: d₀ :: d₁ :: tail)
      = if tail = [] then some (.branch (ofLeBytes [d₀, d₁]), []) else none := if_pos h

theorem ContainerRecord.decode_unknown (hbranch : ofLeBytes [c₀, c₁] ≠ containerBranch)
    (h : loadSpace? (ofLeBytes [c₀, c₁]) = none) :
    decode (c₀ :: c₁ :: d₀ :: d₁ :: tail) = none := by
  simp only [decode, if_neg hbranch, h]

theorem ContainerRecord.decode_load_short (hbranch : ofLeBytes [c₀, c₁] ≠ containerBranch)
    (h : tail.length < 2) : decode (c₀ :: c₁ :: d₀ :: d₁ :: tail) = none := by
  obtain _ | ⟨w₀, _ | ⟨w₁, payload⟩⟩ := tail
  · simp only [decode, if_neg hbranch]
    cases loadSpace? (ofLeBytes [c₀, c₁]) <;> rfl
  · simp only [decode, if_neg hbranch]
    cases loadSpace? (ofLeBytes [c₀, c₁]) <;> rfl
  · simp only [List.length_cons] at h
    omega

theorem ContainerRecord.decode_load {w₀ w₁ : UInt8} {space : LoadSpace}
    (h : loadSpace? (ofLeBytes [c₀, c₁]) = some space) :
    decode (c₀ :: c₁ :: d₀ :: d₁ :: w₀ :: w₁ :: tail)
      = if ofLeBytes [d₀, d₁] + ofLeBytes [w₀, w₁] ≤ addressSpaceWords ∧
            2 * ofLeBytes [w₀, w₁] ≤ tail.length then
          some (.load space (ofLeBytes [d₀, d₁]) (tail.take (2 * ofLeBytes [w₀, w₁])),
            tail.drop (2 * ofLeBytes [w₀, w₁]))
        else none := by
  have hbranch : ofLeBytes [c₀, c₁] ≠ containerBranch := by
    rw [← command_of_loadSpace? h]
    cases space <;> decide
  simp only [decode, if_neg hbranch, h]

end

/-- One call of the reader: the record in front of the rest of the string, and no access outside. -/
theorem dspContainerNext_eq {reader : DspContainerReader} (h : reader.Sound) :
    dspContainerNext reader
      = .ok ((ContainerRecord.decode reader.rest).map
          fun x => (reader.behind x.1, x.1.at reader.offset)) := by
  have hlength := h.length_rest
  have hle := h.offset_le
  by_cases hshort : reader.rest.length < 4
  · rw [ContainerRecord.decode_short hshort, dspContainerNext,
      if_pos (.inr (.inr (hlength ▸ hshort)))]
    rfl
  obtain ⟨c₀, c₁, d₀, d₁, tail, hrest⟩ := exists_four_of_length (Nat.le_of_not_lt hshort)
  have htail : reader.size - reader.offset = tail.length + 4 := by
    rw [← hlength, hrest]
    rfl
  have hgo : ¬ (reader.complete = true ∨ reader.size < reader.offset ∨
      reader.size - reader.offset < 4) := by
    rintro (hcomplete | hbeyond | hfew)
    · have hend := h.complete_end hcomplete
      omega
    · omega
    · omega
  have hbehind : reader.data.drop (reader.offset + 2) = d₀ :: d₁ :: tail := by
    rw [← List.drop_drop, show reader.data.drop reader.offset = _ from hrest]
    rfl
  have hpayload : reader.data.drop (reader.offset + 4) = tail := by
    rw [← List.drop_drop, show reader.data.drop reader.offset = _ from hrest]
    rfl
  rw [dspContainerNext, if_neg hgo, dspContainerReadU16_of_drop hrest,
    dspContainerReadU16_of_drop hbehind, Checked.ok_bind, Checked.ok_bind, hrest, htail]
  by_cases hbranch : ofLeBytes [c₀, c₁] = containerBranch
  · rw [if_pos hbranch, ContainerRecord.decode_branch hbranch, hbranch]
    by_cases hend : tail = []
    · subst hend
      rw [if_neg (by simp at htail; omega), if_pos rfl]
      rfl
    · have hpos := List.length_pos_iff.mpr hend
      rw [if_pos (by omega), if_neg hend]
      rfl
  rw [if_neg hbranch]
  cases hspace : ContainerRecord.loadSpace? (ofLeBytes [c₀, c₁]) with
  | none =>
      rw [if_pos (ContainerRecord.loadSpace?_eq_none.mp hspace),
        ContainerRecord.decode_unknown hbranch hspace]
      rfl
  | some space =>
      have hload : ¬ (ofLeBytes [c₀, c₁] ≠ containerPload ∧
          ofLeBytes [c₀, c₁] ≠ containerDload) := fun hnone => by
        cases hspace.symm.trans (ContainerRecord.loadSpace?_eq_none.mpr hnone)
      rw [if_neg hload]
      by_cases hfew : tail.length < 2
      · rw [if_pos (by omega), ContainerRecord.decode_load_short hbranch hfew]
        rfl
      obtain _ | ⟨w₀, _ | ⟨w₁, payload⟩⟩ := tail
      · simp at hfew
      · simp at hfew
      rw [if_neg (by omega), dspContainerReadU16_of_drop hpayload, Checked.ok_bind,
        ContainerRecord.decode_load hspace]
      have hleft : (w₀ :: w₁ :: payload).length + 4 - 6 = payload.length := by simp
      rw [hleft]
      by_cases hfits : ofLeBytes [d₀, d₁] + ofLeBytes [w₀, w₁] ≤ addressSpaceWords
      · rw [if_neg (Nat.not_lt.mpr hfits)]
        by_cases hwords : 2 * ofLeBytes [w₀, w₁] ≤ payload.length
        · rw [if_neg (Nat.not_lt.mpr hwords), if_pos ⟨hfits, hwords⟩]
          have htake : (payload.take (2 * ofLeBytes [w₀, w₁])).length
              = 2 * ofLeBytes [w₀, w₁] := List.length_take_of_le hwords
          have hmore : reader.complete = false := Bool.eq_false_iff.mpr fun h => hgo (.inl h)
          have hencode : (ContainerRecord.load space (ofLeBytes [d₀, d₁])
              (payload.take (2 * ofLeBytes [w₀, w₁]))).encode.length
                = 6 + 2 * ofLeBytes [w₀, w₁] := by
            simp only [ContainerRecord.encode, List.length_append, leBytes_length, htake]
          simp only [Option.map_some, DspContainerReader.behind, hencode, ContainerRecord.at,
            ContainerRecord.isBranch, ContainerRecord.command_of_loadSpace? hspace, htake, hmore,
            Nat.mul_div_cancel_left _ (Nat.succ_pos 1)]
        · rw [if_pos (Nat.lt_of_not_le hwords), if_neg fun hboth => hwords hboth.2]
          rfl
      · rw [if_pos (Nat.lt_of_not_le hfits), if_neg fun hboth => hfits hboth.1]
        rfl

theorem ContainerRecord.isBranch_length {r : ContainerRecord} (h : r.isBranch = true) :
    r.encode.length = 4 := by
  cases r with
  | load space destination payload => cases h
  | branch destination => simp [encode]

/-- Behind a record the reader is at the bytes behind it. -/
theorem DspContainerReader.Sound.behind {reader : DspContainerReader} (h : reader.Sound)
    {r : ContainerRecord} {rest : List UInt8}
    (hdecode : ContainerRecord.decode reader.rest = some (r, rest)) :
    (reader.behind r).Sound ∧ (reader.behind r).rest = rest := by
  obtain ⟨hbytes, -, hend⟩ := ContainerRecord.decode_sound hdecode
  have hlength := h.length_rest
  have hle := h.offset_le
  rw [hbytes, List.length_append] at hlength
  refine ⟨⟨h.size_eq, ?_, fun hcomplete => ?_⟩, ?_⟩
  · show reader.offset + r.encode.length ≤ reader.size
    omega
  · rw [hend hcomplete, List.length_nil] at hlength
    show reader.offset + r.encode.length = reader.size
    omega
  · show reader.data.drop (reader.offset + r.encode.length) = rest
    rw [← List.drop_drop, show reader.data.drop reader.offset = _ from hbytes, List.drop_left]

theorem dspContainerRecords_none {reader : DspContainerReader} (h : reader.Sound)
    (hdecode : ContainerRecord.decode reader.rest = none) (fuel : Nat) :
    dspContainerRecords (fuel + 1) reader = .ok (some ([], reader)) := by
  rw [dspContainerRecords, dspContainerNext_eq h, hdecode]
  rfl

theorem dspContainerRecords_cons {reader last : DspContainerReader} (h : reader.Sound)
    {r : ContainerRecord} {rest : List UInt8} {records : List DspContainerRecord} {fuel : Nat}
    (hdecode : ContainerRecord.decode reader.rest = some (r, rest))
    (hrun : dspContainerRecords fuel (reader.behind r) = .ok (some (records, last))) :
    dspContainerRecords (fuel + 1) reader = .ok (some (r.at reader.offset :: records, last)) := by
  rw [dspContainerRecords, dspContainerNext_eq h, hdecode]
  simp only [Option.map_some, Checked.ok_bind, hrun]

/-- The reader behind some records. -/
def DspContainerReader.after (reader : DspContainerReader) (records : List ContainerRecord) :
    DspContainerReader :=
  records.foldl DspContainerReader.behind reader

def recordsAt : Nat → List ContainerRecord → List DspContainerRecord
  | _, [] => []
  | offset, r :: records => r.at offset :: recordsAt (offset + r.encode.length) records

/-- **The loop over a container ends and yields the records of the format.** -/
theorem dspContainerRecords_eq {reader : DspContainerReader} (h : reader.Sound) {fuel : Nat}
    (hfuel : reader.rest.length < fuel) :
    dspContainerRecords fuel reader
      = .ok (some (recordsAt reader.offset (containerFormat.decodeAll reader.rest).1,
          reader.after (containerFormat.decodeAll reader.rest).1)) := by
  obtain ⟨fuel, rfl⟩ := Nat.exists_eq_succ_of_ne_zero (Nat.ne_of_gt (Nat.zero_lt_of_lt hfuel))
  induction hbytes : reader.rest using containerFormat.decodeAll_induct
    generalizing reader fuel with
  | hnone bytes hdecode =>
      subst hbytes
      rw [containerFormat.decodeAll_none hdecode, dspContainerRecords_none h hdecode]
      rfl
  | hfinal bytes r rest hdecode hr =>
      subst hbytes
      obtain ⟨hsound, hrest⟩ := h.behind hdecode
      obtain ⟨hsplit, -, hend⟩ := ContainerRecord.decode_sound hdecode
      have hmore : 4 ≤ reader.rest.length := by
        rw [hsplit, List.length_append, ContainerRecord.isBranch_length hr]
        exact Nat.le_add_right _ _
      obtain ⟨fuel, rfl⟩ : ∃ n, fuel = n + 1 := ⟨fuel - 1, by omega⟩
      have hstop : ContainerRecord.decode (reader.behind r).rest = none := by
        rw [hrest, hend hr]
        rfl
      rw [containerFormat.decodeAll_final hdecode hr,
        dspContainerRecords_cons h hdecode (dspContainerRecords_none hsound hstop fuel)]
      rfl
  | hcons bytes r rest hdecode hr ih =>
      subst hbytes
      obtain ⟨hsound, hrest⟩ := h.behind hdecode
      have hless : rest.length < reader.rest.length := containerFormat.length_rest_lt hdecode
      obtain ⟨fuel, rfl⟩ : ∃ n, fuel = n + 1 := ⟨fuel - 1, by omega⟩
      rw [containerFormat.decodeAll_cons hdecode hr]
      refine dspContainerRecords_cons h hdecode ?_
      rw [ih hsound fuel (by rw [hrest]; omega) hrest]
      rfl

/-! ## The records tile a prefix of the string -/

/-- The bytes a record occupies. -/
def DspContainerRecord.size (record : DspContainerRecord) : Nat :=
  if record.command = containerBranch then 4 else 6 + 2 * record.words

/-- The payload `record.data` points at. -/
def DspContainerRecord.payload (data : List UInt8) (record : DspContainerRecord) : List UInt8 :=
  match record.data with
  | none => []
  | some position => (data.drop position).take (2 * record.words)

def DspContainerRecord.encode (data : List UInt8) (record : DspContainerRecord) : List UInt8 :=
  leBytes 2 record.command ++ leBytes 2 record.destination ++
    (match record.data with
    | none => []
    | some _ => leBytes 2 record.words ++ record.payload data)

/-- The records lie one behind the other from `start` to `stop`, inside the string; each occupies the
bytes of its encoding, and a payload is where the record says. -/
def Tiles (data : List UInt8) : Nat → List DspContainerRecord → Nat → Prop
  | start, [], stop => start = stop
  | start, record :: records, stop =>
      start + record.size ≤ data.length ∧
        (data.drop start).take record.size = record.encode data ∧
        (∀ position, record.data = some position → position = start + 6) ∧
        Tiles data (start + record.size) records stop

theorem ContainerRecord.size_at {r : ContainerRecord} (hvalid : r.Valid) (start : Nat) :
    (r.at start).size = r.encode.length := by
  cases r with
  | branch destination => simp [ContainerRecord.at, DspContainerRecord.size, encode]
  | load space destination payload =>
      obtain ⟨-, words, -, hlength, -⟩ := hvalid
      have hload : space.command ≠ containerBranch := by cases space <;> decide
      rw [ContainerRecord.at, DspContainerRecord.size, if_neg hload]
      simp only [encode, List.length_append, leBytes_length, hlength,
        Nat.mul_div_cancel_left _ (Nat.succ_pos 1)]

/-- The payload of a load, `[]` for a branch. -/
def ContainerRecord.payload : ContainerRecord → List UInt8
  | .load _ _ payload => payload
  | .branch _ => []

theorem ContainerRecord.payload_at {data rest : List UInt8} {r : ContainerRecord} {start : Nat}
    (hvalid : r.Valid) (hdata : data.drop start = r.encode ++ rest) :
    (r.at start).payload data = r.payload := by
  cases r with
  | branch destination => rfl
  | load space destination payload =>
      obtain ⟨-, words, -, hlength, -⟩ := hvalid
      have hposition : data.drop (start + 6) = payload ++ rest := by
        rw [← List.drop_drop, hdata, encode, leBytes_two, leBytes_two, leBytes_two]
        rfl
      show (data.drop (start + 6)).take (2 * (payload.length / 2)) = payload
      rw [hposition, hlength, Nat.mul_div_cancel_left _ (Nat.succ_pos 1), ← hlength, List.take_left]

theorem ContainerRecord.encode_at {data rest : List UInt8} {r : ContainerRecord} {start : Nat}
    (hvalid : r.Valid) (hdata : data.drop start = r.encode ++ rest) :
    (r.at start).encode data = r.encode := by
  have hpayload := payload_at hvalid hdata
  cases r with
  | branch destination => simp [DspContainerRecord.encode, ContainerRecord.at, encode]
  | load space destination payload =>
      show _ ++ (leBytes 2 (payload.length / 2) ++ _) = _
      rw [hpayload]
      simp only [encode, ContainerRecord.at, ContainerRecord.payload, List.append_assoc]

/-- Valid records tile the bytes of their encoding. -/
theorem tiles_recordsAt {data rest : List UInt8} {records : List ContainerRecord} {start : Nat}
    (hvalid : ∀ r ∈ records, r.Valid)
    (hdata : data.drop start = containerFormat.encodeAll records ++ rest)
    (hstart : start ≤ data.length) :
    Tiles data start (recordsAt start records)
        (start + (containerFormat.encodeAll records).length) ∧
      (recordsAt start records).flatMap (DspContainerRecord.encode data)
        = containerFormat.encodeAll records := by
  induction records generalizing start with
  | nil => exact ⟨rfl, rfl⟩
  | cons r records ih =>
      obtain ⟨hr, hrecords⟩ := List.forall_mem_cons.mp hvalid
      rw [RecordFormat.encodeAll_cons, List.append_assoc] at hdata
      change data.drop start = r.encode ++ _ at hdata
      have hlength := congrArg List.length hdata
      rw [List.length_drop, List.length_append] at hlength
      have hnext : data.drop (start + r.encode.length)
          = containerFormat.encodeAll records ++ rest := by
        rw [← List.drop_drop, hdata, List.drop_left]
      have hinside : start + r.encode.length ≤ data.length := by omega
      obtain ⟨htiles, hencode⟩ := ih hrecords hnext hinside
      have hsize := ContainerRecord.size_at hr start
      have hbytes := ContainerRecord.encode_at hr hdata
      refine ⟨⟨hsize ▸ hinside, ?_, fun position hposition => ?_, ?_⟩, ?_⟩
      · rw [hsize, hdata, List.take_left, hbytes]
      · cases r with
        | branch destination => cases hposition
        | load space destination payload => exact (Option.some.inj hposition).symm
      · rw [hsize, RecordFormat.encodeAll_cons, List.length_append, ← Nat.add_assoc]
        exact htiles
      · rw [recordsAt, List.flatMap_cons, hencode, hbytes]
        rfl

/-! ## The end of the run -/

theorem DspContainerReader.after_offset (reader : DspContainerReader)
    (records : List ContainerRecord) :
    (reader.after records).offset
      = reader.offset + (containerFormat.encodeAll records).length := by
  induction records generalizing reader with
  | nil => rfl
  | cons r records ih =>
      have hrest := ih (reader.behind r)
      rw [after] at hrest
      rw [after, List.foldl_cons, hrest, RecordFormat.encodeAll_cons, List.length_append,
        ← Nat.add_assoc]
      rfl

theorem DspContainerReader.after_complete (reader : DspContainerReader)
    (records : List ContainerRecord) :
    (reader.after records).complete
      = (records.getLast?.map ContainerRecord.isBranch).getD reader.complete := by
  induction records using List.reverseRecOn with
  | nil => rfl
  | append_singleton records r ih =>
      rw [after, List.foldl_append, List.getLast?_concat]
      rfl

def ContainerRecord.command : ContainerRecord → Nat
  | .load space _ _ => space.command
  | .branch _ => containerBranch

theorem ContainerRecord.command_eq_branch {r : ContainerRecord} :
    r.command = containerBranch ↔ r.isBranch = true := by
  cases r with
  | branch destination => exact ⟨fun _ => rfl, fun _ => rfl⟩
  | load space destination payload =>
      cases space <;>
        simp [command, LoadSpace.command, isBranch, containerPload, containerDload, containerBranch]

/-- A field that does not depend on the place of the record. -/
theorem recordsAt_map {β : Type} {f : DspContainerRecord → β} {g : ContainerRecord → β}
    (h : ∀ start r, f (r.at start) = g r) (start : Nat) (records : List ContainerRecord) :
    (recordsAt start records).map f = records.map g := by
  induction records generalizing start with
  | nil => rfl
  | cons r records ih => rw [recordsAt, List.map_cons, List.map_cons, ih, h]

theorem ContainerRecord.command_at (start : Nat) (r : ContainerRecord) :
    (r.at start).command = r.command := by
  cases r <;> rfl

theorem ContainerRecord.destination_at (start : Nat) (r : ContainerRecord) :
    (r.at start).destination = r.destination := by
  cases r <;> rfl

/-- The last record is a branch just when the string is a container. -/
theorem lastCommand_iff (bytes : List UInt8) (start : Nat) :
    (recordsAt start (containerFormat.decodeAll bytes).1).getLast?.map DspContainerRecord.command
        = some containerBranch ↔ containerFormat.IsStream bytes := by
  rw [← List.getLast?_map, recordsAt_map ContainerRecord.command_at, List.getLast?_map,
    Option.map_eq_some_iff, ← containerFormat.decodeAll_final_iff]
  simp only [ContainerRecord.command_eq_branch]
  rfl

/-- What the loop over a byte string reads: `records`, and the reader behind them. -/
structure ReadsContainer (bytes : List UInt8) (records : List DspContainerRecord)
    (last : DspContainerReader) : Prop where
  /-- Enough calls end the loop, and none of them faults. -/
  run : ∀ fuel > bytes.length,
    dspContainerRecords fuel (dspContainerReaderInit bytes) = .ok (some (records, last))
  tiles : Tiles bytes 0 records last.offset
  inside : last.offset ≤ bytes.length
  branch_iff : records.getLast?.map DspContainerRecord.command = some containerBranch
    ↔ containerFormat.IsStream bytes
  complete_iff : last.complete = true ↔ containerFormat.IsStream bytes
  encode : containerFormat.IsStream bytes →
    records.flatMap (DspContainerRecord.encode bytes) = bytes

theorem sound_init (bytes : List UInt8) : (dspContainerReaderInit bytes).Sound :=
  ⟨rfl, Nat.zero_le _, fun h => by cases h⟩

/-- The bytes of a container end with its last record. -/
theorem decodeAll_rest_of_isStream {bytes : List UInt8} (h : containerFormat.IsStream bytes) :
    (containerFormat.decodeAll bytes).2 = [] := by
  obtain ⟨records, r, hrecords, hvalid, hfinal, rfl⟩ := h
  rw [containerFormat.decodeAll_stream hrecords hvalid hfinal]

theorem readsContainer_decodeAll (bytes : List UInt8) :
    ReadsContainer bytes (recordsAt 0 (containerFormat.decodeAll bytes).1)
      ((dspContainerReaderInit bytes).after (containerFormat.decodeAll bytes).1) := by
  obtain ⟨hbytes, hvalid⟩ := containerFormat.decodeAll_sound bytes
  have hoffset := (dspContainerReaderInit bytes).after_offset (containerFormat.decodeAll bytes).1
  have hcomplete :=
    (dspContainerReaderInit bytes).after_complete (containerFormat.decodeAll bytes).1
  have hdrop : bytes.drop 0 = containerFormat.encodeAll (containerFormat.decodeAll bytes).1
      ++ (containerFormat.decodeAll bytes).2 := hbytes
  obtain ⟨htiles, hencode⟩ := tiles_recordsAt hvalid hdrop (Nat.zero_le _)
  refine ⟨fun fuel hfuel => ?_, hoffset ▸ htiles, ?_, lastCommand_iff bytes 0, ?_, fun hstream => ?_⟩
  · exact dspContainerRecords_eq (sound_init bytes) hfuel
  · have hlength := congrArg List.length hbytes
    rw [List.length_append] at hlength
    rw [hoffset]
    show 0 + _ ≤ _
    omega
  · rw [hcomplete, ← containerFormat.decodeAll_final_iff]
    cases hlast : (containerFormat.decodeAll bytes).1.getLast? with
    | none => simp [dspContainerReaderInit]
    | some r => simp [containerFormat]
  · rw [decodeAll_rest_of_isStream hstream, List.append_nil] at hbytes
    rw [hencode]
    exact hbytes.symm

end Pmb887x.Dsp
