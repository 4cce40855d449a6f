import Pmb887x.Dsp.Lzss

set_option autoImplicit false

/-! # The unpackers of the instruction test

`unpackLzssBlock` is the unpacker of the device (`instructions.c`): its history is an array of 64 KiB
whose index wraps as a `uint16_t`. `decompressBlocks` is the one the packer checks its work with
(`DspLzss.pm`). Both keep a window of the text unpacked so far and take one token in each pass of
their loop, so both give the blocks back that were packed. -/

namespace Pmb887x.Dsp

open Library Lzss

/-! ## On the device -/

/-- `lzss_decoder_t` -/
structure LzssDecoder where
  history : UInt16 → UInt8
  position : UInt16

/-- The variables of `unpack_lzss_block`; `input` is an index into the packed data. -/
structure Unpacking where
  decoder : LzssDecoder
  input : Nat
  output : Nat → UInt8
  outputPosition : Nat

def LzssDecoder.putByte (d : LzssDecoder) (value : UInt8) : LzssDecoder where
  history := Function.update d.history d.position value
  position := d.position + 1

/-- `output[output_position++] = value; decoder->history[decoder->position++] = value;` -/
def Unpacking.putByte (s : Unpacking) (value : UInt8) : Unpacking where
  decoder := s.decoder.putByte value
  input := s.input
  output := Function.update s.output s.outputPosition value
  outputPosition := s.outputPosition + 1

def unpackLiterals (packed : List UInt8) : Nat → Unpacking → Unpacking
  | 0, s => s
  | n + 1, s =>
      unpackLiterals packed n (({ s with input := s.input + 1 } : Unpacking).putByte
        (packed.getD s.input 0))

def unpackCopy : Nat → UInt16 → Unpacking → Unpacking
  | 0, _, s => s
  | n + 1, source, s => unpackCopy n (source + 1) (s.putByte (s.decoder.history source))

/-- One pass of the loop. -/
def unpackToken (packed : List UInt8) (s : Unpacking) : Unpacking :=
  let control := packed.getD s.input 0
  let input := s.input + 1
  if control &&& 0x80 = 0 then unpackLiterals packed (control.toNat + 1) { s with input := input }
  else
    let length := (control &&& 0x7F).toNat + 3
    let distance : UInt16 :=
      (packed.getD input 0).toUInt16 ||| ((packed.getD (input + 1) 0).toUInt16 <<< 8)
    let source := s.decoder.position - distance
    unpackCopy length source { s with input := input + 2 }

theorem unpackLiterals_outputPosition (packed : List UInt8) (n : Nat) (s : Unpacking) :
    (unpackLiterals packed n s).outputPosition = s.outputPosition + n := by
  induction n generalizing s with
  | zero => rfl
  | succ n ih =>
      rw [unpackLiterals, ih]
      show s.outputPosition + 1 + n = s.outputPosition + (n + 1)
      omega

theorem unpackCopy_outputPosition (n : Nat) (source : UInt16) (s : Unpacking) :
    (unpackCopy n source s).outputPosition = s.outputPosition + n := by
  induction n generalizing source s with
  | zero => rfl
  | succ n ih =>
      rw [unpackCopy, ih]
      show s.outputPosition + 1 + n = s.outputPosition + (n + 1)
      omega

theorem outputPosition_lt_unpackToken (packed : List UInt8) (s : Unpacking) :
    s.outputPosition < (unpackToken packed s).outputPosition := by
  unfold unpackToken
  dsimp only
  split_ifs
  · rw [unpackLiterals_outputPosition]
    exact Nat.lt_add_of_pos_right (Nat.succ_pos _)
  · rw [unpackCopy_outputPosition]
    exact Nat.lt_add_of_pos_right (Nat.succ_pos _)

/-- `while (output_position < output_size)` -/
def unpackLoop (packed : List UInt8) (outputSize : Nat) (s : Unpacking) : Unpacking :=
  if s.outputPosition < outputSize then unpackLoop packed outputSize (unpackToken packed s) else s
termination_by outputSize - s.outputPosition
decreasing_by
  have := outputPosition_lt_unpackToken packed s
  omega

def unpackLzssBlock (decoder : LzssDecoder) (packed : List UInt8) (input : Nat)
    (output : Nat → UInt8) (outputSize : Nat) : Unpacking :=
  unpackLoop packed outputSize { decoder, input, output, outputPosition := 0 }

/-- The tables that `write_packed_file` emits. -/
structure PackedFile where
  data : List UInt8
  offsets : List Nat
  sizes : List UInt16

/-- The static variables of an unpacker: its decoder and the buffer it writes to. -/
structure Unpacker where
  decoder : LzssDecoder
  output : Nat → UInt8

/-- `unpack_instruction_image` and `unpack_instruction_golden`, which differ in their tables. -/
def unpackShard (file : PackedFile) (u : Unpacker) (shard : Nat) : Unpacking :=
  unpackLzssBlock u.decoder file.data (file.offsets.getD shard 0) u.output
    (file.sizes.getD shard 0).toNat

/-- The shards below `n`, in order. -/
def unpackShards (file : PackedFile) (u : Unpacker) : Nat → Unpacker
  | 0 => u
  | n + 1 =>
      let s := unpackShard file (unpackShards file u n) n
      { decoder := s.decoder, output := s.output }

/-! ## In the packer -/

/-- The variables of `decompress_blocks`. -/
structure Decompressing where
  history : Nat → UInt8
  historyPosition : Nat
  inputPosition : Nat
  output : List UInt8

def Decompressing.putByte (s : Decompressing) (value : UInt8) : Decompressing where
  history := Function.update s.history (s.historyPosition % 0x10000) value
  historyPosition := s.historyPosition + 1
  inputPosition := s.inputPosition
  output := s.output ++ [value]

def decompressLiterals (packed : List UInt8) : Nat → Decompressing → Decompressing
  | 0, s => s
  | n + 1, s =>
      decompressLiterals packed n
        (({ s with inputPosition := s.inputPosition + 1 } : Decompressing).putByte
          (vec packed s.inputPosition))

/-- `$source` may be negative; `& 0xFFFF` takes its low bits. -/
def decompressCopy : Nat → Int → Decompressing → Decompressing
  | 0, _, s => s
  | n + 1, source, s =>
      decompressCopy n (source + 1) (s.putByte (s.history (source % 0x10000).toNat))

def decompressToken (packed : List UInt8) (s : Decompressing) : Decompressing :=
  let control := vec packed s.inputPosition
  let inputPosition := s.inputPosition + 1
  if control &&& 0x80 = 0 then
    decompressLiterals packed (control.toNat + 1) { s with inputPosition := inputPosition }
  else
    let length := (control &&& 0x7F).toNat + 3
    let distance := ofLeBytes ((packed.drop inputPosition).take 2)
    decompressCopy length (s.historyPosition - distance)
      { s with inputPosition := inputPosition + 2 }

theorem decompressLiterals_output_length (packed : List UInt8) (n : Nat) (s : Decompressing) :
    (decompressLiterals packed n s).output.length = s.output.length + n := by
  induction n generalizing s with
  | zero => rfl
  | succ n ih =>
      rw [decompressLiterals, ih]
      simp only [Decompressing.putByte, List.length_append, List.length_singleton]
      omega

theorem decompressCopy_output_length (n : Nat) (source : Int) (s : Decompressing) :
    (decompressCopy n source s).output.length = s.output.length + n := by
  induction n generalizing source s with
  | zero => rfl
  | succ n ih =>
      rw [decompressCopy, ih]
      simp only [Decompressing.putByte, List.length_append, List.length_singleton]
      omega

theorem output_length_lt_decompressToken (packed : List UInt8) (s : Decompressing) :
    s.output.length < (decompressToken packed s).output.length := by
  unfold decompressToken
  dsimp only
  split_ifs
  · rw [decompressLiterals_output_length]
    exact Nat.lt_add_of_pos_right (Nat.succ_pos _)
  · rw [decompressCopy_output_length]
    exact Nat.lt_add_of_pos_right (Nat.succ_pos _)

/-- `while (length($output) < $sizes->[$block])` -/
def decompressLoop (packed : List UInt8) (size : Nat) (s : Decompressing) : Decompressing :=
  if s.output.length < size then decompressLoop packed size (decompressToken packed s) else s
termination_by size - s.output.length
decreasing_by
  have := output_length_lt_decompressToken packed s
  omega

/-- The body of the loop over the blocks. -/
def decompressBlock (packed : List UInt8) (offsets sizes : List Nat)
    (p : Decompressing × List (List UInt8)) (block : Nat) : Decompressing × List (List UInt8) :=
  let s := decompressLoop packed (sizes.getD block 0)
    { p.1 with inputPosition := offsets.getD block 0, output := [] }
  (s, p.2 ++ [s.output])

def decompressBlocks (packed : List UInt8) (offsets sizes : List Nat) : List (List UInt8) :=
  ((List.range offsets.length).foldl (decompressBlock packed offsets sizes)
    ({ history := fun _ => 0, historyPosition := 0, inputPosition := 0, output := [] }, [])).2

/-- `write_packed_file`, up to the writing; `none` stands for its `die`. -/
def writePackedFile (blocks : List (List UInt8)) : Option PackedFile :=
  let p := compressBlocks blocks
  let packed := p.compressor.packed
  let unpacked := decompressBlocks packed p.offsets p.sizes
  if ∀ i < blocks.length, unpacked.getD i [] = blocks.getD i [] then
    some { data := packed, offsets := p.offsets, sizes := p.sizes.map UInt16.ofNat }
  else none

/-! ## Tokens, as the unpackers see them -/

theorem literals_control : ∀ n < 128, UInt8.ofNat n &&& 0x80 = 0 ∧ (UInt8.ofNat n).toNat = n := by
  decide +kernel

theorem copy_control : ∀ n < 128,
    UInt8.ofNat (0x80 + n) &&& 0x80 ≠ 0 ∧ (UInt8.ofNat (0x80 + n) &&& 0x7F).toNat = n := by
  decide +kernel

/-- The two bytes of a distance, as the device puts them together. -/
theorem distance_bytes {distance : Nat} (h : distance < 0x10000) :
    (UInt8.ofNat distance).toUInt16 ||| ((UInt8.ofNat (distance / 256)).toUInt16 <<< 8)
      = UInt16.ofNat distance := by
  apply UInt16.toNat_inj.mp
  have hlow : (UInt8.ofNat distance).toNat = distance % 256 := UInt8.toNat_ofNat'
  have hhigh : (UInt8.ofNat (distance / 256)).toNat = distance / 256 % 256 := UInt8.toNat_ofNat'
  have hall : (UInt16.ofNat distance).toNat = distance % 0x10000 := UInt16.toNat_ofNat'
  rw [UInt16.toNat_or, UInt16.toNat_shiftLeft, UInt8.toNat_toUInt16, UInt8.toNat_toUInt16, hlow,
    hhigh, hall, Nat.or_comm]
  have hshift : (distance / 256 % 256) <<< ((8 : UInt16).toNat % 16) % 2 ^ 16
      = (distance / 256) <<< 8 := by
    show (distance / 256 % 256) <<< 8 % 0x10000 = (distance / 256) <<< 8
    simp only [Nat.shiftLeft_eq]
    omega
  rw [hshift, ← Nat.shiftLeft_add_eq_or_of_lt (by omega), Nat.shiftLeft_eq]
  omega

/-! ## The device follows the text -/

/-- The decoder has unpacked `text`. -/
def LzssDecoder.Follows (d : LzssDecoder) (text : List UInt8) : Prop :=
  d.position = UInt16.ofNat text.length ∧
    Window 0x10000 (fun k => d.history (UInt16.ofNat k)) text

theorem ofNat_mod (n : Nat) : UInt16.ofNat (n % 0x10000) = UInt16.ofNat n := by
  apply UInt16.toNat_inj.mp
  rw [UInt16.toNat_ofNat', UInt16.toNat_ofNat']
  omega

theorem LzssDecoder.Follows.putByte {d : LzssDecoder} {text : List UInt8} (h : d.Follows text)
    (value : UInt8) : (d.putByte value).Follows (text ++ [value]) := by
  obtain ⟨hposition, hwindow⟩ := h
  refine ⟨?_, hwindow.push ?_ (fun k hk hne => ?_)⟩
  · rw [List.length_append, List.length_singleton, UInt16.ofNat_add, ← hposition]
    rfl
  · simp only [LzssDecoder.putByte, ofNat_mod, hposition, Function.update_self]
  · have hcell : UInt16.ofNat k ≠ d.position := by
      rw [hposition]
      intro heq
      have hnat := congrArg UInt16.toNat heq
      rw [UInt16.toNat_ofNat', UInt16.toNat_ofNat'] at hnat
      omega
    simp only [LzssDecoder.putByte, Function.update_of_ne hcell]

/-- `text` is unpacked, from `start` on into the output, and `rest` is left to read. -/
structure Unpacked (packed : List UInt8) (start : Nat) (output₀ : Nat → UInt8)
    (text rest : List UInt8) (s : Unpacking) : Prop where
  rest : RestAt packed s.input rest
  decoder : s.decoder.Follows text
  outputPosition : start + s.outputPosition = text.length
  output : ∀ j, s.output j = if j < s.outputPosition then text.getD (start + j) 0 else output₀ j

theorem Unpacked.putByte {packed : List UInt8} {start : Nat} {output₀ : Nat → UInt8}
    {text rest : List UInt8} {s : Unpacking} (h : Unpacked packed start output₀ text rest s)
    (value : UInt8) : Unpacked packed start output₀ (text ++ [value]) rest (s.putByte value) where
  rest := h.rest
  decoder := h.decoder.putByte value
  outputPosition := by
    rw [List.length_append, List.length_singleton, ← h.outputPosition]
    rfl
  output := by
    intro j
    have hposition := h.outputPosition
    show Function.update s.output s.outputPosition value j
      = if j < s.outputPosition + 1 then (text ++ [value]).getD (start + j) 0 else output₀ j
    rcases Nat.lt_trichotomy j s.outputPosition with hlt | rfl | hgt
    · rw [Function.update_of_ne (by omega), h.output j, if_pos hlt, if_pos (by omega),
        List.getD_append _ _ _ _ (by omega)]
    · rw [Function.update_self, if_pos (by omega), List.getD_append_right _ _ _ _ (by omega)]
      simp [hposition]
    · rw [Function.update_of_ne (by omega), h.output j, if_neg (by omega), if_neg (by omega)]

theorem Unpacked.literals {packed : List UInt8} {start : Nat} {output₀ : Nat → UInt8}
    (bytes : List UInt8) : ∀ {text rest : List UInt8} {s : Unpacking},
      Unpacked packed start output₀ text (bytes ++ rest) s →
      Unpacked packed start output₀ (text ++ bytes) rest (unpackLiterals packed bytes.length s) := by
  induction bytes with
  | nil =>
      intro text rest s h
      rw [List.append_nil]
      exact h
  | cons b bytes ih =>
      intro text rest s h
      obtain ⟨hbyte, hrest⟩ := h.rest.head
      have hread : Unpacked packed start output₀ text (bytes ++ rest)
          { s with input := s.input + 1 } := ⟨hrest, h.decoder, h.outputPosition, h.output⟩
      rw [List.length_cons, unpackLiterals, hbyte, List.append_cons]
      exact ih (hread.putByte b)

theorem Unpacked.copy {packed : List UInt8} {start : Nat} {output₀ : Nat → UInt8}
    {distance : Nat} (hpos : 0 < distance) (hnear : distance ≤ 0x10000) (n : Nat) :
    ∀ {text rest : List UInt8} {s : Unpacking}, distance ≤ text.length →
      Unpacked packed start output₀ text rest s →
      Unpacked packed start output₀ (copyMatch text distance n) rest
        (unpackCopy n (UInt16.ofNat (text.length - distance)) s) := by
  induction n with
  | zero => intro text rest s _ h; exact h
  | succ n ih =>
      intro text rest s htext h
      have hread : s.decoder.history (UInt16.ofNat (text.length - distance))
          = text.getD (text.length - distance) default := by
        rw [← h.decoder.2.read hpos hnear htext, ofNat_mod]
      have hnext : (UInt16.ofNat (text.length - distance) + 1 : UInt16)
          = UInt16.ofNat ((text ++ [text.getD (text.length - distance) default]).length
            - distance) := by
        rw [List.length_append, List.length_singleton,
          show text.length + 1 - distance = text.length - distance + 1 by omega, UInt16.ofNat_add]
        rfl
      rw [copyMatch, unpackCopy, hread, hnext]
      refine ih ?_ (h.putByte _)
      rw [List.length_append]
      omega

/-- One pass of the device's loop takes one token. -/
theorem takesTokens_unpackToken (packed : List UInt8) (start : Nat) (output₀ : Nat → UInt8) :
    TakesTokens (Unpacked packed start output₀) (unpackToken packed) := by
  intro text t rest s hvalid h
  unfold unpackToken
  cases t with
  | literals bytes =>
      obtain ⟨hpos, hle⟩ := hvalid
      obtain ⟨hbyte, hrest⟩ := h.rest.head
      obtain ⟨hzero, hnat⟩ := literals_control (bytes.length - 1) (by omega)
      simp only [hbyte, hzero, hnat, if_true]
      rw [show bytes.length - 1 + 1 = bytes.length by omega]
      exact Unpacked.literals bytes ⟨hrest, h.decoder, h.outputPosition, h.output⟩
  | copy length distance =>
      obtain ⟨⟨hmin, hmax⟩, hpos, hnear, htext⟩ := hvalid
      obtain ⟨hbyte, hrest⟩ := h.rest.head
      obtain ⟨hlow, hrest⟩ := hrest.head
      obtain ⟨hhigh, hrest⟩ := hrest.head
      obtain ⟨hset, hnat⟩ := copy_control (length - 3) (by omega)
      simp only [hbyte, hset, hnat, hlow, hhigh, if_false]
      rw [distance_bytes hnear, h.decoder.1, ← UInt16.ofNat_sub htext,
        show length - 3 + 3 = length by omega]
      exact Unpacked.copy hpos (by omega) length htext
        ⟨hrest, h.decoder, h.outputPosition, h.output⟩

theorem unpackLzssBlock_tokens {packed text rest : List UInt8} {ts : List Token}
    {decoder : LzssDecoder} {input outputSize : Nat} {output : Nat → UInt8}
    (hvalid : ValidAll text ts) (hdecoder : decoder.Follows text)
    (hrest : RestAt packed input (bytesAll ts ++ rest))
    (hsize : (expandAll text ts).length = text.length + outputSize) :
    Unpacked packed text.length output (expandAll text ts) rest
      (unpackLzssBlock decoder packed input output outputSize) := by
  refine loop_tokens (fun s => s.outputPosition < outputSize)
    (takesTokens_unpackToken packed text.length output) ?_ ?_ ts text rest _ hvalid hsize
    ⟨hrest, hdecoder, rfl, fun j => rfl⟩
  · intro text' rest' s h
    have := h.outputPosition
    constructor <;> intro <;> omega
  · intro s
    conv_lhs => rw [unpackLoop]

/-! ## The packer's own unpacker follows the text -/

/-- `text` is unpacked, from `start` on into the output, and `rest` is left to read. -/
structure Decompressed (packed : List UInt8) (start : Nat) (text rest : List UInt8)
    (s : Decompressing) : Prop where
  rest : RestAt packed s.inputPosition rest
  historyPosition : s.historyPosition = text.length
  window : Window 0x10000 s.history text
  start_le : start ≤ text.length
  output : s.output = text.drop start

theorem Decompressed.putByte {packed text rest : List UInt8} {start : Nat} {s : Decompressing}
    (h : Decompressed packed start text rest s) (value : UInt8) :
    Decompressed packed start (text ++ [value]) rest (s.putByte value) where
  rest := h.rest
  historyPosition := by
    rw [List.length_append, List.length_singleton, ← h.historyPosition]
    rfl
  window := by
    refine h.window.push ?_ (fun k _ hne => ?_)
    · simp only [Decompressing.putByte, h.historyPosition, Function.update_self]
    · simp only [Decompressing.putByte, h.historyPosition, Function.update_of_ne hne]
  start_le := Nat.le_trans h.start_le (by simp)
  output := by
    rw [List.drop_append_of_le_length h.start_le, ← h.output]
    rfl

theorem Decompressed.literals {packed : List UInt8} {start : Nat} (bytes : List UInt8) :
    ∀ {text rest : List UInt8} {s : Decompressing},
      Decompressed packed start text (bytes ++ rest) s →
      Decompressed packed start (text ++ bytes) rest
        (decompressLiterals packed bytes.length s) := by
  induction bytes with
  | nil =>
      intro text rest s h
      rw [List.append_nil]
      exact h
  | cons b bytes ih =>
      intro text rest s h
      obtain ⟨hbyte, hrest⟩ := h.rest.head
      have hread : Decompressed packed start text (bytes ++ rest)
          { s with inputPosition := s.inputPosition + 1 } :=
        ⟨hrest, h.historyPosition, h.window, h.start_le, h.output⟩
      rw [List.length_cons, decompressLiterals, vec, hbyte, List.append_cons]
      exact ih (hread.putByte b)

theorem Decompressed.copy {packed : List UInt8} {start distance : Nat} (hpos : 0 < distance)
    (hnear : distance ≤ 0x10000) (n : Nat) :
    ∀ {text rest : List UInt8} {s : Decompressing}, distance ≤ text.length →
      Decompressed packed start text rest s →
      Decompressed packed start (copyMatch text distance n) rest
        (decompressCopy n (text.length - distance) s) := by
  induction n with
  | zero => intro text rest s _ h; exact h
  | succ n ih =>
      intro text rest s htext h
      have hindex : (((text.length : Int) - distance) % 0x10000).toNat
          = (text.length - distance) % 0x10000 := by omega
      have hread : s.history (((text.length : Int) - distance) % 0x10000).toNat
          = text.getD (text.length - distance) default := by
        rw [hindex, h.window.read hpos hnear htext]
      have hnext : (text.length : Int) - distance + 1
          = (text ++ [text.getD (text.length - distance) default]).length - distance := by
        rw [List.length_append, List.length_singleton]
        omega
      rw [copyMatch, decompressCopy, hread, hnext]
      refine ih ?_ (h.putByte _)
      rw [List.length_append]
      omega

theorem takesTokens_decompressToken (packed : List UInt8) (start : Nat) :
    TakesTokens (Decompressed packed start) (decompressToken packed) := by
  intro text t rest s hvalid h
  unfold decompressToken vec
  cases t with
  | literals bytes =>
      obtain ⟨hpos, hle⟩ := hvalid
      obtain ⟨hbyte, hrest⟩ := h.rest.head
      obtain ⟨hzero, hnat⟩ := literals_control (bytes.length - 1) (by omega)
      simp only [hbyte, hzero, hnat, if_true]
      rw [show bytes.length - 1 + 1 = bytes.length by omega]
      exact Decompressed.literals bytes
        ⟨hrest, h.historyPosition, h.window, h.start_le, h.output⟩
  | copy length distance =>
      obtain ⟨⟨hmin, hmax⟩, hpos, hnear, htext⟩ := hvalid
      obtain ⟨hbyte, hrest⟩ := h.rest.head
      have hdistance : ofLeBytes ((packed.drop (s.inputPosition + 1)).take 2) = distance := by
        have hbytes : packed.drop (s.inputPosition + 1) = leBytes 2 distance ++ rest := hrest.2
        rw [hbytes, List.take_append_of_le_length (by simp), List.take_of_length_le (by simp)]
        exact ofLeBytes_leBytes_of_lt hnear
      obtain ⟨-, hrest⟩ := hrest.head
      obtain ⟨-, hrest⟩ := hrest.head
      obtain ⟨hset, hnat⟩ := copy_control (length - 3) (by omega)
      simp only [hbyte, hset, hnat, hdistance, h.historyPosition, if_false]
      rw [show length - 3 + 3 = length by omega]
      exact Decompressed.copy hpos (by omega) length htext
        ⟨hrest, rfl, h.window, h.start_le, h.output⟩

theorem decompressLoop_tokens {packed text rest : List UInt8} {ts : List Token}
    {s : Decompressing} {size : Nat} (hvalid : ValidAll text ts)
    (h : Decompressed packed text.length text (bytesAll ts ++ rest) s)
    (hsize : (expandAll text ts).length = text.length + size) :
    Decompressed packed text.length (expandAll text ts) rest (decompressLoop packed size s) := by
  refine loop_tokens (fun s => s.output.length < size)
    (takesTokens_decompressToken packed text.length) ?_ ?_ ts text rest s hvalid hsize h
  · intro text' rest' s h
    have := h.start_le
    rw [h.output, List.length_drop]
    constructor <;> intro <;> omega
  · intro s
    conv_lhs => rw [decompressLoop]

/-! ## All blocks -/

section Blocks

variable {blocks : List (List UInt8)} {packed : List UInt8} {offsets sizes : List Nat}

/-- One shard, behind the shards before it. -/
theorem unpackShard_packed (h : Packed blocks packed offsets sizes) {i : Nat}
    (hi : i < blocks.length) (hfits : (blocks.getD i []).length < 2 ^ 16) {u : Unpacker}
    (hu : u.decoder.Follows (blocks.take i).flatten) :
    Unpacked packed (blocks.take i).flatten.length u.output (blocks.take (i + 1)).flatten
      (packed.drop (offsets.getD (i + 1) packed.length))
      (unpackShard ⟨packed, offsets, sizes.map UInt16.ofNat⟩ u i) := by
  obtain ⟨ts, hvalid, hexpand, hbytes⟩ := h.block i hi
  have hsize : ((sizes.map UInt16.ofNat).getD i 0).toNat = (blocks.getD i []).length := by
    have hlt : i < sizes.length := by
      rw [h.sizes_eq, List.length_map]
      exact hi
    rw [List.getD_eq_getElem _ _ (by simpa using hlt), List.getElem_map, ← List.getD_eq_getElem _ 0 hlt,
      h.getD_sizes hi]
    exact UInt16.toNat_ofNat_of_lt' hfits
  have hrest := h.restAt hi
  rw [hbytes] at hrest
  rw [unpackShard]
  simp only [hsize]
  rw [← hexpand]
  refine unpackLzssBlock_tokens hvalid hu hrest ?_
  rw [hexpand, flatten_take_succ hi, List.length_append]

theorem unpackShards_packed (h : Packed blocks packed offsets sizes)
    (hfits : ∀ b ∈ blocks, b.length < 2 ^ 16) {u : Unpacker} (hu : u.decoder.Follows []) :
    ∀ i ≤ blocks.length,
      (unpackShards ⟨packed, offsets, sizes.map UInt16.ofNat⟩ u i).decoder.Follows
        (blocks.take i).flatten := by
  intro i
  induction i with
  | zero => intro _; exact hu
  | succ i ih =>
      intro hi
      have hfit : (blocks.getD i []).length < 2 ^ 16 := by
        rw [List.getD_eq_getElem _ _ hi]
        exact hfits _ (List.getElem_mem hi)
      exact (unpackShard_packed h hi hfit (ih (Nat.le_of_lt hi))).decoder

/-- The state of `decompress_blocks` after the blocks below `i`. -/
theorem decompressBlock_packed (h : Packed blocks packed offsets sizes) :
    ∀ i ≤ blocks.length, ∀ p, p = (List.range i).foldl (decompressBlock packed offsets sizes)
        ({ history := fun _ => 0, historyPosition := 0, inputPosition := 0, output := [] }, []) →
      p.1.historyPosition = (blocks.take i).flatten.length ∧
      Window 0x10000 p.1.history (blocks.take i).flatten ∧ p.2 = blocks.take i := by
  intro i
  induction i with
  | zero =>
      rintro - p rfl
      exact ⟨rfl, fun j hj => absurd hj (Nat.not_lt_zero j), rfl⟩
  | succ i ih =>
      rintro hi p rfl
      rw [List.range_succ, List.foldl_append, List.foldl_cons, List.foldl_nil]
      generalize hq : (List.range i).foldl (decompressBlock packed offsets sizes) _ = q
      obtain ⟨hposition, hwindow, hblocks⟩ := ih (Nat.le_of_lt hi) q hq.symm
      obtain ⟨ts, hvalid, hexpand, hbytes⟩ := h.block i hi
      have hrest := h.restAt hi
      rw [hbytes] at hrest
      have hstart : Decompressed packed (blocks.take i).flatten.length (blocks.take i).flatten
          (bytesAll ts ++ packed.drop (offsets.getD (i + 1) packed.length))
          { q.1 with inputPosition := offsets.getD i 0, output := [] } :=
        ⟨hrest, hposition, hwindow, Nat.le_refl _, List.drop_length.symm⟩
      have hlength : (expandAll (blocks.take i).flatten ts).length
          = (blocks.take i).flatten.length + sizes.getD i 0 := by
        rw [hexpand, flatten_take_succ hi, List.length_append, h.getD_sizes hi]
      have hrun := decompressLoop_tokens hvalid hstart hlength
      rw [hexpand] at hrun
      refine ⟨hrun.historyPosition, hrun.window, ?_⟩
      rw [decompressBlock, hrun.output, hblocks, flatten_take_succ hi, List.drop_left, List.take_add_one,
        List.getElem?_eq_getElem hi, List.getD_eq_getElem _ _ hi]
      rfl

theorem decompressBlocks_packed (h : Packed blocks packed offsets sizes) :
    decompressBlocks packed offsets sizes = blocks := by
  rw [decompressBlocks, h.offsets_length]
  obtain ⟨-, -, hblocks⟩ := decompressBlock_packed h blocks.length (Nat.le_refl _) _ rfl
  rw [hblocks, List.take_length]

end Blocks

/-- The elements of a list, by index. -/
theorem map_range_getD (bytes : List UInt8) :
    (List.range bytes.length).map (fun j => bytes.getD j 0) = bytes := by
  refine List.ext_getElem (by simp) (fun j h₁ h₂ => ?_)
  simp [List.getElem?_eq_getElem h₂]

/-- **What is packed is unpacked.** For blocks whose sizes fit the table, with whatever the decoder's
    history and the output buffer hold at the start: the packer accepts its own work, and shard `i`,
    after the shards before it, puts block `i` at the start of the buffer, leaves the rest of the
    buffer alone and reads up to the next offset. -/
theorem unpackShard_compressBlocks (blocks : List (List UInt8))
    (hfits : ∀ b ∈ blocks, b.length < 2 ^ 16) (history : UInt16 → UInt8) (output : Nat → UInt8) :
    ∃ file, writePackedFile blocks = some file ∧
      file.data = (compressBlocks blocks).compressor.packed ∧
      file.offsets = (compressBlocks blocks).offsets ∧
      decompressBlocks (compressBlocks blocks).compressor.packed (compressBlocks blocks).offsets
        (compressBlocks blocks).sizes = blocks ∧
      ∀ i < blocks.length,
        let before := unpackShards file ⟨⟨history, 0⟩, output⟩ i
        let s := unpackShard file before i
        s.outputPosition = (compressBlocks blocks).sizes.getD i 0 ∧
        (List.range s.outputPosition).map s.output = blocks.getD i [] ∧
        (∀ j, s.outputPosition ≤ j → s.output j = before.output j) ∧
        s.input = (compressBlocks blocks).offsets.getD (i + 1)
          (compressBlocks blocks).compressor.packed.length := by
  have h := compressBlocks_packed blocks
  have hdecompress := decompressBlocks_packed h
  refine ⟨⟨(compressBlocks blocks).compressor.packed, (compressBlocks blocks).offsets,
    (compressBlocks blocks).sizes.map UInt16.ofNat⟩, ?_, rfl, rfl, hdecompress, ?_⟩
  · rw [writePackedFile, if_pos (fun i _ => by rw [hdecompress])]
  · intro i hi before s
    have hfit : (blocks.getD i []).length < 2 ^ 16 := by
      rw [List.getD_eq_getElem _ _ hi]
      exact hfits _ (List.getElem_mem hi)
    have hstart : LzssDecoder.Follows ⟨history, 0⟩ [] :=
      ⟨rfl, fun j hj => absurd hj (Nat.not_lt_zero j)⟩
    have hs := unpackShard_packed h hi hfit
      (unpackShards_packed h hfits (u := ⟨⟨history, 0⟩, output⟩) hstart i (Nat.le_of_lt hi))
    have hposition : s.outputPosition = (blocks.getD i []).length := by
      have hsum := hs.outputPosition
      rw [flatten_take_succ hi, List.length_append] at hsum
      exact Nat.add_left_cancel hsum
    refine ⟨?_, ?_, ?_, ?_⟩
    · rw [hposition, h.getD_sizes hi]
    · rw [hposition]
      -- the buffer holds what the shard has added to the text
      refine Eq.trans (List.map_congr_left (fun j hj => ?_)) (map_range_getD (blocks.getD i []))
      have hj : j < s.outputPosition := hposition ▸ List.mem_range.mp hj
      rw [hs.output j, if_pos hj, flatten_take_succ hi,
        List.getD_append_right _ _ _ _ (Nat.le_add_right _ _), Nat.add_sub_cancel_left]
    · intro j hj
      rw [hs.output j, if_neg (Nat.not_lt.mpr hj)]
    · exact hs.rest.index_eq ⟨h.next_le (i + 1), rfl⟩

/-- Three blocks, the second a copy across the boundary and the third empty. -/
theorem unpackShard_compressBlocks_overlap :
    ∃ file, writePackedFile [[1, 2, 3, 4, 5], [1, 2, 3, 4, 5, 1, 2, 3], []] = some file ∧
      (List.range 8).map (unpackShard file (unpackShards file ⟨⟨fun _ => 0xAA, 0⟩, fun _ => 0⟩ 1) 1).output
        = [1, 2, 3, 4, 5, 1, 2, 3] := by
  obtain ⟨file, hfile, -, -, -, hshards⟩ := unpackShard_compressBlocks
    [[1, 2, 3, 4, 5], [1, 2, 3, 4, 5, 1, 2, 3], []] (by decide) (fun _ => 0xAA) (fun _ => 0)
  obtain ⟨hposition, hblock, -⟩ := hshards 1 (by decide)
  have hsize : (compressBlocks [[1, 2, 3, 4, 5], [1, 2, 3, 4, 5, 1, 2, 3], []]).sizes.getD 1 0 = 8 := by
    decide +kernel
  rw [hposition, hsize] at hblock
  exact ⟨file, hfile, hblock⟩

end Pmb887x.Dsp
