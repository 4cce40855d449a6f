import Pmb887x.Preloader.Lz4

set_option autoImplicit false

/-! # The host's LZ4 compressor (`boot.py`)

`lz4CompressBlock` is the greedy compressor of the loader script: a dictionary from four-byte
windows to their last position proposes a match, which is then extended byte by byte. Its output is
the encoding of a valid LZ4 block whose text is the input (`lz4CompressBlock_block`), so the
preloader's decoder gives the input back. -/

namespace Pmb887x.Boot

open Library

/-! ## The compressor -/

/-- `struct.unpack_from("<I", data, offset)[0]` -/
def unpackU32 (data : List UInt8) (offset : Nat) : Nat := ofLeBytes ((data.drop offset).take 4)

/-- `append_lz4_length` -/
def appendLz4Length (output : List UInt8) (length : Nat) : List UInt8 :=
  if 0xFF ≤ length then appendLz4Length (output ++ [0xFF]) (length - 0xFF)
  else output ++ [UInt8.ofNat length]
termination_by length

/-- `data[start:stop]` -/
def slice (data : List UInt8) (start stop : Nat) : List UInt8 := (data.take stop).drop start

/-- The `positions` dictionary: the last position of each four-byte window. -/
abbrev Positions := Nat → Option Nat

/-- `positions[sequence] = position` -/
def Positions.set (positions : Positions) (sequence position : Nat) : Positions :=
  fun s => if s = sequence then some position else positions s

/-- `while match_end < match_limit and data[match + match_end - offset] == data[match_end]` -/
def extendMatch (data : List UInt8) (candidate offset : Nat) (matchLimit : Int)
    (matchEnd : Nat) : Nat :=
  if (matchEnd : Int) < matchLimit ∧
      data.getD (candidate + matchEnd - offset) 0 = data.getD matchEnd 0 then
    extendMatch data candidate offset matchLimit (matchEnd + 1)
  else matchEnd
termination_by (matchLimit - matchEnd).toNat

/-- `for position in range(start, stop): positions[…] = position` -/
def insertPositions (data : List UInt8) (positions : Positions) (start stop : Nat) : Positions :=
  (List.range' start (stop - start)).foldl
    (fun positions position => positions.set (unpackU32 data position) position) positions

/-- The local variables of `lz4_compress_block`. -/
structure Compressor where
  output : List UInt8
  positions : Positions
  anchor : Nat
  offset : Nat

/-- A length behind its nibble: extension bytes from `0x0F` on. -/
def appendLengthExtension (output : List UInt8) (size : Nat) : List UInt8 :=
  if size ≥ 0x0F then appendLz4Length output (size - 0x0F) else output

/-- The token, literals, distance and lengths of a match, appended to the output. -/
def emitSequence (data : List UInt8) (s : Compressor) (candidate matchEnd : Nat) : List UInt8 :=
  let literalSize := s.offset - s.anchor
  let matchSize := matchEnd - s.offset - 4
  let output := s.output ++ [UInt8.ofNat ((min literalSize 0x0F <<< 4) ||| min matchSize 0x0F)]
  let output := appendLengthExtension output literalSize
  let output := output ++ slice data s.anchor s.offset
  let output := output ++ leBytes 2 (s.offset - candidate)
  appendLengthExtension output matchSize

/-- The body of the search loop. -/
def compressStep (data : List UInt8) (s : Compressor) : Compressor :=
  let searchLimit : Int := data.length - 12
  let matchLimit : Int := data.length - 5
  let sequence := unpackU32 data s.offset
  let positions := s.positions.set sequence s.offset
  match s.positions sequence with
  | none => { s with positions := positions, offset := s.offset + 1 }
  | some candidate =>
      if s.offset - candidate > 0xFFFF then
        { s with positions := positions, offset := s.offset + 1 }
      else
        let matchEnd := extendMatch data candidate s.offset matchLimit (s.offset + 4)
        { output := emitSequence data s candidate matchEnd
          positions := insertPositions data positions (s.offset + 1)
            (min matchEnd (searchLimit + 1).toNat)
          anchor := matchEnd
          offset := matchEnd }

theorem extendMatch_le (data : List UInt8) (candidate offset : Nat) (matchLimit : Int)
    (matchEnd : Nat) : matchEnd ≤ extendMatch data candidate offset matchLimit matchEnd := by
  fun_induction extendMatch data candidate offset matchLimit matchEnd with
  | case1 matchEnd h ih => omega
  | case2 matchEnd h => exact Nat.le_refl _

/-- Every pass of the search loop moves on. -/
theorem offset_lt_compressStep (data : List UInt8) (s : Compressor) :
    s.offset < (compressStep data s).offset := by
  simp only [compressStep]
  split
  · simp
  · next candidate _ =>
      split_ifs
      · simp
      · have := extendMatch_le data candidate s.offset (data.length - 5) (s.offset + 4)
        simp only
        omega

/-- `while offset <= search_limit` -/
def compressLoop (data : List UInt8) (s : Compressor) : Compressor :=
  if (s.offset : Int) ≤ data.length - 12 then compressLoop data (compressStep data s) else s
termination_by data.length - s.offset
decreasing_by
  have := offset_lt_compressStep data s
  omega

/-- `lz4_compress_block` -/
def lz4CompressBlock (data : List UInt8) : List UInt8 :=
  let s := compressLoop data { output := [], positions := fun _ => none, anchor := 0, offset := 0 }
  let literalSize := data.length - s.anchor
  let output := s.output ++ [UInt8.ofNat (min literalSize 0x0F <<< 4)]
  let output := appendLengthExtension output literalSize
  output ++ data.drop s.anchor

/-! ## What it writes -/

theorem appendLz4Length_eq (output : List UInt8) (length : Nat) :
    appendLz4Length output length = output ++ Lz4.extensionBytes length := by
  fun_induction appendLz4Length output length with
  | case1 output length h ih => rw [ih, Lz4.extensionBytes_of_ge h]; simp
  | case2 output length h => rw [Lz4.extensionBytes_of_lt (by omega)]

theorem appendLengthExtension_eq (output : List UInt8) (size : Nat) :
    appendLengthExtension output size = output ++ Lz4.lengthBytes size := by
  unfold appendLengthExtension
  split_ifs with h
  · rw [appendLz4Length_eq, Lz4.lengthBytes_of_ge h]
    rfl
  · rw [Lz4.lengthBytes_of_lt (by simpa [Lz4.lengthEscape] using h), List.append_nil]

theorem token_eq (literals excess : Nat) :
    UInt8.ofNat ((min literals 0x0F <<< 4) ||| min excess 0x0F) = Lz4.token literals excess := by
  rw [← Nat.shiftLeft_add_eq_or_of_lt (by omega), Nat.shiftLeft_eq]
  rfl

theorem slice_length {data : List UInt8} {start stop : Nat} (h : stop ≤ data.length) :
    (slice data start stop).length = stop - start := by
  simp [slice, Nat.min_eq_left h]

theorem take_append_slice {data : List UInt8} {start stop : Nat} (h : start ≤ stop) :
    data.take start ++ slice data start stop = data.take stop := by
  rw [slice, show data.take start = (data.take stop).take start by
    rw [List.take_take, Nat.min_eq_left h], List.take_append_drop]

/-- A match is written as the encoding of its sequence. -/
theorem emitSequence_eq (data : List UInt8) (s : Compressor) (candidate matchEnd : Nat)
    (h : s.offset ≤ data.length) :
    emitSequence data s candidate matchEnd
      = s.output ++ Lz4.Sequence.bytes
          ⟨slice data s.anchor s.offset, s.offset - candidate, matchEnd - s.offset - 4⟩ := by
  simp only [emitSequence, appendLengthExtension_eq, token_eq, Lz4.Sequence.bytes, slice_length h]
  simp

/-! ## The invariant of the search loop -/

theorem getD_of_unpackU32_eq {data : List UInt8} {p q : Nat} (hp : p + 4 ≤ data.length)
    (hq : q + 4 ≤ data.length) (h : unpackU32 data p = unpackU32 data q) :
    ∀ k < 4, data.getD (p + k) 0 = data.getD (q + k) 0 := by
  intro k hk
  have heq := ofLeBytes_inj (by simp; omega) h
  have hget : ∀ r, data.getD (r + k) 0 = ((data.drop r).take 4).getD k 0 := by
    intro r
    simp only [List.getD_eq_getElem?_getD, List.getElem?_take_of_lt hk, List.getElem?_drop]
  rw [hget p, hget q, heq]

/-- The dictionary maps a window to an earlier position where it stands. -/
def PositionsOk (data : List UInt8) (positions : Positions) (limit : Nat) : Prop :=
  ∀ sequence p, positions sequence = some p →
    p < limit ∧ p + 4 ≤ data.length ∧ unpackU32 data p = sequence

theorem PositionsOk.set {data : List UInt8} {positions : Positions} {limit limit' p : Nat}
    (h : PositionsOk data positions limit) (hle : limit ≤ limit') (hp : p < limit')
    (h4 : p + 4 ≤ data.length) :
    PositionsOk data (positions.set (unpackU32 data p) p) limit' := by
  intro sequence q hq
  unfold Positions.set at hq
  split_ifs at hq with hs
  · simp only [Option.some.injEq] at hq
    subst hq
    exact ⟨hp, h4, hs.symm⟩
  · obtain ⟨h1, h2, h3⟩ := h sequence q hq
    exact ⟨by omega, h2, h3⟩

theorem PositionsOk.insertPositions {data : List UInt8} {limit start stop : Nat}
    (hlimit : stop ≤ limit) (hlen : stop + 3 ≤ data.length) {positions : Positions}
    (h : PositionsOk data positions limit) :
    PositionsOk data (insertPositions data positions start stop) limit := by
  have hfold : ∀ (l : List Nat) (positions : Positions), (∀ p ∈ l, p < stop) →
      PositionsOk data positions limit →
      PositionsOk data (l.foldl (fun positions position =>
        positions.set (unpackU32 data position) position) positions) limit := by
    intro l
    induction l with
    | nil => intro positions _ h; exact h
    | cons p rest ih =>
        intro positions hl h
        have hp := hl p (List.mem_cons_self ..)
        exact ih _ (fun q hq => hl q (List.mem_cons_of_mem _ hq))
          (h.set (Nat.le_refl _) (by omega) (by omega))
  refine hfold _ positions (fun p hp => ?_) h
  rw [List.mem_range'] at hp
  omega

/-- The extension loop stops inside the block, behind bytes it has compared. -/
theorem extendMatch_spec (data : List UInt8) (candidate offset : Nat) (matchLimit : Int)
    (matchEnd : Nat) (hlimit : matchLimit ≤ data.length) (hend : matchEnd ≤ data.length)
    (hoff : offset ≤ matchEnd)
    (heq : ∀ k < matchEnd - offset, data.getD (candidate + k) 0 = data.getD (offset + k) 0) :
    MatchAt data candidate offset
      (extendMatch data candidate offset matchLimit matchEnd - offset) := by
  fun_induction extendMatch data candidate offset matchLimit matchEnd with
  | case1 matchEnd h ih =>
      refine ih (by omega) (by omega) (fun k hk => ?_)
      by_cases hlt : k < matchEnd - offset
      · exact heq k hlt
      · obtain rfl : k = matchEnd - offset := by omega
        rw [show candidate + (matchEnd - offset) = candidate + matchEnd - offset by omega,
          show offset + (matchEnd - offset) = matchEnd by omega]
        exact h.2
  | case2 matchEnd h => exact ⟨by omega, heq⟩

/-- What holds at the head of the search loop: the output encodes a valid series of sequences whose
    text is the input up to the anchor. -/
structure CompressorOk (data : List UInt8) (s : Compressor) : Prop where
  anchor_le : s.anchor ≤ s.offset
  offset_le : s.offset ≤ data.length
  positions : PositionsOk data s.positions s.offset
  written : ∃ ss, s.output = (ss.map Lz4.Sequence.bytes).flatten ∧ Lz4.ValidAll [] ss ∧
    Lz4.expandAll [] ss = data.take s.anchor

theorem compressStep_ok {data : List UInt8} {s : Compressor} (h : CompressorOk data s)
    (hlimit : (s.offset : Int) ≤ data.length - 12) : CompressorOk data (compressStep data s) := by
  obtain ⟨hanchor, hoffset, hpos, ss, hout, hvalid, htext⟩ := h
  have hset : ∀ limit, s.offset < limit →
      PositionsOk data (s.positions.set (unpackU32 data s.offset) s.offset) limit :=
    fun limit hl => hpos.set (by omega) hl (by omega)
  simp only [compressStep]
  split
  · exact ⟨by simp only; omega, by simp only; omega, hset _ (by simp), ss, hout, hvalid, htext⟩
  · next candidate hcand =>
      split_ifs with hfar
      · exact ⟨by simp only; omega, by simp only; omega, hset _ (by simp), ss, hout, hvalid, htext⟩
      · obtain ⟨hlt, hfit, hseq⟩ := hpos _ _ hcand
        have hmatch := extendMatch_spec data candidate s.offset (data.length - 5) (s.offset + 4)
          (by omega) (by omega) (by omega) (by
            rw [show s.offset + 4 - s.offset = 4 by omega]
            exact getD_of_unpackU32_eq hfit (by omega) hseq)
        have hle := extendMatch_le data candidate s.offset (data.length - 5) (s.offset + 4)
        generalize extendMatch data candidate s.offset (data.length - 5) (s.offset + 4)
          = matchEnd at hmatch hle ⊢
        have hend : matchEnd ≤ data.length := by
          have := hmatch.1
          omega
        refine ⟨Nat.le_refl _, hend, ?_, ss ++ [⟨slice data s.anchor s.offset,
          s.offset - candidate, matchEnd - s.offset - 4⟩], ?_, ?_, ?_⟩
        · exact (hset _ (by simp only; omega)).insertPositions (by simp) (by omega)
        · simp [emitSequence_eq data s candidate matchEnd hoffset, hout]
        · rw [Lz4.validAll_append, htext]
          refine ⟨hvalid, ⟨by simp only; omega, by simp only; omega, ?_⟩, trivial⟩
          simp [slice_length hoffset, Nat.min_eq_left (Nat.le_trans hanchor hoffset)]
          omega
        · rw [Lz4.expandAll_append, htext]
          simp only [Lz4.expandAll, List.foldl_cons, List.foldl_nil, Lz4.Sequence.expand,
            Lz4.minMatch]
          rw [take_append_slice hanchor, show matchEnd - s.offset - 4 + 4 = matchEnd - s.offset
            by omega, copyMatch_take data _ candidate s.offset hlt hmatch]
          congr 1
          omega

theorem compressLoop_ok (data : List UInt8) (s : Compressor) (h : CompressorOk data s) :
    CompressorOk data (compressLoop data s) := by
  fun_induction compressLoop data s with
  | case1 s hlimit ih => exact ih (compressStep_ok h hlimit)
  | case2 s hlimit => exact h

/-- **The compressor writes a valid block with the input as its text.** -/
theorem lz4CompressBlock_block (data : List UInt8) :
    ∃ b : Lz4.Block, lz4CompressBlock data = b.bytes ∧ b.Valid ∧ b.expand = data := by
  have hok := compressLoop_ok data
    { output := [], positions := fun _ => none, anchor := 0, offset := 0 }
    ⟨Nat.le_refl _, Nat.zero_le _, fun _ _ h => by simp at h, [], rfl, trivial, rfl⟩
  obtain ⟨hanchor, hoffset, -, ss, hout, hvalid, htext⟩ := hok
  generalize hs : compressLoop data
    { output := [], positions := fun _ => none, anchor := 0, offset := 0 } = s at *
  refine ⟨⟨ss, some ⟨data.drop s.anchor, 0⟩⟩, ?_, hvalid, ?_⟩
  · have htoken := token_eq (data.length - s.anchor) 0
    simp only [Nat.zero_min, Nat.or_zero] at htoken
    simp only [lz4CompressBlock, hs, appendLengthExtension_eq, htoken, hout, Lz4.Block.bytes,
      Lz4.Tail.bytes, Option.map_some, Option.getD_some, List.length_drop]
    simp
  · simp only [Lz4.Block.expand, htext, Option.map_some, Option.getD_some, List.take_append_drop]

/-! ## The round trip -/

theorem lz4CompressBlock_nil : lz4CompressBlock [] = [0] := by
  rw [lz4CompressBlock, compressLoop]
  rfl

/-- **Decompressing a compressed block gives the data back.** The block stands at `input` in the
    device memory, apart from the output buffer; no other byte of the memory changes. -/
theorem lz4Decompress_lz4CompressBlock (m : Memory) (input output : Nat) (data : List UInt8)
    (hsize : data.length < 2 ^ 32) (hm : m.Holds input 0 (lz4CompressBlock data))
    (hd : Memory.Disjoint input (lz4CompressBlock data).length output data.length) :
    ∃ m', Preloader.lz4Decompress m input (lz4CompressBlock data).length output data.length
        = (true, m') ∧
      m'.Holds output 0 data ∧ Memory.SameOutside m m' output data.length := by
  obtain ⟨b, hbytes, hvalid, htext⟩ := lz4CompressBlock_block data
  -- the block fits the address space beside a non-empty output buffer
  have hin : b.bytes.length < 2 ^ 32 := by
    rcases Nat.eq_zero_or_pos data.length with h0 | hpos
    · rw [List.eq_nil_of_length_eq_zero h0] at hbytes
      rw [← hbytes, lz4CompressBlock_nil]
      decide
    · rw [← hbytes]
      exact hd.lt_addressSpace hpos
  rw [hbytes] at hm hd ⊢
  subst htext
  exact Preloader.lz4Decompress_block hm hvalid hsize hd hin

theorem lz4CompressBlock_replicate :
    lz4CompressBlock (List.replicate 20 0x41) = [0x1A, 0x41, 1, 0, 0x50, 0x41, 0x41, 0x41, 0x41,
      0x41] := by
  decide +kernel

/-- A self-overlapping repeat, from the block buffer to the start of the SRAM. -/
theorem lz4Decompress_lz4CompressBlock_replicate :
    ∃ m', Preloader.lz4Decompress
        (Memory.writeBytes (fun _ => 0) 0x01002000 0 (lz4CompressBlock (List.replicate 20 0x41)))
        0x01002000 (lz4CompressBlock (List.replicate 20 0x41)).length 0x00080000
        (List.replicate 20 (0x41 : UInt8)).length = (true, m') ∧
      m'.Holds 0x00080000 0 (List.replicate 20 0x41) ∧
      Memory.SameOutside
        (Memory.writeBytes (fun _ => 0) 0x01002000 0 (lz4CompressBlock (List.replicate 20 0x41)))
        m' 0x00080000 (List.replicate 20 (0x41 : UInt8)).length :=
  lz4Decompress_lz4CompressBlock _ _ _ _ (by decide)
    (Memory.holds_writeBytes _ _ _ (by rw [lz4CompressBlock_replicate]; decide))
    (by
      rw [lz4CompressBlock_replicate]
      exact (Memory.disjoint_of_le (by decide) (by decide)).symm)

end Pmb887x.Boot
