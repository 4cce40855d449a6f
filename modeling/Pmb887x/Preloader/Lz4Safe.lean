import Pmb887x.Library.Checked
import Pmb887x.Preloader.Lz4Sound
import Pmb887x.Preloader.Main

set_option autoImplicit false

/-! # The decoder keeps to its buffers (`preloader/src/lz4.c`)

`Strict` is the decoder once more, with every access of `input` and `output` and every 32-bit operation
checked: reading behind `input_size` or output that is not written yet, writing behind `output_size` and a
wrapping expression are faults. For blocks of the size the preloader takes it computes the same as
`lz4Decompress`, wherever the two buffers are. -/

namespace Pmb887x.Preloader

open Library

/-! ## The checked decoder -/

namespace Strict

/-- `input[index]` -/
def inputAt (m : Memory) (input inputSize index : Nat) : Checked UInt8 :=
  if index < inputSize then .ok (m.read input index) else .error (.read index)

/-- `output[index]`, of which `written` bytes are written. -/
def outputAt (m : Memory) (output written index : Nat) : Checked UInt8 :=
  if index < written then .ok (m.read output index) else .error (.read index)

/-- `output[index] = value` -/
def setOutput (m : Memory) (output outputSize index : Nat) (value : UInt8) : Checked Memory :=
  if index < outputSize then .ok (m.write output index value) else .error (.write index)

def readLengthLoop (m : Memory) (input inputSize inputOffset length : Nat) :
    Checked (Option (Nat × Nat)) :=
  if inputOffset = inputSize then .ok none
  else if inputOffset < inputSize then do
    let value ← inputAt m input inputSize inputOffset
    let nextOffset ← Checked.add inputOffset 1
    let length ← Checked.add length value.toNat
    if value = 0xFF then readLengthLoop m input inputSize (inputOffset + 1) length
    else .ok (some (nextOffset, length))
  else .error (.read inputOffset)
termination_by inputSize - inputOffset

def readLength (m : Memory) (input inputSize inputOffset length : Nat) :
    Checked (Option (Nat × Nat)) :=
  if length ≠ 0x0F then .ok (some (inputOffset, length))
  else readLengthLoop m input inputSize inputOffset length

/-- The literals, and the two offsets behind them. -/
def copyLiterals (m : Memory) (input inputSize inputOffset output outputSize outputOffset : Nat) :
    Nat → Checked (Memory × Nat × Nat)
  | 0 => .ok (m, inputOffset, outputOffset)
  | n + 1 => do
      let value ← inputAt m input inputSize inputOffset
      let inputOffset ← Checked.add inputOffset 1
      let m ← setOutput m output outputSize outputOffset value
      let outputOffset ← Checked.add outputOffset 1
      copyLiterals m input inputSize inputOffset output outputSize outputOffset n

/-- The match, and the output offset behind it. -/
def copyMatchBytes (m : Memory) (output outputSize outputOffset matchOffset : Nat) :
    Nat → Checked (Memory × Nat)
  | 0 => .ok (m, outputOffset)
  | n + 1 => do
      let source ← Checked.sub outputOffset matchOffset
      let value ← outputAt m output outputOffset source
      let m ← setOutput m output outputSize outputOffset value
      let outputOffset ← Checked.add outputOffset 1
      copyMatchBytes m output outputSize outputOffset matchOffset n

def lz4Match (m : Memory) (input inputSize output outputSize inputOffset outputOffset : Nat)
    (token : UInt8) : Checked Pass := do
  let left ← Checked.sub inputSize inputOffset
  if left < 2 then .ok (.ret false m)
  else
    let low ← inputAt m input inputSize inputOffset
    let highOffset ← Checked.add inputOffset 1
    let high ← inputAt m input inputSize highOffset
    let matchOffset := low.toNat ||| (high.toNat <<< 8)
    let inputOffset ← Checked.add inputOffset 2
    if matchOffset = 0 ∨ matchOffset > outputOffset then .ok (.ret false m)
    else
      match ← readLength m input inputSize inputOffset (token.toNat &&& 0x0F) with
      | none => .ok (.ret false m)
      | some (inputOffset, size) =>
          let matchSize ← Checked.add size 4
          let room ← Checked.sub outputSize outputOffset
          if matchSize > room then .ok (.ret false m)
          else
            let (m, outputOffset) ← copyMatchBytes m output outputSize outputOffset matchOffset matchSize
            .ok (.cont m inputOffset outputOffset)

def lz4Sequence (m : Memory) (input inputSize output outputSize inputOffset outputOffset : Nat) :
    Checked Pass := do
  let token ← inputAt m input inputSize inputOffset
  let inputOffset ← Checked.add inputOffset 1
  match ← readLength m input inputSize inputOffset (token.toNat >>> 4) with
  | none => .ok (.ret false m)
  | some (inputOffset, literalSize) =>
      let left ← Checked.sub inputSize inputOffset
      if literalSize > left then .ok (.ret false m)
      else
        let room ← Checked.sub outputSize outputOffset
        if literalSize > room then .ok (.ret false m)
        else
          let (m, inputOffset, outputOffset) ←
            copyLiterals m input inputSize inputOffset output outputSize outputOffset literalSize
          if inputOffset = inputSize then .ok (.ret (outputOffset == outputSize) m)
          else lz4Match m input inputSize output outputSize inputOffset outputOffset token

/-- The `while` loop; `none` when `fuel` passes do not end it. -/
def lz4DecompressLoop (input inputSize output outputSize : Nat) :
    Nat → Memory → Nat → Nat → Checked (Option (Bool × Memory))
  | 0, _, _, _ => .ok none
  | fuel + 1, m, inputOffset, outputOffset =>
      if inputOffset < inputSize then do
        match ← lz4Sequence m input inputSize output outputSize inputOffset outputOffset with
        | .ret ok m => .ok (some (ok, m))
        | .cont m inputOffset outputOffset =>
            lz4DecompressLoop input inputSize output outputSize fuel m inputOffset outputOffset
      else .ok (some (outputOffset == outputSize, m))

def lz4Decompress (fuel : Nat) (m : Memory) (input inputSize output outputSize : Nat) :
    Checked (Option (Bool × Memory)) :=
  lz4DecompressLoop input inputSize output outputSize fuel m 0 0

end Strict

/-! ## No access and no operation faults -/

section Bounds

variable {m : Memory} {input inputSize inputOffset output outputSize outputOffset : Nat}

theorem strict_inputAt (h : inputOffset < inputSize) :
    Strict.inputAt m input inputSize inputOffset = .ok (m.read input inputOffset) := if_pos h

theorem strict_setOutput (h : outputOffset < outputSize) (value : UInt8) :
    Strict.setOutput m output outputSize outputOffset value
      = .ok (m.write output outputOffset value) := if_pos h

theorem strict_readLengthLoop {length : Nat} (hsize : inputSize < 2 ^ 32)
    (hwrap : length + 0xFF * (inputSize - inputOffset) < 2 ^ 32) (hle : inputOffset ≤ inputSize) :
    Strict.readLengthLoop m input inputSize inputOffset length
      = .ok (readLengthLoop m input inputSize inputOffset length) := by
  fun_induction readLengthLoop m input inputSize inputOffset length with
  | case1 inputOffset length hlt value length' hv ih =>
      have hval : value.toNat = 0xFF := by rw [hv]; rfl
      have hsum : length + value.toNat < 2 ^ 32 := by omega
      have hlen : length' = length + value.toNat := wrap32_of_lt hsum
      have hread : Strict.inputAt m input inputSize inputOffset = .ok value := if_pos hlt
      rw [Strict.readLengthLoop, if_neg (Nat.ne_of_lt hlt), if_pos hlt, hread, Checked.ok_bind,
        Checked.add_of_lt (by omega), Checked.ok_bind, Checked.add_of_lt hsum, Checked.ok_bind,
        if_pos hv, ← hlen]
      exact ih (by omega) hlt
  | case2 inputOffset length hlt value length' hv =>
      have hval := value.toNat_lt
      have hsum : length + value.toNat < 2 ^ 32 := by omega
      have hlen : length' = length + value.toNat := wrap32_of_lt hsum
      have hread : Strict.inputAt m input inputSize inputOffset = .ok value := if_pos hlt
      rw [Strict.readLengthLoop, if_neg (Nat.ne_of_lt hlt), if_pos hlt, hread, Checked.ok_bind,
        Checked.add_of_lt (by omega), Checked.ok_bind, Checked.add_of_lt hsum, Checked.ok_bind,
        if_neg hv, ← hlen]
  | case3 inputOffset length hge =>
      rw [Strict.readLengthLoop, if_pos (Nat.le_antisymm hle (Nat.le_of_not_lt hge))]

theorem strict_readLength {nibble : Nat} (hwrap : 0xFF * inputSize + 19 < 2 ^ 32)
    (hle : inputOffset ≤ inputSize) :
    Strict.readLength m input inputSize inputOffset nibble
      = .ok (readLength m input inputSize inputOffset nibble) := by
  rw [Strict.readLength, readLength]
  split_ifs with hne
  · rfl
  · rw [not_not.mp hne]
    exact strict_readLengthLoop (by omega) (by omega) hle

theorem strict_copyLiterals (hin : inputSize < 2 ^ 32) (hout : outputSize < 2 ^ 32) (n : Nat)
    (hi : inputOffset + n ≤ inputSize) (ho : outputOffset + n ≤ outputSize) :
    Strict.copyLiterals m input inputSize inputOffset output outputSize outputOffset n
      = .ok (copyLiterals m input inputOffset output outputOffset n, inputOffset + n,
          outputOffset + n) := by
  induction n generalizing m inputOffset outputOffset with
  | zero => rfl
  | succ n ih =>
      rw [Strict.copyLiterals, strict_inputAt (by omega), Checked.ok_bind,
        Checked.add_of_lt (by omega), Checked.ok_bind, strict_setOutput (by omega), Checked.ok_bind,
        Checked.add_of_lt (by omega), Checked.ok_bind, ih (by omega) (by omega), copyLiterals,
        Nat.add_assoc, Nat.add_assoc, Nat.add_comm 1 n]

theorem strict_copyMatchBytes {matchOffset : Nat} (hout : outputSize < 2 ^ 32)
    (hpos : matchOffset ≠ 0) (n : Nat) (hle : matchOffset ≤ outputOffset)
    (ho : outputOffset + n ≤ outputSize) :
    Strict.copyMatchBytes m output outputSize outputOffset matchOffset n
      = .ok (copyMatchBytes m output outputOffset matchOffset n, outputOffset + n) := by
  induction n generalizing m outputOffset with
  | zero => rfl
  | succ n ih =>
      have hread : Strict.outputAt m output outputOffset (outputOffset - matchOffset)
          = .ok (m.read output (outputOffset - matchOffset)) := if_pos (by omega)
      rw [Strict.copyMatchBytes, Checked.sub_of_le hle, Checked.ok_bind, hread, Checked.ok_bind,
        strict_setOutput (by omega), Checked.ok_bind, Checked.add_of_lt (by omega), Checked.ok_bind,
        ih (by omega) (by omega), copyMatchBytes, Nat.add_assoc, Nat.add_comm 1 n]

theorem strict_lz4Match {token : UInt8} (hwrap : 0xFF * inputSize + 19 < 2 ^ 32)
    (hout : outputSize < 2 ^ 32) (hi : inputOffset ≤ inputSize) (ho : outputOffset ≤ outputSize) :
    Strict.lz4Match m input inputSize output outputSize inputOffset outputOffset token
      = .ok (lz4Match m input inputSize output outputSize inputOffset outputOffset token) := by
  rw [Strict.lz4Match, lz4Match, Checked.sub_of_le hi, Checked.ok_bind, sub32_of_le hi (by omega)]
  by_cases htwo : inputSize - inputOffset < 2
  · rw [if_pos htwo, if_pos htwo]
  rw [if_neg htwo, if_neg htwo, strict_inputAt (by omega), Checked.ok_bind,
    Checked.add_of_lt (by omega), Checked.ok_bind, strict_inputAt (by omega), Checked.ok_bind,
    Checked.add_of_lt (by omega), Checked.ok_bind, matchOffsetAt]
  generalize (m.read input inputOffset).toNat ||| ((m.read input (inputOffset + 1)).toNat <<< 8)
    = matchOffset
  dsimp only
  by_cases hdistance : matchOffset = 0 ∨ matchOffset > outputOffset
  · rw [if_pos hdistance, if_pos hdistance]
  · obtain ⟨hpos, hreach⟩ := not_or.mp hdistance
    rw [if_neg hdistance, if_neg hdistance, strict_readLength hwrap (by omega), Checked.ok_bind]
    cases hread : readLength m input inputSize (inputOffset + 2) (token.toNat &&& 0x0F) with
    | none => rfl
    | some r =>
        obtain ⟨nextOffset, size⟩ := r
        obtain ⟨-, -, -, -, hsize⟩ := readLength_sound hwrap (by omega) Nat.and_le_right hread
        simp only [Checked.add_of_lt hsize, Checked.ok_bind, Checked.sub_of_le ho, wrap32_of_lt hsize,
          sub32_of_le ho hout]
        split_ifs with hfit
        · rfl
        · rw [strict_copyMatchBytes hout hpos _ (Nat.le_of_not_lt hreach) (by omega), Checked.ok_bind]

theorem strict_lz4Sequence (hwrap : 0xFF * inputSize + 19 < 2 ^ 32) (hout : outputSize < 2 ^ 32)
    (hi : inputOffset < inputSize) (ho : outputOffset ≤ outputSize) :
    Strict.lz4Sequence m input inputSize output outputSize inputOffset outputOffset
      = .ok (lz4Sequence m input inputSize output outputSize inputOffset outputOffset) := by
  rw [Strict.lz4Sequence, lz4Sequence, strict_inputAt hi, Checked.ok_bind,
    Checked.add_of_lt (by omega), Checked.ok_bind, strict_readLength hwrap hi, Checked.ok_bind]
  cases hread : readLength m input inputSize (inputOffset + 1)
      ((m.read input inputOffset).toNat >>> 4) with
  | none => rfl
  | some r =>
      obtain ⟨literalOffset, literalSize⟩ := r
      obtain ⟨-, -, -, hle, -⟩ := readLength_sound hwrap hi (shiftRight_four_le _) hread
      simp only [Checked.sub_of_le hle, Checked.ok_bind, sub32_of_le hle (show inputSize < 2 ^ 32 by omega),
        Checked.sub_of_le ho, sub32_of_le ho hout]
      split_ifs with hin hroom hend
      · rfl
      · rfl
      · rw [strict_copyLiterals (by omega) hout _ (by omega) (by omega), Checked.ok_bind]
        exact if_pos hend
      · rw [strict_copyLiterals (by omega) hout _ (by omega) (by omega), Checked.ok_bind]
        refine (if_neg hend).trans ?_
        dsimp only
        exact strict_lz4Match hwrap hout (by omega) (by omega)

/-- A pass that goes on keeps the offsets inside the buffers. -/
theorem lz4Sequence_cont_le (hwrap : 0xFF * inputSize + 19 < 2 ^ 32) (hout : outputSize < 2 ^ 32)
    (hi : inputOffset < inputSize) (ho : outputOffset ≤ outputSize) {m' : Memory} {i o : Nat}
    (h : lz4Sequence m input inputSize output outputSize inputOffset outputOffset = .cont m' i o) :
    i ≤ inputSize ∧ o ≤ outputSize := by
  obtain ⟨literalOffset, literalSize, hlit, hin, hfit, -, hmatch⟩ := lz4Sequence_cont h
  obtain ⟨size, htwo, -, -, hread, hmfit, rfl, -⟩ := lz4Match_cont hmatch
  obtain ⟨-, -, -, hle, -⟩ := readLength_sound hwrap hi (shiftRight_four_le _) hlit
  rw [sub32_of_le hle (by omega)] at hin
  rw [sub32_of_le ho hout] at hfit
  rw [sub32_of_le (by omega) (by omega)] at htwo
  rw [sub32_of_le (by omega) hout] at hmfit
  obtain ⟨-, -, -, hile, -⟩ := readLength_sound hwrap (by omega) Nat.and_le_right hread
  exact ⟨hile, by omega⟩

/-- **The decoder ends without a fault**, whatever the memory holds and wherever the buffers are. -/
theorem strict_lz4DecompressLoop (hwrap : 0xFF * inputSize + 19 < 2 ^ 32)
    (hout : outputSize < 2 ^ 32) {fuel : Nat} (hfuel : inputSize - inputOffset < fuel)
    (hi : inputOffset ≤ inputSize) (ho : outputOffset ≤ outputSize) :
    Strict.lz4DecompressLoop input inputSize output outputSize fuel m inputOffset outputOffset
      = .ok (some (lz4DecompressLoop m input inputSize output outputSize inputOffset outputOffset)) := by
  induction fuel generalizing m inputOffset outputOffset with
  | zero => exact absurd hfuel (Nat.not_lt_zero _)
  | succ fuel ih =>
      rw [Strict.lz4DecompressLoop]
      by_cases hlt : inputOffset < inputSize
      · rw [if_pos hlt, strict_lz4Sequence hwrap hout hlt ho, Checked.ok_bind]
        cases hpass : lz4Sequence m input inputSize output outputSize inputOffset outputOffset with
        | ret ok m' => rw [lz4DecompressLoop_ret hlt hpass]
        | cont m' i o =>
            obtain ⟨hi', ho'⟩ := lz4Sequence_cont_le hwrap hout hlt ho hpass
            have hprogress := lz4Sequence_cont_lt hpass
            rw [lz4DecompressLoop_cont hlt hpass]
            exact ih (by omega) hi' ho'
      · rw [if_neg hlt, lz4DecompressLoop, if_neg hlt]

/-! ## What the decoder writes -/

/-- The memory a pass leaves. -/
def Pass.memory : Pass → Memory
  | .ret _ m => m
  | .cont m _ _ => m

theorem copyLiterals_sameOutside (n : Nat) (ho : outputOffset + n ≤ outputSize) :
    Memory.SameOutside m (copyLiterals m input inputOffset output outputOffset n) output
      outputSize := by
  induction n generalizing m inputOffset outputOffset with
  | zero => exact Memory.SameOutside.refl m output outputSize
  | succ n ih => exact (Memory.sameOutside_write m _ (by omega)).trans (ih (by omega))

theorem copyMatchBytes_sameOutside {matchOffset : Nat} (n : Nat)
    (ho : outputOffset + n ≤ outputSize) :
    Memory.SameOutside m (copyMatchBytes m output outputOffset matchOffset n) output outputSize := by
  induction n generalizing m outputOffset with
  | zero => exact Memory.SameOutside.refl m output outputSize
  | succ n ih => exact (Memory.sameOutside_write m _ (by omega)).trans (ih (by omega))

theorem lz4Match_sameOutside {token : UInt8} (hout : outputSize < 2 ^ 32)
    (ho : outputOffset ≤ outputSize) :
    Memory.SameOutside m
      (lz4Match m input inputSize output outputSize inputOffset outputOffset token).memory output
      outputSize := by
  unfold lz4Match
  dsimp only
  split_ifs
  · exact Memory.SameOutside.refl m output outputSize
  · exact Memory.SameOutside.refl m output outputSize
  · split
    · exact Memory.SameOutside.refl m output outputSize
    · rw [sub32_of_le ho hout]
      split_ifs with hfit
      · exact Memory.SameOutside.refl m output outputSize
      · exact copyMatchBytes_sameOutside _ (by omega)

theorem lz4Sequence_sameOutside (hout : outputSize < 2 ^ 32) (ho : outputOffset ≤ outputSize) :
    Memory.SameOutside m
      (lz4Sequence m input inputSize output outputSize inputOffset outputOffset).memory output
      outputSize := by
  unfold lz4Sequence
  dsimp only
  split
  · exact Memory.SameOutside.refl m output outputSize
  · next literalOffset literalSize hread =>
      rw [sub32_of_le ho hout]
      split_ifs with hin hroom hend
      · exact Memory.SameOutside.refl m output outputSize
      · exact Memory.SameOutside.refl m output outputSize
      · exact copyLiterals_sameOutside _ (by omega)
      · exact (copyLiterals_sameOutside _ (by omega)).trans (lz4Match_sameOutside hout (by omega))

/-- The loop changes nothing but the output. -/
theorem lz4DecompressLoop_sameOutside (hwrap : 0xFF * inputSize + 19 < 2 ^ 32)
    (hout : outputSize < 2 ^ 32) (n : Nat) (hn : inputSize - inputOffset = n)
    (ho : outputOffset ≤ outputSize) :
    Memory.SameOutside m
      (lz4DecompressLoop m input inputSize output outputSize inputOffset outputOffset).2 output
      outputSize := by
  induction n using Nat.strong_induction_on generalizing m inputOffset outputOffset with
  | _ n ih =>
      by_cases hlt : inputOffset < inputSize
      · have hpassed : Memory.SameOutside m
            (lz4Sequence m input inputSize output outputSize inputOffset outputOffset).memory output
            outputSize := lz4Sequence_sameOutside hout ho
        cases hpass : lz4Sequence m input inputSize output outputSize inputOffset outputOffset with
        | ret ok m' =>
            rw [hpass] at hpassed
            rw [lz4DecompressLoop_ret hlt hpass]
            exact hpassed
        | cont m' i o =>
            rw [hpass] at hpassed
            obtain ⟨-, ho'⟩ := lz4Sequence_cont_le hwrap hout hlt ho hpass
            have hprogress := lz4Sequence_cont_lt hpass
            rw [lz4DecompressLoop_cont hlt hpass]
            exact hpassed.trans (ih (inputSize - i) (by omega) rfl ho')
      · rw [lz4DecompressLoop, if_neg hlt]
        exact Memory.SameOutside.refl m output outputSize

end Bounds

/-! ## The decoder on the blocks of the preloader -/

/-- **The decoder is safe and decides the format.** Within the block size of the preloader the checked run
ends without a fault for any memory and any buffers, and nothing but the output changes. With an input that
is no part of the output, as `boot.py` sees to, it answers `true` just for the encoding of a valid block
whose text has `output_size` bytes, and that text is in the output. -/
theorem lz4Decompress_decides (m : Memory) (input inputSize output outputSize : Nat)
    (hin : inputSize ≤ lz4BlockSize) (hout : outputSize ≤ lz4BlockSize) :
    ∃ ok m', (∀ fuel > inputSize,
        Strict.lz4Decompress fuel m input inputSize output outputSize = .ok (some (ok, m'))) ∧
      Memory.SameOutside m m' output outputSize ∧
      (Memory.Disjoint input inputSize output outputSize →
        (ok = true ↔ ∃ b : Lz4.Block, b.Valid ∧ b.bytes = m.readBytes input 0 inputSize ∧
          b.expand.length = outputSize) ∧
        ∀ b : Lz4.Block, b.Valid → b.bytes = m.readBytes input 0 inputSize →
          b.expand.length = outputSize → m'.Holds output 0 b.expand) := by
  simp only [lz4BlockSize] at hin hout
  have hwrap : 0xFF * inputSize + 19 < 2 ^ 32 := by omega
  have hsize : outputSize < 2 ^ 32 := by omega
  have hsame : Memory.SameOutside m (lz4Decompress m input inputSize output outputSize).2 output
      outputSize := lz4DecompressLoop_sameOutside hwrap hsize _ rfl (Nat.zero_le _)
  refine ⟨(lz4Decompress m input inputSize output outputSize).1,
    (lz4Decompress m input inputSize output outputSize).2, fun fuel hfuel => ?_, hsame, fun hd => ?_⟩
  · exact strict_lz4DecompressLoop hwrap hsize (by omega) (Nat.zero_le _) (Nat.zero_le _)
  · -- a valid block is decoded to its text
    have hblock : ∀ b : Lz4.Block, b.Valid → b.bytes = m.readBytes input 0 inputSize →
        b.expand.length = outputSize →
        (lz4Decompress m input inputSize output outputSize).1 = true ∧
          (lz4Decompress m input inputSize output outputSize).2.Holds output 0 b.expand := by
      intro b hvalid hbytes hlength
      have hread : b.bytes.length = inputSize := by rw [hbytes, Memory.readBytes_length]
      have hholds : m.Holds input 0 b.bytes := by
        rw [hbytes]
        exact m.holds_readBytes input 0 inputSize
      subst hread hlength
      obtain ⟨m', hrun, htext, -⟩ := lz4Decompress_block hholds hvalid hsize hd (by omega)
      rw [hrun]
      exact ⟨rfl, htext⟩
    refine ⟨⟨fun hok => ?_, ?_⟩, fun b hvalid hbytes hlength => (hblock b hvalid hbytes hlength).2⟩
    · obtain ⟨b, hvalid, hbytes, hlength, -⟩ :=
        lz4Decompress_sound hd hwrap hsize (Prod.ext hok rfl)
      exact ⟨b, hvalid, hbytes, hlength⟩
    · rintro ⟨b, hvalid, hbytes, hlength⟩
      exact (hblock b hvalid hbytes hlength).1

/-- Two literals, a match of seven bytes that overlaps itself, and one literal more. -/
def overlapping : Lz4.Block := ⟨[⟨[0x41, 0x42], 2, 3⟩], some ⟨[0x43], 0⟩⟩

/-- Its encoding at address 0. -/
def overlappingMemory : Memory := fun a => [0x23, 0x41, 0x42, 2, 0, 0x10, 0x43].getD a 0

/-- The decoder accepts it and leaves its text. -/
theorem lz4Decompress_decides_overlapping :
    ∃ m', Strict.lz4Decompress 8 overlappingMemory 0 7 0x100 10 = .ok (some (true, m')) ∧
      m'.Holds 0x100 0 [0x41, 0x42, 0x41, 0x42, 0x41, 0x42, 0x41, 0x42, 0x41, 0x43] := by
  obtain ⟨ok, m', hrun, -, hdecides⟩ :=
    lz4Decompress_decides overlappingMemory 0 7 0x100 10 (by decide) (by decide)
  obtain ⟨hok, htext⟩ := hdecides (Memory.disjoint_of_le (by decide) (by decide))
  have hvalid : overlapping.Valid := ⟨by decide, trivial⟩
  have hbytes : overlapping.bytes = overlappingMemory.readBytes 0 0 7 := by decide
  have hlength : overlapping.expand.length = 10 := by decide
  obtain rfl : ok = true := hok.mpr ⟨overlapping, hvalid, hbytes, hlength⟩
  have hexpand : overlapping.expand = [0x41, 0x42, 0x41, 0x42, 0x41, 0x42, 0x41, 0x42, 0x41, 0x43] := by decide
  exact ⟨m', hrun 8 (by decide), hexpand ▸ htext overlapping hvalid hbytes hlength⟩

end Pmb887x.Preloader
