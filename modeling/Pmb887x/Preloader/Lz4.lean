import Pmb887x.Library.Memory
import Pmb887x.Library.Lz4Block

set_option autoImplicit false

/-! # The preloader's LZ4 decoder (`preloader/src/lz4.c`)

`lz4Decompress` works in place on the device memory: it reads the block at `input` and writes the
text at `output`, reading matches back from there. `lz4Sequence` is the body of its loop, which
either leaves the function or goes on behind one sequence. `lz4Decompress_block` says that the
encoding of a valid block is decoded to the block's text. -/

namespace Pmb887x.Preloader

open Library

/-! ## The decoder -/

/-- The `do … while` loop of `read_length`. The C test is `*input_offset == input_size`; the offset
    never passes the size, so `<` is its negation. -/
def readLengthLoop (m : Memory) (input inputSize inputOffset length : Nat) : Option (Nat × Nat) :=
  if inputOffset < inputSize then
    let value := m.read input inputOffset
    let length := wrap32 (length + value.toNat)
    if value = 0xFF then readLengthLoop m input inputSize (inputOffset + 1) length
    else some (inputOffset + 1, length)
  else none
termination_by inputSize - inputOffset

/-- `read_length`: the offset behind the extension bytes and the whole length, or `none` for
    `false`. -/
def readLength (m : Memory) (input inputSize inputOffset length : Nat) : Option (Nat × Nat) :=
  if length ≠ 0x0F then some (inputOffset, length)
  else readLengthLoop m input inputSize inputOffset length

/-- `output[output_offset++] = input[input_offset++]`, `n` times. -/
def copyLiterals (m : Memory) (input inputOffset output outputOffset : Nat) : Nat → Memory
  | 0 => m
  | n + 1 =>
      copyLiterals (m.write output outputOffset (m.read input inputOffset)) input (inputOffset + 1)
        output (outputOffset + 1) n

/-- `output[output_offset] = output[output_offset - match_offset]; output_offset++`, `n` times. -/
def copyMatchBytes (m : Memory) (output outputOffset matchOffset : Nat) : Nat → Memory
  | 0 => m
  | n + 1 =>
      copyMatchBytes (m.write output outputOffset (m.read output (outputOffset - matchOffset)))
        output (outputOffset + 1) matchOffset n

/-- How one pass through the loop body of `lz4_decompress` ends. -/
inductive Pass where
  /-- `return ok` -/
  | ret (ok : Bool) (m : Memory)
  /-- back to the loop test with the new offsets -/
  | cont (m : Memory) (inputOffset outputOffset : Nat)

/-- The distance field as the decoder reads it. -/
def matchOffsetAt (m : Memory) (input inputOffset : Nat) : Nat :=
  (m.read input inputOffset).toNat ||| ((m.read input (inputOffset + 1)).toNat <<< 8)

/-- The loop body from the distance on: the literals have been copied. -/
def lz4Match (m : Memory) (input inputSize output outputSize inputOffset outputOffset : Nat)
    (token : UInt8) : Pass :=
  if sub32 inputSize inputOffset < 2 then .ret false m
  else
    let matchOffset := matchOffsetAt m input inputOffset
    if matchOffset = 0 ∨ matchOffset > outputOffset then .ret false m
    else
      match readLength m input inputSize (inputOffset + 2) (token.toNat &&& 0x0F) with
      | none => .ret false m
      | some (nextOffset, size) =>
          let matchSize := wrap32 (size + 4)
          if matchSize > sub32 outputSize outputOffset then .ret false m
          else .cont (copyMatchBytes m output outputOffset matchOffset matchSize) nextOffset
            (outputOffset + matchSize)

/-- The loop body of `lz4_decompress`. -/
def lz4Sequence (m : Memory) (input inputSize output outputSize inputOffset outputOffset : Nat) :
    Pass :=
  let token := m.read input inputOffset
  match readLength m input inputSize (inputOffset + 1) (token.toNat >>> 4) with
  | none => .ret false m
  | some (literalOffset, literalSize) =>
      if literalSize > sub32 inputSize literalOffset then .ret false m
      else if literalSize > sub32 outputSize outputOffset then .ret false m
      else
        let m := copyLiterals m input literalOffset output outputOffset literalSize
        if literalOffset + literalSize = inputSize then
          .ret (outputOffset + literalSize == outputSize) m
        else lz4Match m input inputSize output outputSize (literalOffset + literalSize)
          (outputOffset + literalSize) token

theorem readLengthLoop_le (m : Memory) (input inputSize inputOffset length : Nat) (r : Nat × Nat)
    (h : readLengthLoop m input inputSize inputOffset length = some r) : inputOffset < r.1 := by
  fun_induction readLengthLoop m input inputSize inputOffset length with
  | case1 inputOffset length hlt value length' hv ih =>
      have := ih h
      omega
  | case2 inputOffset length hlt value length' hv =>
      simp only [Option.some.injEq] at h
      simp [← h]
  | case3 => simp at h

theorem readLength_le (m : Memory) (input inputSize inputOffset length : Nat) (r : Nat × Nat)
    (h : readLength m input inputSize inputOffset length = some r) : inputOffset ≤ r.1 := by
  unfold readLength at h
  split at h
  · simp only [Option.some.injEq] at h
    simp [← h]
  · exact Nat.le_of_lt (readLengthLoop_le _ _ _ _ _ _ h)

/-- All that a match part which goes on has checked and done. -/
theorem lz4Match_cont {m m' : Memory} {token : UInt8}
    {input inputSize output outputSize inputOffset outputOffset i o : Nat}
    (h : lz4Match m input inputSize output outputSize inputOffset outputOffset token
      = .cont m' i o) :
    ∃ size, 2 ≤ sub32 inputSize inputOffset ∧ matchOffsetAt m input inputOffset ≠ 0 ∧
      matchOffsetAt m input inputOffset ≤ outputOffset ∧
      readLength m input inputSize (inputOffset + 2) (token.toNat &&& 0x0F) = some (i, size) ∧
      wrap32 (size + 4) ≤ sub32 outputSize outputOffset ∧ o = outputOffset + wrap32 (size + 4) ∧
      m' = copyMatchBytes m output outputOffset (matchOffsetAt m input inputOffset)
        (wrap32 (size + 4)) := by
  simp only [lz4Match] at h
  split_ifs at h with h2 hoff
  rw [not_or, not_lt] at hoff
  split at h
  · cases h
  · next nextOffset size hread =>
      split_ifs at h with hfit
      injection h with hm hi ho
      subst hi
      exact ⟨size, Nat.not_lt.1 h2, hoff.1, hoff.2, hread, Nat.not_lt.1 hfit, ho.symm, hm.symm⟩

/-- All that a pass which goes on has checked and done. -/
theorem lz4Sequence_cont {m m' : Memory}
    {input inputSize output outputSize inputOffset outputOffset i o : Nat}
    (h : lz4Sequence m input inputSize output outputSize inputOffset outputOffset = .cont m' i o) :
    ∃ literalOffset literalSize,
      readLength m input inputSize (inputOffset + 1) ((m.read input inputOffset).toNat >>> 4)
        = some (literalOffset, literalSize) ∧
      literalSize ≤ sub32 inputSize literalOffset ∧ literalSize ≤ sub32 outputSize outputOffset ∧
      literalOffset + literalSize ≠ inputSize ∧
      lz4Match (copyLiterals m input literalOffset output outputOffset literalSize) input inputSize
        output outputSize (literalOffset + literalSize) (outputOffset + literalSize)
        (m.read input inputOffset) = .cont m' i o := by
  simp only [lz4Sequence] at h
  split at h
  · cases h
  · next literalOffset literalSize hread =>
      split_ifs at h with hin hout hend
      exact ⟨literalOffset, literalSize, hread, Nat.not_lt.1 hin, Nat.not_lt.1 hout, hend, h⟩

theorem lz4Match_ne_ret_true (m m' : Memory) (token : UInt8)
    (input inputSize output outputSize inputOffset outputOffset : Nat) :
    lz4Match m input inputSize output outputSize inputOffset outputOffset token
      ≠ .ret true m' := by
  intro h
  simp only [lz4Match] at h
  split_ifs at h
  · cases h
  · cases h
  · split at h
    · cases h
    · split_ifs at h
      cases h

/-- The only way out with `true`: the input ends behind the literals and the text is complete. -/
theorem lz4Sequence_ret_true {m m' : Memory}
    {input inputSize output outputSize inputOffset outputOffset : Nat}
    (h : lz4Sequence m input inputSize output outputSize inputOffset outputOffset
      = .ret true m') :
    ∃ literalOffset literalSize,
      readLength m input inputSize (inputOffset + 1) ((m.read input inputOffset).toNat >>> 4)
        = some (literalOffset, literalSize) ∧
      literalSize ≤ sub32 inputSize literalOffset ∧ literalSize ≤ sub32 outputSize outputOffset ∧
      literalOffset + literalSize = inputSize ∧ outputOffset + literalSize = outputSize ∧
      m' = copyLiterals m input literalOffset output outputOffset literalSize := by
  simp only [lz4Sequence] at h
  split at h
  · cases h
  · next literalOffset literalSize hread =>
      split_ifs at h with hin hout hend
      · cases h
      · cases h
      · injection h with hok hm
        exact ⟨literalOffset, literalSize, hread, Nat.not_lt.1 hin, Nat.not_lt.1 hout, hend,
          beq_iff_eq.1 hok, hm.symm⟩
      · exact absurd h (lz4Match_ne_ret_true _ _ _ _ _ _ _ _ _)

/-- Every pass that goes on has consumed input. -/
theorem lz4Sequence_cont_lt {m m' : Memory}
    {input inputSize output outputSize inputOffset outputOffset i o : Nat}
    (h : lz4Sequence m input inputSize output outputSize inputOffset outputOffset = .cont m' i o) :
    inputOffset < i := by
  obtain ⟨literalOffset, literalSize, hlit, -, -, -, hmatch⟩ := lz4Sequence_cont h
  obtain ⟨size, -, -, -, hsize, -⟩ := lz4Match_cont hmatch
  have h1 := readLength_le _ _ _ _ _ _ hlit
  have h2 := readLength_le _ _ _ _ _ _ hsize
  simp only at h1 h2
  omega

/-- The `while` loop of `lz4_decompress`. -/
def lz4DecompressLoop (m : Memory)
    (input inputSize output outputSize inputOffset outputOffset : Nat) : Bool × Memory :=
  if inputOffset < inputSize then
    match _h : lz4Sequence m input inputSize output outputSize inputOffset outputOffset with
    | .ret ok m => (ok, m)
    | .cont m i o => lz4DecompressLoop m input inputSize output outputSize i o
  else (outputOffset == outputSize, m)
termination_by inputSize - inputOffset
decreasing_by
  have := lz4Sequence_cont_lt _h
  omega

theorem lz4DecompressLoop_ret {m m' : Memory} {ok : Bool}
    {input inputSize output outputSize inputOffset outputOffset : Nat}
    (hlt : inputOffset < inputSize)
    (h : lz4Sequence m input inputSize output outputSize inputOffset outputOffset = .ret ok m') :
    lz4DecompressLoop m input inputSize output outputSize inputOffset outputOffset = (ok, m') := by
  rw [lz4DecompressLoop, if_pos hlt]
  split
  · next ok' m'' h' =>
      rw [h] at h'
      injection h' with h1 h2
      rw [h1, h2]
  · next h' => rw [h] at h'; cases h'

theorem lz4DecompressLoop_cont {m m' : Memory}
    {input inputSize output outputSize inputOffset outputOffset i o : Nat}
    (hlt : inputOffset < inputSize)
    (h : lz4Sequence m input inputSize output outputSize inputOffset outputOffset
      = .cont m' i o) :
    lz4DecompressLoop m input inputSize output outputSize inputOffset outputOffset
      = lz4DecompressLoop m' input inputSize output outputSize i o := by
  rw [lz4DecompressLoop, if_pos hlt]
  split
  · next h' => rw [h] at h'; cases h'
  · next m'' i' o' h' =>
      rw [h] at h'
      injection h' with h1 h2 h3
      rw [h1, h2, h3]

/-- `lz4_decompress`: the result and the memory it leaves. -/
def lz4Decompress (m : Memory) (input inputSize output outputSize : Nat) : Bool × Memory :=
  lz4DecompressLoop m input inputSize output outputSize 0 0

/-! ## The two copy loops -/

theorem copyLiterals_holds {input output inputSize outputSize : Nat}
    (hd : Memory.Disjoint input inputSize output outputSize) (hsize : outputSize ≤ addressSpace)
    (literals : List UInt8) :
    ∀ (m : Memory) (inputOffset : Nat) (out : List UInt8),
      m.Holds input inputOffset literals → inputOffset + literals.length ≤ inputSize →
      m.Holds output 0 out → out.length + literals.length ≤ outputSize →
      (copyLiterals m input inputOffset output out.length literals.length).Holds output 0
          (out ++ literals) ∧
        Memory.SameOutside m
          (copyLiterals m input inputOffset output out.length literals.length) output
          outputSize := by
  induction literals with
  | nil =>
      intro m inputOffset out _ _ hout _
      simpa [copyLiterals] using ⟨hout, Memory.SameOutside.refl m output outputSize⟩
  | cons b rest ih =>
      intro m inputOffset out hin hi hout ho
      simp only [List.length_cons] at hi ho
      rw [Memory.holds_cons] at hin
      obtain ⟨hb, hrest⟩ := hin
      have hwrite : Memory.SameOutside m (m.write output out.length b) output outputSize :=
        Memory.sameOutside_write m b (by omega)
      have hnext := ih (m.write output out.length b) (inputOffset + 1) (out ++ [b])
        (hrest.of_sameOutside hwrite hd (by omega)) (by omega) (hout.snoc b (by omega))
        (by simp; omega)
      simp only [List.length_append, List.length_singleton, List.append_assoc,
        List.singleton_append] at hnext
      simp only [List.length_cons, copyLiterals, hb]
      exact ⟨hnext.1, hwrite.trans hnext.2⟩

theorem copyMatchBytes_holds {output outputSize distance : Nat}
    (hsize : outputSize ≤ addressSpace) (hpos : 0 < distance) (n : Nat) :
    ∀ (m : Memory) (out : List UInt8), m.Holds output 0 out → distance ≤ out.length →
      out.length + n ≤ outputSize →
      (copyMatchBytes m output out.length distance n).Holds output 0 (copyMatch out distance n) ∧
        Memory.SameOutside m (copyMatchBytes m output out.length distance n) output
          outputSize := by
  induction n with
  | zero =>
      intro m out hout _ _
      exact ⟨hout, Memory.SameOutside.refl m output outputSize⟩
  | succ n ih =>
      intro m out hout hle ho
      have hread : m.read output (out.length - distance)
          = out.getD (out.length - distance) default := by
        have := hout (out.length - distance) (by omega)
        rw [Nat.zero_add] at this
        rw [this, List.getD_eq_getElem?_getD, List.getElem?_eq_getElem (by omega), Option.getD_some]
      have hwrite : Memory.SameOutside m (m.write output out.length
          (out.getD (out.length - distance) default)) output outputSize :=
        Memory.sameOutside_write m _ (by omega)
      have hnext := ih (m.write output out.length (out.getD (out.length - distance) default))
        (out ++ [out.getD (out.length - distance) default]) (hout.snoc _ (by omega))
        (by simp; omega) (by simp; omega)
      simp only [List.length_append, List.length_singleton] at hnext
      simp only [copyMatchBytes, hread, copyMatch]
      exact ⟨hnext.1, hwrite.trans hnext.2⟩

/-! ## Reading a length -/

theorem readLengthLoop_extensionBytes (m : Memory) (input inputSize : Nat) (excess : Nat) :
    ∀ (inputOffset length : Nat), m.Holds input inputOffset (Lz4.extensionBytes excess) →
      inputOffset + (Lz4.extensionBytes excess).length ≤ inputSize → length + excess < 2 ^ 32 →
      readLengthLoop m input inputSize inputOffset length
        = some (inputOffset + (Lz4.extensionBytes excess).length, length + excess) := by
  induction excess using Nat.strong_induction_on with
  | _ excess ih =>
      intro inputOffset length hm hsize hlt
      by_cases hge : 0xFF ≤ excess
      · rw [Lz4.extensionBytes_of_ge hge] at hm hsize ⊢
        rw [Memory.holds_cons] at hm
        simp only [List.length_cons] at hsize ⊢
        rw [readLengthLoop, if_pos (by omega)]
        simp only [hm.1, if_true, show (0xFF : UInt8).toNat = 0xFF from rfl]
        rw [wrap32_of_lt (by omega), ih (excess - 0xFF) (by omega) _ _ hm.2 (by omega) (by omega)]
        simp only [Option.some.injEq, Prod.mk.injEq]
        omega
      · rw [Lz4.extensionBytes_of_lt (by omega)] at hm hsize ⊢
        simp only [Memory.holds_singleton, List.length_singleton] at hm hsize ⊢
        have hval : (UInt8.ofNat excess).toNat = excess := by
          have : (UInt8.ofNat excess).toNat = excess % 256 := UInt8.toNat_ofNat'
          omega
        have hne : UInt8.ofNat excess ≠ 0xFF := by
          intro he
          rw [he] at hval
          simp at hval
          omega
        rw [readLengthLoop, if_pos (by omega)]
        simp only [hm, if_neg hne, hval]
        rw [wrap32_of_lt (by omega)]

/-- The decoder recovers an encoded length from its nibble and its extension bytes. -/
theorem readLength_lengthBytes {m : Memory} {input inputSize inputOffset length : Nat}
    (hm : m.Holds input inputOffset (Lz4.lengthBytes length))
    (hsize : inputOffset + (Lz4.lengthBytes length).length ≤ inputSize) (hlt : length < 2 ^ 32) :
    readLength m input inputSize inputOffset (min length Lz4.lengthEscape)
      = some (inputOffset + (Lz4.lengthBytes length).length, length) := by
  by_cases hshort : length < Lz4.lengthEscape
  · have hne : min length Lz4.lengthEscape ≠ 0x0F := by
      simp only [Lz4.lengthEscape] at *
      omega
    rw [readLength, if_pos hne, Lz4.lengthBytes_of_lt hshort, Nat.min_eq_left (by omega)]
    rfl
  · have heq : min length Lz4.lengthEscape = 0x0F := by
      simp only [Lz4.lengthEscape] at *
      omega
    rw [Lz4.lengthBytes_of_ge (by omega)] at hm hsize ⊢
    simp only [Lz4.lengthEscape] at *
    rw [readLength, heq, if_neg (by simp),
      readLengthLoop_extensionBytes m input inputSize _ _ _ hm hsize (by omega),
      Nat.add_sub_of_le (by omega)]

/-! ## Decoding a block -/

/-- The distance field of an encoded sequence. -/
theorem matchOffsetAt_of_holds {m : Memory} {input inputOffset distance : Nat}
    (hm : m.Holds input inputOffset (leBytes 2 distance)) (hlt : distance < 0x10000) :
    matchOffsetAt m input inputOffset = distance := by
  simp only [leBytes, Memory.holds_cons] at hm
  have hlow : (UInt8.ofNat distance).toNat = distance % 256 := UInt8.toNat_ofNat'
  have hhigh : (UInt8.ofNat (distance / 256)).toNat = distance / 256 % 256 := UInt8.toNat_ofNat'
  rw [matchOffsetAt, hm.1, hm.2.1, hlow, hhigh, Nat.or_comm,
    ← Nat.shiftLeft_add_eq_or_of_lt (by omega), Nat.shiftLeft_eq]
  omega

theorem token_shiftRight (literals excess : Nat) :
    (Lz4.token literals excess).toNat >>> 4 = min literals Lz4.lengthEscape := by
  rw [Lz4.token_toNat, Nat.shiftRight_eq_div_pow]
  simp only [Lz4.lengthEscape]
  omega

theorem token_and (literals excess : Nat) :
    (Lz4.token literals excess).toNat &&& 0x0F = min excess Lz4.lengthEscape := by
  rw [Lz4.token_toNat, show (0x0F : Nat) = 2 ^ 4 - 1 from rfl, Nat.and_two_pow_sub_one_eq_mod]
  simp only [Lz4.lengthEscape]
  omega

section Block

variable {input inputSize output outputSize : Nat}

/-- The match part of a complete sequence: `out` already ends with the literals. -/
theorem lz4Match_bytes (literals : Nat) (hin : inputSize < 2 ^ 32) (hout : outputSize < 2 ^ 32)
    {m : Memory} {inputOffset distance excess : Nat} {out : List UInt8}
    (hm : m.Holds input inputOffset (leBytes 2 distance ++ Lz4.lengthBytes excess))
    (hi : inputOffset + 2 + (Lz4.lengthBytes excess).length ≤ inputSize)
    (ho : m.Holds output 0 out) (hpos : 0 < distance) (h16 : distance < 0x10000)
    (hle : distance ≤ out.length) (hfit : out.length + (excess + 4) ≤ outputSize) :
    ∃ m', lz4Match m input inputSize output outputSize inputOffset out.length
          (Lz4.token literals excess)
        = .cont m' (inputOffset + 2 + (Lz4.lengthBytes excess).length)
            (out.length + (excess + 4)) ∧
      m'.Holds output 0 (copyMatch out distance (excess + 4)) ∧
      Memory.SameOutside m m' output outputSize := by
  rw [Memory.holds_append, leBytes_length] at hm
  have hread := readLength_lengthBytes hm.2 hi (by omega)
  obtain ⟨hcopy, hsame⟩ := copyMatchBytes_holds (by simp only [addressSpace]; omega) hpos
    (excess + 4) m out ho hle hfit
  refine ⟨_, ?_, hcopy, hsame⟩
  simp only [lz4Match, token_and, matchOffsetAt_of_holds hm.1 h16, hread]
  rw [sub32_of_le (by omega) hin, sub32_of_le (by omega) hout, wrap32_of_lt (by omega),
    if_neg (by omega), if_neg (by omega), if_neg (by omega)]

/-- One pass over a complete sequence: the loop goes on behind it with the sequence's text
    appended. -/
theorem lz4Sequence_bytes (hd : Memory.Disjoint input inputSize output outputSize)
    (hin : inputSize < 2 ^ 32) (hout : outputSize < 2 ^ 32) {m : Memory} {inputOffset : Nat}
    {out : List UInt8} {s : Lz4.Sequence} (hm : m.Holds input inputOffset s.bytes)
    (hi : inputOffset + s.bytes.length ≤ inputSize) (ho : m.Holds output 0 out)
    (hv : s.Valid out) (hfit : (s.expand out).length ≤ outputSize) :
    ∃ m', lz4Sequence m input inputSize output outputSize inputOffset out.length
        = .cont m' (inputOffset + s.bytes.length) (s.expand out).length ∧
      m'.Holds output 0 (s.expand out) ∧ Memory.SameOutside m m' output outputSize := by
  obtain ⟨hpos, h16, hle⟩ := hv
  rw [Lz4.Sequence.expand_length] at hfit
  simp only [Lz4.minMatch] at hfit
  have hlen : s.bytes.length = 1 + (Lz4.lengthBytes s.literals.length).length + s.literals.length
      + 2 + (Lz4.lengthBytes s.excess).length := by
    simp [Lz4.Sequence.bytes]
    omega
  rw [Lz4.Sequence.bytes, List.append_assoc, List.append_assoc, Memory.holds_cons,
    Memory.holds_append, Memory.holds_append] at hm
  obtain ⟨htok, hlext, hlits, hrest⟩ := hm
  have hread := readLength_lengthBytes hlext (show _ ≤ inputSize by omega) (by omega)
  obtain ⟨hlitout, hlitsame⟩ := copyLiterals_holds hd (by simp only [addressSpace]; omega)
    s.literals m _ out hlits (by omega) ho (by omega)
  -- the rest of the sequence is still in the input buffer after the literals were stored
  have hrest' := hrest.of_sameOutside hlitsame hd (by simp; omega)
  obtain ⟨m', hmatch, hcopy, hsame⟩ := lz4Match_bytes s.literals.length hin hout
    hrest' (by omega) hlitout hpos h16 (by simpa using hle) (by simp; omega)
  refine ⟨m', ?_, hcopy, hlitsame.trans hsame⟩
  rw [List.length_append] at hmatch
  simp only [lz4Sequence, htok, token_shiftRight, hread, hmatch]
  rw [sub32_of_le (by omega) hin, sub32_of_le (by omega) hout, if_neg (by omega),
    if_neg (by omega), if_neg (by omega), Lz4.Sequence.expand_length, hlen]
  simp only [Lz4.minMatch]
  congr 1
  omega

/-- The pass over a literal-only sequence at the end of the input leaves the function. -/
theorem lz4Sequence_tail (hd : Memory.Disjoint input inputSize output outputSize)
    (hin : inputSize < 2 ^ 32) (hout : outputSize < 2 ^ 32) {m : Memory} {inputOffset : Nat}
    {out : List UInt8} {t : Lz4.Tail} (hm : m.Holds input inputOffset t.bytes)
    (hi : inputOffset + t.bytes.length = inputSize) (ho : m.Holds output 0 out)
    (hfit : out.length + t.literals.length ≤ outputSize) :
    ∃ m', lz4Sequence m input inputSize output outputSize inputOffset out.length
        = .ret (out.length + t.literals.length == outputSize) m' ∧
      m'.Holds output 0 (out ++ t.literals) ∧ Memory.SameOutside m m' output outputSize := by
  have hlen : t.bytes.length = 1 + (Lz4.lengthBytes t.literals.length).length
      + t.literals.length := by
    simp [Lz4.Tail.bytes]
    omega
  rw [Lz4.Tail.bytes, Memory.holds_cons, Memory.holds_append] at hm
  obtain ⟨htok, hlext, hlits⟩ := hm
  have hread := readLength_lengthBytes hlext (show _ ≤ inputSize by omega) (by omega)
  obtain ⟨hlitout, hlitsame⟩ := copyLiterals_holds hd (by simp only [addressSpace]; omega)
    t.literals m _ out hlits (by omega) ho (by omega)
  refine ⟨_, ?_, hlitout, hlitsame⟩
  simp only [lz4Sequence, htok, token_shiftRight, hread]
  rw [sub32_of_le (by omega) hin, sub32_of_le (by omega) hout, if_neg (by omega),
    if_neg (by omega), if_pos (by omega)]

/-- The loop over the rest of a block, the text so far being in the output buffer. -/
theorem lz4DecompressLoop_block (hd : Memory.Disjoint input inputSize output outputSize)
    (hin : inputSize < 2 ^ 32) (hout : outputSize < 2 ^ 32) (tail : Option Lz4.Tail)
    (ss : List Lz4.Sequence) :
    ∀ (m : Memory) (inputOffset : Nat) (out : List UInt8),
      m.Holds input inputOffset (Lz4.Block.bytes ⟨ss, tail⟩) →
      inputOffset + (Lz4.Block.bytes ⟨ss, tail⟩).length = inputSize →
      m.Holds output 0 out → Lz4.ValidAll out ss →
      (Lz4.expandAll out ss ++ (tail.map Lz4.Tail.literals).getD []).length = outputSize →
      ∃ m', lz4DecompressLoop m input inputSize output outputSize inputOffset out.length
          = (true, m') ∧
        m'.Holds output 0 (Lz4.expandAll out ss ++ (tail.map Lz4.Tail.literals).getD []) ∧
        Memory.SameOutside m m' output outputSize := by
  induction ss with
  | nil =>
      intro m inputOffset out hm hi ho _ hfit
      cases tail with
      | none =>
          simp only [Lz4.Block.bytes, Lz4.expandAll, List.map_nil, List.flatten_nil,
            Option.map_none, Option.getD_none, List.append_nil, List.length_nil,
            List.foldl_nil] at hi hfit ⊢
          refine ⟨m, ?_, ho, Memory.SameOutside.refl m output outputSize⟩
          rw [lz4DecompressLoop, if_neg (by omega), hfit, beq_self_eq_true]
      | some t =>
          simp only [Lz4.Block.bytes, Lz4.expandAll, List.map_nil, List.flatten_nil,
            List.nil_append, Option.map_some, Option.getD_some, List.foldl_nil,
            List.length_append] at hm hi hfit ⊢
          obtain ⟨m', hpass, hlit, hsame⟩ := lz4Sequence_tail hd hin hout hm hi ho (by omega)
          refine ⟨m', ?_, hlit, hsame⟩
          have hlt : inputOffset < inputSize := by
            rw [← hi]
            simp [Lz4.Tail.bytes]
          rw [lz4DecompressLoop_ret hlt hpass, hfit, beq_self_eq_true]
  | cons s ss ih =>
      intro m inputOffset out hm hi ho hv hfit
      obtain ⟨hs, hss⟩ := hv
      have hbytes : Lz4.Block.bytes ⟨s :: ss, tail⟩ = s.bytes ++ Lz4.Block.bytes ⟨ss, tail⟩ := by
        simp [Lz4.Block.bytes]
      rw [hbytes, Memory.holds_append] at hm
      rw [hbytes, List.length_append] at hi
      have hexp : Lz4.expandAll out (s :: ss) = Lz4.expandAll (s.expand out) ss := rfl
      rw [hexp] at hfit ⊢
      have hle := Lz4.length_le_expandAll (s.expand out) ss
      rw [List.length_append] at hfit
      obtain ⟨m', hpass, hout', hsame⟩ :=
        lz4Sequence_bytes hd hin hout hm.1 (by omega) ho hs (by omega)
      obtain ⟨m'', hloop, hres, hsame'⟩ := ih m' (inputOffset + s.bytes.length) (s.expand out)
        (hm.2.of_sameOutside hsame hd (by omega)) (by omega) hout' hss
        (by rw [List.length_append]; exact hfit)
      have hlt : inputOffset < inputSize := by
        have : 0 < s.bytes.length := by simp [Lz4.Sequence.bytes]
        omega
      exact ⟨m'', by rw [lz4DecompressLoop_cont hlt hpass, hloop], hres, hsame.trans hsame'⟩

/-- **The decoder decodes every valid block** whose text has the expected size, and writes only
    its output buffer. -/
theorem lz4Decompress_block {m : Memory} {b : Lz4.Block}
    (hm : m.Holds input 0 b.bytes) (hv : b.Valid) (hsize : b.expand.length < 2 ^ 32)
    (hd : Memory.Disjoint input b.bytes.length output b.expand.length)
    (hin : b.bytes.length < 2 ^ 32) :
    ∃ m', lz4Decompress m input b.bytes.length output b.expand.length = (true, m') ∧
      m'.Holds output 0 b.expand ∧ Memory.SameOutside m m' output b.expand.length :=
  lz4DecompressLoop_block hd hin hsize b.tail b.sequences m 0 [] hm (by simp)
    (Memory.holds_nil m output 0) hv rfl

end Block

end Pmb887x.Preloader
