import Pmb887x.Preloader.Lz4

set_option autoImplicit false

/-! # What the decoder accepts

The converse of `lz4Decompress_block`: whenever `lz4Decompress` answers `true`, the input is the
encoding of a valid block whose text has the expected size, and that text is in the output buffer.
The length accumulator of `read_length` is a `uint32_t`; `255 * inputSize + 19 < 2^32` is the bound
below which it cannot wrap, far above the command's limit of `0x1000` bytes. -/

namespace Pmb887x.Preloader

open Library

/-! ## Lengths -/

/-- The loop of `read_length` has read the extension bytes of what it added. -/
theorem readLengthLoop_sound (m : Memory) (input inputSize : Nat) (inputOffset length : Nat)
    (r : Nat × Nat) (hwrap : length + 0xFF * (inputSize - inputOffset) < 2 ^ 32)
    (h : readLengthLoop m input inputSize inputOffset length = some r) :
    ∃ excess, r.2 = length + excess ∧ m.Holds input inputOffset (Lz4.extensionBytes excess) ∧
      r.1 = inputOffset + (Lz4.extensionBytes excess).length ∧ r.1 ≤ inputSize := by
  fun_induction readLengthLoop m input inputSize inputOffset length with
  | case1 inputOffset length hlt value length' hv ih =>
      have hval : value.toNat = 0xFF := by rw [hv]; rfl
      have hlen : length' = length + 0xFF := by
        simp only [length', hval]
        exact wrap32_of_lt (by omega)
      obtain ⟨excess, h2, hm, h1, hle⟩ := ih (by omega) h
      refine ⟨excess + 0xFF, by omega, ?_, ?_, hle⟩
      · rw [Lz4.extensionBytes_of_ge (by omega), Nat.add_sub_cancel, Memory.holds_cons]
        exact ⟨hv, hm⟩
      · rw [Lz4.extensionBytes_of_ge (by omega), Nat.add_sub_cancel, List.length_cons]
        omega
  | case2 inputOffset length hlt value length' hv =>
      have hval : value.toNat < 0xFF := by
        have h256 := value.toNat_lt
        by_contra hge
        exact hv (UInt8.toNat_inj.1 (by
          rw [show (0xFF : UInt8).toNat = 0xFF from rfl]
          omega))
      have hlen : length' = length + value.toNat := wrap32_of_lt (by omega)
      simp only [Option.some.injEq] at h
      subst h
      refine ⟨value.toNat, hlen, ?_, ?_, by omega⟩
      · rw [Lz4.extensionBytes_of_lt hval, Memory.holds_singleton, UInt8.ofNat_toNat]
      · rw [Lz4.extensionBytes_of_lt hval]
        rfl
  | case3 => simp at h

/-- A length that was read is encoded by its nibble and the bytes skipped. -/
theorem readLength_sound {m : Memory} {input inputSize inputOffset nibble nextOffset length : Nat}
    (hwrap : 0xFF * inputSize + 19 < 2 ^ 32) (hle : inputOffset ≤ inputSize) (hn : nibble ≤ 15)
    (h : readLength m input inputSize inputOffset nibble = some (nextOffset, length)) :
    min length Lz4.lengthEscape = nibble ∧ m.Holds input inputOffset (Lz4.lengthBytes length) ∧
      nextOffset = inputOffset + (Lz4.lengthBytes length).length ∧ nextOffset ≤ inputSize ∧
      length + 4 < 2 ^ 32 := by
  unfold readLength at h
  split_ifs at h with hne
  · simp only [Option.some.injEq, Prod.mk.injEq] at h
    obtain ⟨rfl, rfl⟩ := h
    have hlt : nibble < Lz4.lengthEscape := by
      simp only [Lz4.lengthEscape]
      omega
    rw [Lz4.lengthBytes_of_lt hlt]
    exact ⟨Nat.min_eq_left (by omega), Memory.holds_nil _ _ _, rfl, hle, by omega⟩
  · obtain rfl : nibble = 0x0F := by omega
    obtain ⟨excess, hlen, hm, hoff, hsize⟩ :=
      readLengthLoop_sound m input inputSize inputOffset 0x0F _ (by omega) h
    simp only at hlen hoff hsize
    subst hlen
    have hbound : (Lz4.extensionBytes excess).length = excess / 0xFF + 1 := by
      simp [Lz4.extensionBytes]
    rw [Lz4.lengthBytes_of_ge (by simp only [Lz4.lengthEscape]; omega)]
    simp only [Lz4.lengthEscape, Nat.add_sub_cancel_left]
    exact ⟨by omega, hm, hoff, hsize, by omega⟩

/-! ## Sequences -/

theorem shiftRight_four_le (b : UInt8) : b.toNat >>> 4 ≤ 15 := by
  have := b.toNat_lt
  rw [Nat.shiftRight_eq_div_pow]
  omega

/-- A token is made of its nibbles. -/
theorem token_of_nibbles {b : UInt8} {literals excess : Nat}
    (hl : min literals Lz4.lengthEscape = b.toNat >>> 4)
    (he : min excess Lz4.lengthEscape = b.toNat &&& 0x0F) : Lz4.token literals excess = b := by
  apply UInt8.toNat_inj.1
  have hlow : b.toNat &&& 0x0F = b.toNat % 16 := Nat.and_two_pow_sub_one_eq_mod b.toNat 4
  rw [Lz4.token_toNat, hl, he, hlow, Nat.shiftRight_eq_div_pow]
  omega

/-- The two bytes of the distance field are its encoding. -/
theorem holds_matchOffsetAt (m : Memory) (input inputOffset : Nat) :
    m.Holds input inputOffset (leBytes 2 (matchOffsetAt m input inputOffset)) ∧
      matchOffsetAt m input inputOffset < 0x10000 := by
  have hlow := (m.read input inputOffset).toNat_lt
  have hhigh := (m.read input (inputOffset + 1)).toNat_lt
  have heq : matchOffsetAt m input inputOffset
      = (m.read input inputOffset).toNat + 256 * (m.read input (inputOffset + 1)).toNat := by
    rw [matchOffsetAt, Nat.or_comm, ← Nat.shiftLeft_add_eq_or_of_lt (by omega), Nat.shiftLeft_eq]
    omega
  refine ⟨?_, by omega⟩
  rw [heq, leBytes, leBytes, leBytes, Memory.holds_cons, Memory.holds_singleton]
  constructor
  · apply UInt8.toNat_inj.1
    rw [UInt8.toNat_ofNat']
    omega
  · apply UInt8.toNat_inj.1
    rw [UInt8.toNat_ofNat']
    omega

section Sound

variable {input inputSize output outputSize : Nat}

/-- The literals a pass copies, as a byte string. -/
theorem literals_sound (hd : Memory.Disjoint input inputSize output outputSize)
    (hwrap : 0xFF * inputSize + 19 < 2 ^ 32) (hout : outputSize < 2 ^ 32) {m : Memory}
    {inputOffset literalOffset literalSize : Nat} {out : List UInt8}
    (hi : inputOffset < inputSize) (ho : m.Holds output 0 out) (hole : out.length ≤ outputSize)
    (hread : readLength m input inputSize (inputOffset + 1)
      ((m.read input inputOffset).toNat >>> 4) = some (literalOffset, literalSize))
    (hin : literalSize ≤ sub32 inputSize literalOffset)
    (hfit : literalSize ≤ sub32 outputSize out.length) :
    ∃ literals : List UInt8, literals.length = literalSize ∧
      min literals.length Lz4.lengthEscape = (m.read input inputOffset).toNat >>> 4 ∧
      m.Holds input (inputOffset + 1) (Lz4.lengthBytes literals.length ++ literals) ∧
      literalOffset = inputOffset + 1 + (Lz4.lengthBytes literals.length).length ∧
      literalOffset + literals.length ≤ inputSize ∧ out.length + literals.length ≤ outputSize ∧
      (copyLiterals m input literalOffset output out.length literalSize).Holds output 0
        (out ++ literals) ∧
      Memory.SameOutside m (copyLiterals m input literalOffset output out.length literalSize)
        output outputSize := by
  obtain ⟨hnib, hext, hoff, hle, -⟩ :=
    readLength_sound hwrap (by omega) (shiftRight_four_le _) hread
  rw [sub32_of_le hle (by omega)] at hin
  rw [sub32_of_le hole hout] at hfit
  have hlits := m.holds_readBytes input literalOffset literalSize
  obtain ⟨hcopy, hsame⟩ := copyLiterals_holds hd (by simp only [addressSpace]; omega)
    (m.readBytes input literalOffset literalSize) m literalOffset out hlits (by simp; omega) ho
    (by simp; omega)
  rw [Memory.readBytes_length] at hcopy hsame
  refine ⟨m.readBytes input literalOffset literalSize, by simp, by simpa using hnib, ?_,
    by simpa using hoff, by simp; omega, by simp; omega, hcopy, hsame⟩
  rw [Memory.holds_append, Memory.readBytes_length, ← hoff]
  exact ⟨hext, hlits⟩

/-- A pass that goes on has consumed a complete, valid sequence and appended its text. -/
theorem lz4Sequence_cont_sound (hd : Memory.Disjoint input inputSize output outputSize)
    (hwrap : 0xFF * inputSize + 19 < 2 ^ 32) (hout : outputSize < 2 ^ 32) {m m' : Memory}
    {inputOffset i o : Nat} {out : List UInt8} (hi : inputOffset < inputSize)
    (ho : m.Holds output 0 out) (hole : out.length ≤ outputSize)
    (h : lz4Sequence m input inputSize output outputSize inputOffset out.length
      = .cont m' i o) :
    ∃ s : Lz4.Sequence, s.Valid out ∧ m.Holds input inputOffset s.bytes ∧
      i = inputOffset + s.bytes.length ∧ i ≤ inputSize ∧ o = (s.expand out).length ∧
      o ≤ outputSize ∧ m'.Holds output 0 (s.expand out) ∧
      Memory.SameOutside m m' output outputSize := by
  obtain ⟨literalOffset, literalSize, hlit, hin, hfit, hne, hmatch⟩ := lz4Sequence_cont h
  obtain ⟨literals, hlen, hnib, hbytes, hoff, hile, hfit', hcopy, hsame⟩ :=
    literals_sound hd hwrap hout hi ho hole hlit hin hfit
  subst hlen
  obtain ⟨size, htwo, hpos, hdle, hread, hmfit, rfl, rfl⟩ := lz4Match_cont hmatch
  rw [sub32_of_le (by omega) (by omega)] at htwo
  obtain ⟨hnibm, hextm, rfl, hile', hsize⟩ :=
    readLength_sound hwrap (by omega) Nat.and_le_right hread
  rw [wrap32_of_lt hsize] at hmfit ⊢
  rw [sub32_of_le hfit' hout] at hmfit
  obtain ⟨hdist, h16⟩ := holds_matchOffsetAt
    (copyLiterals m input literalOffset output out.length literals.length) input
    (literalOffset + literals.length)
  generalize matchOffsetAt (copyLiterals m input literalOffset output out.length literals.length)
    input (literalOffset + literals.length) = distance at *
  have hspace : outputSize ≤ addressSpace := by
    simp only [addressSpace]
    omega
  obtain ⟨hmcopy, hmsame⟩ := copyMatchBytes_holds hspace
    (Nat.pos_of_ne_zero hpos) (size + 4) _ (out ++ literals) hcopy (by simpa using hdle)
    (by simp; omega)
  rw [List.length_append] at hmcopy hmsame
  -- the match part was read after the literals had been stored; the input has not changed
  have hdist' := hdist.of_sameOutside hsame.symm hd (by simp; omega)
  have hextm' := hextm.of_sameOutside hsame.symm hd (by omega)
  have hlenb : (Lz4.Sequence.bytes ⟨literals, distance, size⟩).length
      = 1 + (Lz4.lengthBytes literals.length).length + literals.length + 2
        + (Lz4.lengthBytes size).length := by
    simp [Lz4.Sequence.bytes]
    omega
  refine ⟨⟨literals, distance, size⟩, ⟨Nat.pos_of_ne_zero hpos, h16, hdle⟩, ?_, by omega, hile',
    ?_, by omega, hmcopy, hsame.trans hmsame⟩
  · rw [Lz4.Sequence.bytes, Memory.holds_cons, List.append_assoc]
    refine ⟨(token_of_nibbles hnib hnibm).symm,
      Memory.holds_append.2 ⟨hbytes, Memory.holds_append.2 ⟨?_, ?_⟩⟩⟩
    · rw [show inputOffset + 1 + (Lz4.lengthBytes literals.length ++ literals).length
        = literalOffset + literals.length by simp; omega]
      exact hdist'
    · rw [show inputOffset + 1 + (Lz4.lengthBytes literals.length ++ literals).length
        + (leBytes 2 distance).length = literalOffset + literals.length + 2 by simp; omega]
      exact hextm'
  · rw [Lz4.Sequence.expand_length]
    simp only [Lz4.minMatch]
    omega

/-- A pass that returns `true` has consumed a literal-only sequence up to the end of the input. -/
theorem lz4Sequence_ret_sound (hd : Memory.Disjoint input inputSize output outputSize)
    (hwrap : 0xFF * inputSize + 19 < 2 ^ 32) (hout : outputSize < 2 ^ 32) {m m' : Memory}
    {inputOffset : Nat} {out : List UInt8} (hi : inputOffset < inputSize)
    (ho : m.Holds output 0 out) (hole : out.length ≤ outputSize)
    (h : lz4Sequence m input inputSize output outputSize inputOffset out.length
      = .ret true m') :
    ∃ t : Lz4.Tail, m.Holds input inputOffset t.bytes ∧
      inputOffset + t.bytes.length = inputSize ∧ (out ++ t.literals).length = outputSize ∧
      m'.Holds output 0 (out ++ t.literals) ∧ Memory.SameOutside m m' output outputSize := by
  obtain ⟨literalOffset, literalSize, hlit, hin, hfit, hend, hsize, rfl⟩ := lz4Sequence_ret_true h
  obtain ⟨literals, hlen, hnib, hbytes, hoff, hile, hfit', hcopy, hsame⟩ :=
    literals_sound hd hwrap hout hi ho hole hlit hin hfit
  subst hlen
  refine ⟨⟨literals, (m.read input inputOffset).toNat &&& 0x0F⟩, ?_, ?_, ?_, hcopy, hsame⟩
  · rw [Lz4.Tail.bytes, Memory.holds_cons]
    refine ⟨(token_of_nibbles hnib (Nat.min_eq_left ?_)).symm, hbytes⟩
    exact Nat.and_le_right
  · simp only [Lz4.Tail.bytes, List.length_cons, List.length_append]
    omega
  · rw [List.length_append]
    exact hsize

/-- The loop accepts only the rest of a valid block. -/
theorem lz4DecompressLoop_sound (hd : Memory.Disjoint input inputSize output outputSize)
    (hwrap : 0xFF * inputSize + 19 < 2 ^ 32) (hout : outputSize < 2 ^ 32) (n : Nat) :
    ∀ (m m' : Memory) (inputOffset : Nat) (out : List UInt8), inputSize - inputOffset = n →
      inputOffset ≤ inputSize → m.Holds output 0 out → out.length ≤ outputSize →
      lz4DecompressLoop m input inputSize output outputSize inputOffset out.length = (true, m') →
      ∃ (ss : List Lz4.Sequence) (tail : Option Lz4.Tail), Lz4.ValidAll out ss ∧
        m.Holds input inputOffset (Lz4.Block.bytes ⟨ss, tail⟩) ∧
        inputOffset + (Lz4.Block.bytes ⟨ss, tail⟩).length = inputSize ∧
        (Lz4.expandAll out ss ++ (tail.map Lz4.Tail.literals).getD []).length = outputSize ∧
        m'.Holds output 0 (Lz4.expandAll out ss ++ (tail.map Lz4.Tail.literals).getD []) ∧
        Memory.SameOutside m m' output outputSize := by
  induction n using Nat.strong_induction_on with
  | _ n ih =>
      intro m m' inputOffset out hn hi ho hole h
      by_cases hlt : inputOffset < inputSize
      · cases hpass : lz4Sequence m input inputSize output outputSize inputOffset out.length with
        | ret ok m'' =>
            rw [lz4DecompressLoop_ret hlt hpass] at h
            simp only [Prod.mk.injEq] at h
            obtain ⟨rfl, rfl⟩ := h
            obtain ⟨t, hm, hend, hsize, hout', hsame⟩ :=
              lz4Sequence_ret_sound hd hwrap hout hlt ho hole hpass
            exact ⟨[], some t, trivial, by simpa [Lz4.Block.bytes] using hm,
              by simpa [Lz4.Block.bytes] using hend, by simpa [Lz4.expandAll] using hsize,
              by simpa [Lz4.expandAll] using hout', hsame⟩
        | cont m'' i o =>
            rw [lz4DecompressLoop_cont hlt hpass] at h
            have hprog := lz4Sequence_cont_lt hpass
            obtain ⟨s, hv, hm, hieq, hile, rfl, hole', ho', hsame⟩ :=
              lz4Sequence_cont_sound hd hwrap hout hlt ho hole hpass
            obtain ⟨ss, tail, hvs, hms, hends, hsizes, hres, hsame'⟩ :=
              ih (inputSize - i) (by omega) m'' m' i (s.expand out) rfl hile ho' hole' h
            have hbytes : Lz4.Block.bytes ⟨s :: ss, tail⟩
                = s.bytes ++ Lz4.Block.bytes ⟨ss, tail⟩ := by
              simp [Lz4.Block.bytes]
            refine ⟨s :: ss, tail, ⟨hv, hvs⟩, ?_, ?_, hsizes, hres, hsame.trans hsame'⟩
            · rw [hbytes, Memory.holds_append, ← hieq]
              exact ⟨hm, hms.of_sameOutside hsame.symm hd (by omega)⟩
            · rw [hbytes, List.length_append]
              omega
      · rw [lz4DecompressLoop, if_neg hlt] at h
        simp only [Prod.mk.injEq, beq_iff_eq] at h
        obtain ⟨hsize, rfl⟩ := h
        exact ⟨[], none, trivial, by simp [Lz4.Block.bytes], by simp [Lz4.Block.bytes]; omega,
          by simpa [Lz4.expandAll] using hsize, by simpa [Lz4.expandAll] using ho,
          Memory.SameOutside.refl m output outputSize⟩

/-- **What the decoder accepts is a valid block** with a text of the expected size, and that text is
    what it leaves in the output buffer. -/
theorem lz4Decompress_sound (hd : Memory.Disjoint input inputSize output outputSize)
    (hwrap : 0xFF * inputSize + 19 < 2 ^ 32) (hout : outputSize < 2 ^ 32) {m m' : Memory}
    (h : lz4Decompress m input inputSize output outputSize = (true, m')) :
    ∃ b : Lz4.Block, b.Valid ∧ b.bytes = m.readBytes input 0 inputSize ∧
      b.expand.length = outputSize ∧ m'.Holds output 0 b.expand ∧
      Memory.SameOutside m m' output outputSize := by
  obtain ⟨ss, tail, hv, hm, hend, hsize, hres, hsame⟩ :=
    lz4DecompressLoop_sound hd hwrap hout _ m m' 0 [] rfl (Nat.zero_le _)
      (Memory.holds_nil m output 0) (Nat.zero_le _) h
  refine ⟨⟨ss, tail⟩, hv, ?_, hsize, hres, hsame⟩
  rw [← hm.readBytes_eq]
  congr 1
  omega

end Sound

end Pmb887x.Preloader
