import Pmb887x.Library.CrcPolynomial

set_option autoImplicit false

/-! # Few errors and checksums

The register is linear in the register and the message, so whether two messages leave the same register
depends on the places where they differ alone (`crcBits_differences`). A generator with the root 1 sees every
odd number of errors; if it also sees every two errors up to a length, it sees up to three errors there
(`crcBits_ne_of_few`). The last section has the registers that are shifted the other way. -/

namespace Pmb887x.Library

open Polynomial

variable {w : Nat}

/-! ## Linearity -/

/-- Where two strings differ. -/
def differences (bits bits' : List Bool) : List Bool := List.zipWith (· ^^ ·) bits bits'

theorem crcBit_eq_xor (poly reg : BitVec w) (bit : Bool) :
    crcBit poly reg bit = (reg >>> 1) ^^^ (if reg.getLsbD 0 ^^ bit then poly else 0#w) := by
  rw [crcBit]
  cases reg.getLsbD 0 ^^ bit with
  | true => rw [if_pos rfl, if_pos rfl]
  | false => rw [if_neg Bool.false_ne_true, if_neg Bool.false_ne_true, BitVec.xor_zero]

theorem crcBit_xor (poly a b : BitVec w) (x y : Bool) :
    crcBit poly (a ^^^ b) (x ^^ y) = crcBit poly a x ^^^ crcBit poly b y := by
  have hbits : ((a.getLsbD 0 ^^ b.getLsbD 0) ^^ (x ^^ y))
      = ((a.getLsbD 0 ^^ x) ^^ (b.getLsbD 0 ^^ y)) := by
    cases a.getLsbD 0 <;> cases b.getLsbD 0 <;> cases x <;> cases y <;> rfl
  have hpoly : ∀ p q : Bool, (if p ^^ q then poly else 0#w)
      = (if p then poly else 0#w) ^^^ (if q then poly else 0#w) := by
    intro p q
    cases p <;> cases q <;> simp
  rw [crcBit_eq_xor, crcBit_eq_xor, crcBit_eq_xor, BitVec.getLsbD_xor, hbits, hpoly,
    BitVec.ushiftRight_xor_distrib]
  ac_rfl

theorem crcBits_differences (poly : BitVec w) {bits bits' : List Bool}
    (h : bits.length = bits'.length) (a b : BitVec w) :
    crcBits poly (a ^^^ b) (differences bits bits') = crcBits poly a bits ^^^ crcBits poly b bits' := by
  induction bits generalizing bits' a b with
  | nil =>
      obtain rfl := List.length_eq_zero_iff.mp h.symm
      rfl
  | cons bit bits ih =>
      cases bits' with
      | nil => cases h
      | cons bit' bits' =>
          change crcBits poly (crcBit poly (a ^^^ b) (bit ^^ bit')) (differences bits bits') = _
          rw [crcBit_xor, ih (Nat.succ.inj h)]
          rfl

/-- Messages with one register differ by a message that leaves no trace. -/
theorem crcBits_differences_eq_zero {poly reg : BitVec w} {bits bits' : List Bool}
    (hlength : bits.length = bits'.length) (h : crcBits poly reg bits = crcBits poly reg bits') :
    crcBits poly 0#w (differences bits bits') = 0#w := by
  have hzero : (0#w) = reg ^^^ reg := BitVec.xor_self.symm
  rw [hzero, crcBits_differences poly hlength, h, BitVec.xor_self, BitVec.xor_self]

theorem true_mem_differences {bits bits' : List Bool} (hlength : bits.length = bits'.length)
    (hne : bits ≠ bits') : true ∈ differences bits bits' := by
  induction bits generalizing bits' with
  | nil => exact absurd (List.length_eq_zero_iff.mp hlength.symm).symm hne
  | cons bit bits ih =>
      cases bits' with
      | nil => cases hlength
      | cons bit' bits' =>
          change true ∈ (bit ^^ bit') :: differences bits bits'
          by_cases hbit : bit = bit'
          · refine List.mem_cons_of_mem _ (ih (Nat.succ.inj hlength) fun htail => hne ?_)
            rw [hbit, htail]
          · have hxor : (bit ^^ bit') = true := by
              cases bit <;> cases bit' <;> first | rfl | exact absurd rfl hbit
            rw [hxor]
            exact List.mem_cons_self

/-! ## Odd numbers of errors -/

theorem eval_one_messagePoly (bits : List Bool) :
    (messagePoly bits).eval 1 = (bits.count true : ZMod 2) := by
  induction bits with
  | nil => rw [messagePoly, eval_zero, List.count_nil, Nat.cast_zero]
  | cons bit bits ih =>
      rw [messagePoly, eval_add, eval_mul, eval_pow, eval_X, one_pow, mul_one, ih, bitPoly, eval_C]
      cases bit with
      | true => rw [if_pos rfl, List.count_cons_self, Nat.cast_succ, add_comm]
      | false => rw [if_neg Bool.false_ne_true, List.count_cons_of_ne Bool.false_ne_true, zero_add]

theorem eval_one_generatorPoly (poly : BitVec w) :
    (generatorPoly poly).eval 1
      = 1 + ∑ i ∈ Finset.range w, if poly.getMsbD i then (1 : ZMod 2) else 0 := by
  have hregister : (registerPoly poly).eval 1
      = ∑ i ∈ Finset.range w, if poly.getMsbD i then (1 : ZMod 2) else 0 := by
    by_cases hw : w = 0
    · subst hw
      rw [show registerPoly poly = 0 from Polynomial.ext fun k => by
        rw [coeff_registerPoly, BitVec.getMsbD_of_ge _ _ (Nat.zero_le k)]
        rfl]
      rw [eval_zero, Finset.sum_range_zero]
    · have hdegree : (registerPoly poly).natDegree < w := by
        by_cases hzero : registerPoly poly = 0
        · rw [hzero, natDegree_zero]
          exact Nat.pos_of_ne_zero hw
        · exact (natDegree_lt_iff_degree_lt hzero).mpr (degree_registerPoly_lt poly)
      rw [eval_eq_sum_range' hdegree]
      refine Finset.sum_congr rfl fun i _ => ?_
      rw [coeff_registerPoly, one_pow, mul_one]
  rw [generatorPoly, eval_add, eval_pow, eval_X, one_pow, hregister]

/-- A message that leaves no trace has an even number of ones. -/
theorem even_of_crcBits_eq_zero (hw : 0 < w) {poly : BitVec w} (hroot : (generatorPoly poly).eval 1 = 0)
    {bits : List Bool} (h : crcBits poly 0#w bits = 0#w) : Even (bits.count true) := by
  have hnone : registerPoly (0#w) = 0 := Polynomial.ext fun k => by
    rw [coeff_registerPoly, BitVec.getMsbD_zero]
    rfl
  obtain ⟨q, hq⟩ := exists_crcBits_quotient hw poly bits 0#w
  have hone := congrArg (eval 1) hq
  rw [h, hnone, eval_add, eval_mul, hroot, eval_add, eval_mul, eval_mul, eval_zero, zero_mul, zero_mul,
    eval_pow, eval_X, one_pow, mul_one, zero_add, zero_add, eval_one_messagePoly] at hone
  exact (ZMod.natCast_eq_zero_iff_even).mp hone.symm

/-- **An odd number of errors is seen.** -/
theorem crcBits_ne_of_odd (hw : 0 < w) {poly : BitVec w} (hroot : (generatorPoly poly).eval 1 = 0)
    (reg : BitVec w) {bits bits' : List Bool} (hlength : bits.length = bits'.length)
    (hodd : Odd ((differences bits bits').count true)) :
    crcBits poly reg bits ≠ crcBits poly reg bits' := by
  intro hsame
  have heven := even_of_crcBits_eq_zero hw hroot (crcBits_differences_eq_zero hlength hsame)
  exact (Nat.not_even_iff_odd.mpr hodd) heven

/-! ## Two errors -/

theorem crcBits_zeros (poly : BitVec w) (n : Nat) : crcBits poly 0#w (List.replicate n false) = 0#w := by
  induction n with
  | zero => rfl
  | succ n ih =>
      have hshift : crcBit poly 0#w false = 0#w := by
        rw [crcBit_eq_xor, BitVec.getLsbD_zero, Bool.xor_false, if_neg Bool.false_ne_true,
          BitVec.zero_ushiftRight, BitVec.xor_self]
      rw [List.replicate_succ]
      change crcBits poly (crcBit poly 0#w false) (List.replicate n false) = 0#w
      rw [hshift, ih]

/-- Zeros do not clear a register. -/
theorem eq_zero_of_crcBits_zeros {poly reg : BitVec w} (hlow : poly.getMsbD 0 = true) {n : Nat}
    (h : crcBits poly reg (List.replicate n false) = 0#w) : reg = 0#w := by
  induction n generalizing reg with
  | zero => exact h
  | succ n ih =>
      rw [List.replicate_succ] at h
      have hshift : crcBit poly reg false = 0#w := ih h
      rw [crcBit_eq_xor, Bool.xor_false] at hshift
      cases hbit : reg.getLsbD 0 with
      | true =>
          -- the constant coefficient would stand at the top
          rw [hbit, if_pos rfl] at hshift
          have htop := congrArg (fun r => r.getMsbD 0) hshift
          simp only [BitVec.getMsbD_xor, hlow, BitVec.getMsbD_ushiftRight, BitVec.getMsbD_zero] at htop
          simp at htop
      | false =>
          rw [hbit, if_neg Bool.false_ne_true, BitVec.xor_zero] at hshift
          refine BitVec.eq_of_getLsbD_eq fun i hi => ?_
          rw [BitVec.getLsbD_zero]
          cases i with
          | zero => exact hbit
          | succ i =>
              have hi' := congrArg (fun r => r.getLsbD i) hshift
              simpa [BitVec.getLsbD_ushiftRight, Nat.add_comm 1 i] using hi'

/-- The first one of a message. -/
theorem exists_first_true {bits : List Bool} (h : true ∈ bits) :
    ∃ n back, bits = List.replicate n false ++ true :: back := by
  induction bits with
  | nil => cases h
  | cons bit bits ih =>
      cases bit with
      | true => exact ⟨0, bits, rfl⟩
      | false =>
          obtain ⟨n, back, hback⟩ := ih ((List.mem_cons.mp h).resolve_left Bool.false_ne_true.symm)
          exact ⟨n + 1, back, by rw [hback, List.replicate_succ, List.cons_append]⟩

theorem eq_replicate_of_not_mem {bits : List Bool} (h : true ∉ bits) :
    bits = List.replicate bits.length false :=
  List.eq_replicate_of_mem fun bit hbit => by
    cases bit with
    | true => exact absurd hbit h
    | false => rfl

/-- A message with two ones. -/
theorem exists_two_trues {bits : List Bool} (h : bits.count true = 2) :
    ∃ front between back, bits = List.replicate front false
      ++ (true :: (List.replicate between false ++ [true]) ++ List.replicate back false) := by
  have hmem : true ∈ bits := List.count_pos_iff.mp (by omega)
  obtain ⟨front, rest, rfl⟩ := exists_first_true hmem
  have hrest : rest.count true = 1 := by
    rw [List.count_append, List.count_cons_self, List.count_replicate] at h
    simpa using h
  obtain ⟨between, last, rfl⟩ := exists_first_true (List.count_pos_iff.mp (by omega : 0 < rest.count true))
  have hlast : true ∉ last := by
    rw [List.count_append, List.count_cons_self, List.count_replicate] at hrest
    exact List.count_eq_zero.mp (by simpa using hrest)
  refine ⟨front, between, last.length, ?_⟩
  rw [← eq_replicate_of_not_mem hlast]
  simp

/-- Two errors at every distance below `n` are seen. -/
def SeesTwo (poly : BitVec w) (n : Nat) : Prop :=
  ∀ between, between + 2 ≤ n →
    crcBits poly 0#w (true :: (List.replicate between false ++ [true])) ≠ 0#w

theorem crcBits_ne_zero_of_two {poly : BitVec w} (hlow : poly.getMsbD 0 = true) {n : Nat}
    (htwo : SeesTwo poly n) {bits : List Bool} (hlength : bits.length ≤ n) (h : bits.count true = 2) :
    crcBits poly 0#w bits ≠ 0#w := by
  obtain ⟨front, between, back, rfl⟩ := exists_two_trues h
  intro hzero
  rw [crcBits_append, crcBits_zeros, crcBits_append] at hzero
  refine htwo between ?_ (eq_zero_of_crcBits_zeros hlow hzero)
  simp only [List.length_append, List.length_replicate, List.length_cons, List.length_nil] at hlength
  omega

/-- **Up to three errors are seen.** -/
theorem crcBits_ne_of_few (hw : 0 < w) {poly : BitVec w} (hroot : (generatorPoly poly).eval 1 = 0)
    (hlow : poly.getMsbD 0 = true) {n : Nat} (htwo : SeesTwo poly n) (reg : BitVec w)
    {bits bits' : List Bool} (hlength : bits.length = bits'.length) (hn : bits.length ≤ n)
    (hne : bits ≠ bits') (hfew : (differences bits bits').count true ≤ 3) :
    crcBits poly reg bits ≠ crcBits poly reg bits' := by
  intro hsame
  have hzero := crcBits_differences_eq_zero hlength hsame
  have hpos : 0 < (differences bits bits').count true :=
    List.count_pos_iff.mpr (true_mem_differences hlength hne)
  obtain ⟨k, hk⟩ := even_of_crcBits_eq_zero hw hroot hzero
  refine crcBits_ne_zero_of_two hlow htwo ?_ (by omega) hzero
  rw [differences, List.length_zipWith, hlength, Nat.min_self, ← hlength]
  exact hn

/-! ## Registers that are shifted up -/

/-- Shift one message bit through a register whose top bit has the highest power. -/
def forwardBit (poly reg : BitVec w) (bit : Bool) : BitVec w :=
  if reg.msb ^^ bit then (reg <<< 1) ^^^ poly else reg <<< 1

def forwardBits (poly reg : BitVec w) (bits : List Bool) : BitVec w := bits.foldl (forwardBit poly) reg

/-- `n` shifts without message bits. -/
def forwardShifts (poly : BitVec w) : Nat → BitVec w → BitVec w
  | 0, reg => reg
  | n + 1, reg => forwardShifts poly n (forwardBit poly reg false)

/-- The bits of a value, highest first. -/
def bitsDown (v : BitVec w) : List Bool := (List.range w).map v.getMsbD

theorem reverse_xor (a b : BitVec w) : (a ^^^ b).reverse = a.reverse ^^^ b.reverse := by
  refine BitVec.eq_of_getLsbD_eq fun i _ => ?_
  rw [BitVec.getLsbD_xor, BitVec.getLsbD_reverse, BitVec.getLsbD_reverse, BitVec.getLsbD_reverse,
    BitVec.getMsbD_xor]

theorem reverse_shiftLeft (reg : BitVec w) : (reg <<< 1).reverse = reg.reverse >>> 1 := by
  refine BitVec.eq_of_getLsbD_eq fun i _ => ?_
  rw [BitVec.getLsbD_reverse, BitVec.getMsbD_shiftLeft, BitVec.getLsbD_ushiftRight, BitVec.getLsbD_reverse,
    Nat.add_comm]

theorem forwardBits_append (poly reg : BitVec w) (bits bits' : List Bool) :
    forwardBits poly reg (bits ++ bits') = forwardBits poly (forwardBits poly reg bits) bits' := by
  simp [forwardBits]

/-- The two directions are mirror images. -/
theorem reverse_forwardBit (poly reg : BitVec w) (bit : Bool) :
    (forwardBit poly reg bit).reverse = crcBit poly.reverse reg.reverse bit := by
  rw [forwardBit, crcBit, BitVec.getLsbD_reverse, ← BitVec.msb_eq_getMsbD_zero]
  cases reg.msb ^^ bit with
  | true => rw [if_pos rfl, if_pos rfl, reverse_xor, reverse_shiftLeft]
  | false => rw [if_neg Bool.false_ne_true, if_neg Bool.false_ne_true, reverse_shiftLeft]

theorem reverse_forwardBits (poly reg : BitVec w) (bits : List Bool) :
    (forwardBits poly reg bits).reverse = crcBits poly.reverse reg.reverse bits := by
  induction bits generalizing reg with
  | nil => rfl
  | cons bit bits ih =>
      change (forwardBits poly (forwardBit poly reg bit) bits).reverse = _
      rw [ih, reverse_forwardBit]
      rfl

theorem reverse_forwardShifts (poly : BitVec w) (n : Nat) (reg : BitVec w) :
    (forwardShifts poly n reg).reverse = crcShifts poly.reverse n reg.reverse := by
  induction n generalizing reg with
  | zero => rfl
  | succ n ih => rw [forwardShifts, ih, reverse_forwardBit, crcShifts, crcShift]

theorem reverse_inj {a b : BitVec w} (h : a.reverse = b.reverse) : a = b := by
  rw [← BitVec.reverse_reverse_eq (x := a), h, BitVec.reverse_reverse_eq]

/-- What the mirrored register tells apart, a register tells apart. -/
theorem forwardBits_ne {poly reg : BitVec w} {bits bits' : List Bool}
    (h : crcBits poly.reverse reg.reverse bits ≠ crcBits poly.reverse reg.reverse bits') :
    forwardBits poly reg bits ≠ forwardBits poly reg bits' := by
  intro hsame
  refine h ?_
  rw [← reverse_forwardBits, ← reverse_forwardBits, hsame]

theorem lowBits_eq_map (n v : Nat) : lowBits n v = (List.range n).map v.testBit := by
  induction n generalizing v with
  | zero => rfl
  | succ n ih =>
      rw [lowBits, ih, List.range_succ_eq_map, List.map_cons, List.map_map]
      congr 1
      refine List.map_congr_left fun i _ => ?_
      rw [Function.comp_apply, Nat.testBit_succ]

theorem lowBits_reverse (v : BitVec w) : lowBits w v.reverse.toNat = bitsDown v := by
  rw [lowBits_eq_map, bitsDown]
  exact List.map_congr_left fun i _ => BitVec.getLsbD_reverse

/-- **A word at a time.** Adding a value to the register and shifting it out is shifting its bits in. -/
theorem forwardShifts_xor (hw : 1 < w) (poly reg v : BitVec w) :
    forwardShifts poly w (reg ^^^ v) = forwardBits poly reg (bitsDown v) := by
  refine reverse_inj ?_
  have hword := crcShifts_xor_eq_crcBits hw poly.reverse w reg.reverse v.reverse.toNat
    v.reverse.isLt v.reverse.isLt
  rw [BitVec.ofNat_toNat, BitVec.setWidth_eq, lowBits_reverse] at hword
  rw [reverse_forwardShifts, reverse_xor, hword, reverse_forwardBits]

end Pmb887x.Library
