import Pmb887x.Library.Crc
import Mathlib

set_option autoImplicit false

/-! # Checksums as polynomial remainders

Bit strings are polynomials over the field of two elements, the first bit with the highest power. A
register of width `w` is a polynomial below `X ^ w`, reflected: its highest bit is the constant
coefficient. Shifting a message through a register leaves a remainder (`registerPoly_crcBits`), so
messages that differ in a short burst leave different ones (`crcBits_ne_of_differWithin`). -/

namespace Pmb887x.Library

open Polynomial

variable {w : Nat}

/-! ## Polynomials over two elements -/

noncomputable def bitPoly (bit : Bool) : (ZMod 2)[X] := C (if bit then 1 else 0)

/-- A message; its first bit has the highest power. -/
noncomputable def messagePoly : List Bool → (ZMod 2)[X]
  | [] => 0
  | bit :: bits => bitPoly bit * X ^ bits.length + messagePoly bits

/-- The polynomial whose coefficients are the low `n` bits of a number. -/
noncomputable def numberPoly (n value : Nat) : (ZMod 2)[X] :=
  ofFn n fun i => if value.testBit i then 1 else 0

noncomputable def registerPoly (reg : BitVec w) : (ZMod 2)[X] :=
  ofFn w fun i => if reg.getMsbD i then 1 else 0

/-- A generator, of which a register holds all but the leading term. -/
noncomputable def generatorPoly (poly : BitVec w) : (ZMod 2)[X] := X ^ w + registerPoly poly

/-- The register of a polynomial. -/
noncomputable def reflect (w : Nat) (p : (ZMod 2)[X]) : BitVec w :=
  BitVec.ofFnBE fun i => decide (p.coeff i = 1)

theorem coeff_numberPoly (n value k : Nat) :
    (numberPoly n value).coeff k = if k < n ∧ value.testBit k then 1 else 0 := by
  rw [numberPoly]
  by_cases hk : k < n
  · rw [ofFn_coeff_eq_val_of_lt _ hk]
    simp [hk]
  · rw [ofFn_coeff_eq_zero_of_ge _ (Nat.le_of_not_lt hk)]
    simp [hk]

theorem coeff_registerPoly (reg : BitVec w) (k : Nat) :
    (registerPoly reg).coeff k = if reg.getMsbD k then 1 else 0 := by
  rw [registerPoly]
  by_cases hk : k < w
  · rw [ofFn_coeff_eq_val_of_lt _ hk]
  · rw [ofFn_coeff_eq_zero_of_ge _ (Nat.le_of_not_lt hk),
      BitVec.getMsbD_of_ge _ _ (Nat.le_of_not_lt hk)]
    rfl

theorem degree_registerPoly_lt (reg : BitVec w) : (registerPoly reg).degree < w :=
  ofFn_degree_lt _

/-- A register is the register of its polynomial. -/
theorem reflect_registerPoly (reg : BitVec w) : reflect w (registerPoly reg) = reg := by
  refine BitVec.eq_of_getMsbD_eq fun i hi => ?_
  rw [reflect, BitVec.getMsbD_ofFnBE, dif_pos hi, coeff_registerPoly]
  cases reg.getMsbD i with
  | true => rfl
  | false => rfl

theorem registerPoly_xor (a b : BitVec w) :
    registerPoly (a ^^^ b) = registerPoly a + registerPoly b := by
  ext k
  rw [coeff_add, coeff_registerPoly, coeff_registerPoly, coeff_registerPoly, BitVec.getMsbD_xor]
  cases a.getMsbD k <;> cases b.getMsbD k <;> decide

theorem monic_generatorPoly (poly : BitVec w) : (generatorPoly poly).Monic :=
  monic_X_pow_add (degree_registerPoly_lt poly)

theorem degree_generatorPoly (poly : BitVec w) : (generatorPoly poly).degree = w := by
  have hless : (registerPoly poly).degree < (X ^ w : (ZMod 2)[X]).degree := by
    rw [degree_X_pow]
    exact degree_registerPoly_lt poly
  rw [generatorPoly, degree_add_eq_left_of_degree_lt hless, degree_X_pow]

theorem bitPoly_true : bitPoly true = 1 := C_1

theorem bitPoly_false : bitPoly false = 0 := C_0

theorem bitPoly_xor (a b : Bool) : bitPoly (a ^^ b) = bitPoly a + bitPoly b := by
  rw [bitPoly, bitPoly, bitPoly, ← C_add]
  cases a <;> cases b <;> exact congrArg C (by decide)

/-! ## One shift -/

/-- Shifting a register down multiplies its polynomial by `X`, but for the bit shifted out. -/
theorem registerPoly_shift (hw : 0 < w) (reg : BitVec w) :
    registerPoly reg * X = registerPoly (reg >>> 1) + bitPoly (reg.getLsbD 0) * X ^ w := by
  ext k
  rw [coeff_add, coeff_registerPoly, BitVec.getMsbD_ushiftRight, coeff_mul_X_pow']
  cases k with
  | zero =>
      rw [mul_coeff_zero, coeff_X_zero, mul_zero, if_neg (Nat.not_le_of_lt hw)]
      simp
  | succ k =>
      rw [coeff_mul_X, coeff_registerPoly, Nat.add_sub_cancel]
      rcases Nat.lt_trichotomy (k + 1) w with hlow | htop | hhigh
      · rw [if_neg (Nat.not_le_of_lt hlow)]
        simp [hlow]
      · -- the bit shifted out is the highest coefficient
        have hlast : reg.getMsbD k = reg.getLsbD 0 := by
          rw [BitVec.getMsbD, show w - 1 - k = 0 by omega]
          simp [show k < w by omega]
        rw [if_pos (Nat.le_of_eq htop.symm), Nat.sub_eq_zero_of_le (Nat.le_of_eq htop), bitPoly,
          coeff_C_zero, hlast, decide_eq_false (Nat.not_lt_of_le (Nat.le_of_eq htop.symm))]
        simp
      · rw [if_pos (Nat.le_of_lt hhigh), BitVec.getMsbD_of_ge _ _ (Nat.le_of_lt_succ hhigh), bitPoly,
          coeff_C_of_ne_zero (Nat.sub_ne_zero_of_lt hhigh)]
        simp [Nat.not_lt_of_lt hhigh]

/-- **One message bit.** -/
theorem registerPoly_crcBit (hw : 0 < w) (poly reg : BitVec w) (bit : Bool) :
    registerPoly reg * X + bitPoly bit * X ^ w
      = registerPoly (crcBit poly reg bit) + bitPoly (reg.getLsbD 0 ^^ bit) * generatorPoly poly := by
  have hcrc : registerPoly (crcBit poly reg bit)
      = registerPoly (reg >>> 1) + bitPoly (reg.getLsbD 0 ^^ bit) * registerPoly poly := by
    rw [crcBit]
    cases reg.getLsbD 0 ^^ bit with
    | true => rw [if_pos rfl, registerPoly_xor, bitPoly_true, one_mul]
    | false => rw [if_neg Bool.false_ne_true, bitPoly_false, zero_mul, add_zero]
  have htwice : bitPoly (reg.getLsbD 0 ^^ bit) * registerPoly poly
      + bitPoly (reg.getLsbD 0 ^^ bit) * registerPoly poly = 0 := CharTwo.add_self_eq_zero _
  rw [registerPoly_shift hw, hcrc, generatorPoly, bitPoly_xor] at *
  linear_combination -htwice

/-! ## A message -/

/-- Shifting a message through a register, up to a multiple of the generator. -/
theorem exists_crcBits_quotient (hw : 0 < w) (poly : BitVec w) (bits : List Bool) (reg : BitVec w) :
    ∃ q, registerPoly (crcBits poly reg bits) + generatorPoly poly * q
      = registerPoly reg * X ^ bits.length + messagePoly bits * X ^ w := by
  induction bits generalizing reg with
  | nil =>
      refine ⟨0, ?_⟩
      rw [messagePoly, List.length_nil, pow_zero]
      change registerPoly reg + _ = _
      ring
  | cons bit bits ih =>
      obtain ⟨q, hq⟩ := ih (crcBit poly reg bit)
      refine ⟨q + bitPoly (reg.getLsbD 0 ^^ bit) * X ^ bits.length, ?_⟩
      have hbit := registerPoly_crcBit hw poly reg bit
      rw [messagePoly, List.length_cons, pow_succ]
      change registerPoly (crcBits poly (crcBit poly reg bit) bits) + _ = _
      linear_combination hq - X ^ bits.length * hbit

/-- **A checksum is a remainder.** -/
theorem registerPoly_crcBits (hw : 0 < w) (poly reg : BitVec w) (bits : List Bool) :
    registerPoly (crcBits poly reg bits)
      = (registerPoly reg * X ^ bits.length + messagePoly bits * X ^ w) %ₘ generatorPoly poly := by
  obtain ⟨q, hq⟩ := exists_crcBits_quotient hw poly bits reg
  have hdegree : (registerPoly (crcBits poly reg bits)).degree < (generatorPoly poly).degree := by
    rw [degree_generatorPoly]
    exact degree_registerPoly_lt _
  exact (div_modByMonic_unique q _ (monic_generatorPoly poly) ⟨hq, hdegree⟩).2.symm

/-! ## Bursts -/

/-- Two strings of one length that differ, and only within `n` consecutive places. -/
def DifferWithin {α : Type} (n : Nat) (xs ys : List α) : Prop :=
  xs.length = ys.length ∧ xs ≠ ys ∧ ∃ start, ∀ i, i < start ∨ start + n ≤ i → xs[i]? = ys[i]?

theorem messagePoly_append (bits bits' : List Bool) :
    messagePoly (bits ++ bits') = messagePoly bits * X ^ bits'.length + messagePoly bits' := by
  induction bits with
  | nil => rw [List.nil_append, messagePoly, zero_mul, zero_add]
  | cons bit bits ih =>
      rw [List.cons_append, messagePoly, messagePoly, ih, List.length_append, pow_add]
      ring

theorem degree_messagePoly_lt (bits : List Bool) : (messagePoly bits).degree < bits.length := by
  induction bits with
  | nil =>
      rw [messagePoly, degree_zero]
      exact WithBot.bot_lt_coe 0
  | cons bit bits ih =>
      rw [messagePoly, List.length_cons]
      refine (degree_add_le _ _).trans_lt (max_lt ?_ ?_)
      · exact (degree_C_mul_X_pow_le _ _).trans_lt (by exact_mod_cast Nat.lt_succ_self _)
      · exact ih.trans (by exact_mod_cast Nat.lt_succ_self _)

/-- Messages of one length have different polynomials. -/
theorem messagePoly_inj {bits bits' : List Bool} (hlength : bits.length = bits'.length)
    (h : messagePoly bits = messagePoly bits') : bits = bits' := by
  induction bits generalizing bits' with
  | nil => exact (List.length_eq_zero_iff.mp hlength.symm).symm
  | cons bit bits ih =>
      cases bits' with
      | nil => cases hlength
      | cons bit' bits' =>
          have htail : bits.length = bits'.length := Nat.succ.inj hlength
          have hfirst := congrArg (coeff · bits.length) h
          simp only [messagePoly, coeff_add, ← htail, bitPoly, coeff_C_mul_X_pow, if_true,
            coeff_eq_zero_of_degree_lt (degree_messagePoly_lt bits),
            coeff_eq_zero_of_degree_lt (htail ▸ degree_messagePoly_lt bits' :
              (messagePoly bits').degree < bits.length), add_zero] at hfirst
          obtain rfl : bit = bit' := by
            cases bit <;> cases bit' <;> first | rfl | exact absurd hfirst (by decide)
          rw [messagePoly, messagePoly, htail] at h
          rw [ih htail (add_left_cancel h)]

/-- The places of a burst. -/
theorem DifferWithin.split {α : Type} {n : Nat} {xs ys : List α} (h : DifferWithin n xs ys) :
    ∃ front a b back, xs = front ++ (a ++ back) ∧ ys = front ++ (b ++ back) ∧
      a.length = b.length ∧ a.length ≤ n ∧ a ≠ b := by
  obtain ⟨hlength, hne, start, hsame⟩ := h
  have hfront : xs.take start = ys.take start := by
    refine List.ext_getElem? fun i => ?_
    rw [List.getElem?_take, List.getElem?_take]
    split_ifs with hi
    · exact hsame i (Or.inl hi)
    · rfl
  have hback : xs.drop (start + n) = ys.drop (start + n) := by
    refine List.ext_getElem? fun i => ?_
    rw [List.getElem?_drop, List.getElem?_drop]
    exact hsame _ (Or.inr (Nat.le_add_right _ _))
  have hsplit : ∀ zs : List α,
      zs = zs.take start ++ ((zs.drop start).take n ++ zs.drop (start + n)) := by
    intro zs
    rw [← List.drop_drop, List.take_append_drop, List.take_append_drop]
  have hys := hsplit ys
  rw [← hfront, ← hback] at hys
  refine ⟨xs.take start, (xs.drop start).take n, (ys.drop start).take n, xs.drop (start + n),
    hsplit xs, hys, ?_, List.length_take_le _ _, fun hsame' => hne ?_⟩
  · simp only [List.length_take, List.length_drop, hlength]
  · rw [hsplit xs, hsame', ← hys]

/-- **A short burst changes the checksum.** -/
theorem crcBits_ne_of_differWithin {poly : BitVec w} (hpoly : poly.getMsbD 0 = true) (reg : BitVec w)
    {bits bits' : List Bool} (h : DifferWithin w bits bits') :
    crcBits poly reg bits ≠ crcBits poly reg bits' := by
  intro hsame
  have hw : 0 < w := by
    by_contra hzero
    rw [BitVec.getMsbD_of_ge _ _ (Nat.le_of_not_lt hzero)] at hpoly
    cases hpoly
  obtain ⟨front, a, b, back, rfl, rfl, hlength, hshort, hne⟩ := h.split
  obtain ⟨q, hq⟩ := exists_crcBits_quotient hw poly (front ++ (a ++ back)) reg
  obtain ⟨q', hq'⟩ := exists_crcBits_quotient hw poly (front ++ (b ++ back)) reg
  rw [hsame] at hq
  have hbits : (front ++ (a ++ back)).length = (front ++ (b ++ back)).length := by
    simp only [List.length_append, hlength]
  -- the difference of the messages is a multiple of the generator
  have hdivides : generatorPoly poly ∣ (messagePoly a - messagePoly b) * X ^ (back.length + w) := by
    refine ⟨q - q', ?_⟩
    rw [hbits] at hq
    have hmessages : messagePoly (front ++ (a ++ back)) - messagePoly (front ++ (b ++ back))
        = (messagePoly a - messagePoly b) * X ^ back.length := by
      simp only [messagePoly_append, List.length_append, hlength]
      ring
    rw [pow_add]
    linear_combination hq' - hq - X ^ w * hmessages
  have hcoprime : IsCoprime (generatorPoly poly) (X ^ (back.length + w)) := by
    refine IsCoprime.pow_right (IsCoprime.symm ?_)
    refine (irreducible_X.coprime_iff_not_dvd).mpr fun hX => ?_
    rw [X_dvd_iff, generatorPoly, coeff_add, coeff_registerPoly, hpoly, coeff_X_pow,
      if_neg (Nat.ne_of_lt hw)] at hX
    exact absurd hX (by decide)
  have hzero : messagePoly a - messagePoly b = 0 := by
    refine eq_zero_of_dvd_of_degree_lt (hcoprime.dvd_of_dvd_mul_right hdivides) ?_
    rw [degree_generatorPoly]
    refine (degree_sub_le _ _).trans_lt (max_lt ?_ ?_)
    · exact (degree_messagePoly_lt a).trans_le (by exact_mod_cast hshort)
    · exact (degree_messagePoly_lt b).trans_le (by exact_mod_cast hlength ▸ hshort)
  exact hne (messagePoly_inj hlength (sub_eq_zero.mp hzero))

end Pmb887x.Library
