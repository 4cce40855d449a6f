import Mathlib.Algebra.Group.Nat.Defs
import Mathlib.Data.List.Basic

set_option autoImplicit false

/-! # Reflected cyclic redundancy checks

The bit-serial definition: a register of width `w` is shifted right by one place for every message
bit, least significant bit of each byte first, and the generator is added whenever the bit shifted
out differs from the message bit. Implementations that take a whole byte at a time are related to
it by `crcShifts_xor_eq_crcBits`. -/

namespace Pmb887x.Library

variable {w : Nat}

/-- Shift one message bit through the register. -/
def crcBit (poly reg : BitVec w) (bit : Bool) : BitVec w :=
  if reg.getLsbD 0 ^^ bit then (reg >>> 1) ^^^ poly else reg >>> 1

/-- Shift a bit string through the register. -/
def crcBits (poly reg : BitVec w) (bits : List Bool) : BitVec w :=
  bits.foldl (crcBit poly) reg

/-- The low `n` bits of a number, least significant first. -/
def lowBits : Nat → Nat → List Bool
  | 0, _ => []
  | n + 1, v => v.testBit 0 :: lowBits n (v / 2)

/-- The bits of a byte string in transmission order. -/
def messageBits (data : List UInt8) : List Bool :=
  data.flatMap (fun b => lowBits 8 b.toNat)

/-- CRC-32: generator `0x04C11DB7` reflected, register preset to ones and complemented. -/
def crc32 (data : List UInt8) : BitVec 32 :=
  ~~~ crcBits 0xEDB88320#32 0xFFFFFFFF#32 (messageBits data)

/-- One shift of the register without a message bit. -/
def crcShift (poly reg : BitVec w) : BitVec w := crcBit poly reg false

/-- `n` shifts without message bits. -/
def crcShifts (poly : BitVec w) : Nat → BitVec w → BitVec w
  | 0, reg => reg
  | n + 1, reg => crcShifts poly n (crcShift poly reg)

theorem crcBits_append (poly reg : BitVec w) (bits bits' : List Bool) :
    crcBits poly reg (bits ++ bits') = crcBits poly (crcBits poly reg bits) bits' := by
  simp [crcBits]

theorem messageBits_append (data data' : List UInt8) :
    messageBits (data ++ data') = messageBits data ++ messageBits data' := by
  simp [messageBits]

/-- The shift is linear. -/
theorem crcShift_xor (poly a b : BitVec w) :
    crcShift poly (a ^^^ b) = crcShift poly a ^^^ crcShift poly b := by
  simp only [crcShift, crcBit, BitVec.getLsbD_xor, BitVec.ushiftRight_xor_distrib, Bool.xor_false]
  cases a.getLsbD 0 <;> cases b.getLsbD 0
  · simp
  · simp [BitVec.xor_assoc]
  · simp only [Bool.true_xor, Bool.not_false, if_true, Bool.false_eq_true, if_false]
    rw [BitVec.xor_assoc, BitVec.xor_comm (b >>> 1), BitVec.xor_assoc]
  · simp only [Bool.xor_self, Bool.false_eq_true, if_false, if_true]
    rw [BitVec.xor_assoc, ← BitVec.xor_assoc poly, BitVec.xor_comm poly (b >>> 1),
      BitVec.xor_assoc (b >>> 1), BitVec.xor_self, BitVec.xor_zero]

/-- A value without its lowest bit only moves down. -/
theorem crcShift_double {v : Nat} (poly : BitVec w) (hv : 2 * v < 2 ^ w) :
    crcShift poly (BitVec.ofNat w (2 * v)) = BitVec.ofNat w v := by
  have hlow : (BitVec.ofNat w (2 * v)).getLsbD 0 = false := by
    simp [BitVec.getLsbD_ofNat, Nat.testBit_zero]
  simp only [crcShift, crcBit, hlow, Bool.xor_self, Bool.false_eq_true, if_false]
  apply BitVec.eq_of_toNat_eq
  rw [BitVec.toNat_ushiftRight, BitVec.toNat_ofNat, BitVec.toNat_ofNat, Nat.mod_eq_of_lt hv,
    Nat.mod_eq_of_lt (by omega), Nat.shiftRight_eq_div_pow]
  omega

/-- Splitting the lowest bit off a value. -/
theorem ofNat_eq_low_xor (v : Nat) :
    BitVec.ofNat w v = BitVec.ofNat w (v % 2) ^^^ BitVec.ofNat w (2 * (v / 2)) := by
  apply BitVec.eq_of_getLsbD_eq
  intro i hi
  simp only [BitVec.getLsbD_xor, BitVec.getLsbD_ofNat, hi, decide_true, Bool.true_and]
  cases i with
  | zero => simp [Nat.testBit_zero]
  | succ i =>
      have h1 : v % 2 / 2 = 0 := by omega
      have h2 : 2 * (v / 2) / 2 = v / 2 := by omega
      simp [Nat.testBit_succ, h1, h2]

/-- A message bit may be added to the register before the shift. -/
theorem crcBit_eq_shift (hw : 1 < w) (poly reg : BitVec w) (v : Nat) :
    crcBit poly reg (v.testBit 0) = crcShift poly (reg ^^^ BitVec.ofNat w (v % 2)) := by
  have hlow : (BitVec.ofNat w (v % 2)).getLsbD 0 = v.testBit 0 := by
    simp [BitVec.getLsbD_ofNat, Nat.testBit_zero]
    omega
  have hshift : BitVec.ofNat w (v % 2) >>> 1 = 0#w := by
    have : 2 ^ 1 < 2 ^ w := Nat.pow_lt_pow_right (by omega) hw
    apply BitVec.eq_of_toNat_eq
    rw [BitVec.toNat_ushiftRight, BitVec.toNat_ofNat, BitVec.toNat_ofNat,
      Nat.mod_eq_of_lt (by omega), Nat.shiftRight_eq_div_pow, Nat.zero_mod]
    omega
  simp only [crcShift, crcBit, BitVec.getLsbD_xor, hlow, BitVec.ushiftRight_xor_distrib, hshift,
    BitVec.xor_zero, Bool.xor_false]

/-- **Byte-wise processing.** Adding an `n`-bit value to the register and shifting `n` times is
    shifting its bits through one at a time. -/
theorem crcShifts_xor_eq_crcBits (hw : 1 < w) (poly : BitVec w) (n : Nat) :
    ∀ (reg : BitVec w) (v : Nat), v < 2 ^ n → v < 2 ^ w →
      crcShifts poly n (reg ^^^ BitVec.ofNat w v) = crcBits poly reg (lowBits n v) := by
  induction n with
  | zero =>
      intro reg v hv _
      obtain rfl : v = 0 := by simpa using hv
      simp [crcShifts, crcBits, lowBits]
  | succ n ih =>
      intro reg v hv hvw
      rw [Nat.pow_succ] at hv
      have hstep : crcShift poly (reg ^^^ BitVec.ofNat w v)
          = crcBit poly reg (v.testBit 0) ^^^ BitVec.ofNat w (v / 2) := by
        rw [ofNat_eq_low_xor v, ← BitVec.xor_assoc, crcShift_xor, ← crcBit_eq_shift hw,
          crcShift_double poly (by omega)]
      rw [crcShifts, hstep, ih _ (v / 2) (by omega) (by omega)]
      rfl

end Pmb887x.Library
