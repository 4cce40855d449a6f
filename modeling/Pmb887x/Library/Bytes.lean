import Mathlib.Data.List.Basic
import Mathlib.Tactic.Ring

set_option autoImplicit false

/-! # Little-endian byte strings and 32-bit words

The wire formats of this development are little-endian: `leBytes k n` is the `k`-byte
representation of `n`, `ofLeBytes` reads one back. Both are over `List UInt8`, so that a message is
a concatenation of fields and a parser peels the fields off again. -/

namespace Pmb887x.Library

/-- The `k` low-order bytes of `n`, least significant first. -/
def leBytes : Nat → Nat → List UInt8
  | 0, _ => []
  | k + 1, n => UInt8.ofNat n :: leBytes k (n / 256)

/-- The number a little-endian byte string stands for. -/
def ofLeBytes : List UInt8 → Nat
  | [] => 0
  | b :: rest => b.toNat + 256 * ofLeBytes rest

@[simp] theorem leBytes_length (k n : Nat) : (leBytes k n).length = k := by
  induction k generalizing n with
  | zero => rfl
  | succ k ih => simp [leBytes, ih]

theorem take_leBytes {j k : Nat} (h : j ≤ k) (n : Nat) : (leBytes k n).take j = leBytes j n := by
  induction k generalizing j n with
  | zero => rw [Nat.le_zero.mp h, List.take_zero, leBytes]
  | succ k ih =>
      cases j with
      | zero => rfl
      | succ j => rw [leBytes, List.take_succ_cons, ih (Nat.le_of_succ_le_succ h), leBytes]

theorem ofLeBytes_leBytes (k n : Nat) : ofLeBytes (leBytes k n) = n % 256 ^ k := by
  induction k generalizing n with
  | zero => simp [leBytes, ofLeBytes, Nat.mod_one]
  | succ k ih =>
      have hb : (UInt8.ofNat n).toNat = n % 256 := UInt8.toNat_ofNat'
      rw [leBytes, ofLeBytes, ih, hb, Nat.pow_succ', Nat.mod_mul]

/-- A field wide enough for its value reads back as that value. -/
theorem ofLeBytes_leBytes_of_lt {k n : Nat} (h : n < 256 ^ k) : ofLeBytes (leBytes k n) = n := by
  rw [ofLeBytes_leBytes, Nat.mod_eq_of_lt h]

theorem ofLeBytes_lt (bs : List UInt8) : ofLeBytes bs < 256 ^ bs.length := by
  induction bs with
  | nil => simp [ofLeBytes]
  | cons b rest ih =>
      have hb : b.toNat < 256 := b.toNat_lt
      simp only [ofLeBytes, List.length_cons, Nat.pow_succ]
      omega

/-- Up to four bytes make a 32-bit value. -/
theorem ofLeBytes_lt_two_pow {bs : List UInt8} (h : bs.length ≤ 4) : ofLeBytes bs < 2 ^ 32 :=
  calc ofLeBytes bs < 256 ^ bs.length := ofLeBytes_lt bs
    _ ≤ 256 ^ 4 := Nat.pow_le_pow_right (by decide) h
    _ = 2 ^ 32 := by norm_num

/-- Byte strings of one length are determined by their value. -/
theorem ofLeBytes_inj {xs ys : List UInt8} (hlen : xs.length = ys.length)
    (h : ofLeBytes xs = ofLeBytes ys) : xs = ys := by
  induction xs generalizing ys with
  | nil => exact (List.eq_nil_of_length_eq_zero hlen.symm).symm
  | cons x xs ih =>
      cases ys with
      | nil => simp at hlen
      | cons y ys =>
          have hx : x.toNat < 256 := x.toNat_lt
          have hy : y.toNat < 256 := y.toNat_lt
          simp only [ofLeBytes] at h
          have hxy : x = y := UInt8.toNat_inj.1 (by omega)
          rw [hxy, ih (by simpa using hlen) (by omega)]

/-- Bytes are the encoding of their value. -/
theorem leBytes_ofLeBytes {k : Nat} {bs : List UInt8} (h : bs.length = k) :
    leBytes k (ofLeBytes bs) = bs := by
  subst h
  exact ofLeBytes_inj (leBytes_length _ _) (ofLeBytes_leBytes_of_lt (ofLeBytes_lt bs))

/-! ## Unsigned 32-bit arithmetic -/

/-- The value a `uint32_t` keeps of `n`. -/
def wrap32 (n : Nat) : Nat := n % 2 ^ 32

/-- `a - b` in `uint32_t`. -/
def sub32 (a b : Nat) : Nat := (a + 2 ^ 32 - b) % 2 ^ 32

theorem wrap32_of_lt {n : Nat} (h : n < 2 ^ 32) : wrap32 n = n := Nat.mod_eq_of_lt h

theorem sub32_of_le {a b : Nat} (h : b ≤ a) (ha : a < 2 ^ 32) : sub32 a b = a - b := by
  unfold sub32
  omega

/-- Masking with `~(2^k - 1)` rounds down to a multiple of `2^k`. -/
theorem and_clear_low {n : Nat} (h : n < 2 ^ 32) {k : Nat} (hk : k ≤ 32) :
    n &&& (2 ^ 32 - 1 - (2 ^ k - 1)) = n / 2 ^ k * 2 ^ k := by
  have hpow : 2 ^ k ≤ 2 ^ 32 := Nat.pow_le_pow_right (by decide) hk
  have hpos : 0 < 2 ^ k := Nat.two_pow_pos k
  apply Nat.eq_of_testBit_eq
  intro i
  rw [Nat.sub_sub, show 1 + (2 ^ k - 1) = (2 ^ k - 1) + 1 by omega, Nat.testBit_and,
    Nat.testBit_two_pow_sub_succ (by omega), Nat.testBit_two_pow_sub_one,
    Nat.testBit_mul_two_pow, Nat.testBit_div_two_pow]
  by_cases hi : i < 32
  · by_cases hik : k ≤ i
    · simp [hi, hik, Nat.sub_add_cancel hik]
    · simp [hi, hik]
      omega
  · have hhigh : n.testBit i = false := Nat.testBit_lt_two_pow
      (Nat.lt_of_lt_of_le h (Nat.pow_le_pow_right (by decide) (Nat.le_of_not_lt hi)))
    simp only [hi, hhigh, Bool.false_and]
    by_cases hik : k ≤ i
    · rw [Nat.sub_add_cancel hik, hhigh, Bool.and_false]
    · simp [hik]

end Pmb887x.Library
