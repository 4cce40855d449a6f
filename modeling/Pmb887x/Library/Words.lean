import Pmb887x.Library.BitFields
import Pmb887x.Library.Bytes
import Mathlib.Data.List.Basic

set_option autoImplicit false

/-! # Byte strings as 32-bit words

A controller with a 32-bit data register takes a byte string four bytes at a time, the first byte
in the low-order bits, and a last word with what is left. `wordChunks` is that split, `word` the
value of one piece. -/

namespace Pmb887x.Library

/-- The word that holds a piece of at most four bytes. -/
def word (bs : List UInt8) : UInt32 := UInt32.ofNat (ofLeBytes bs)

/-- The pieces of a byte string, four bytes each but the last. -/
def wordChunks : List UInt8 → List (List UInt8)
  | [] => []
  | b0 :: b1 :: b2 :: b3 :: rest => [b0, b1, b2, b3] :: wordChunks rest
  | short => [short]

@[simp] theorem wordChunks_nil : wordChunks [] = [] := rfl

theorem wordChunks_of_ne_nil {bs : List UInt8} (h : bs ≠ []) :
    wordChunks bs = bs.take 4 :: wordChunks (bs.drop 4) := by
  rcases bs with _ | ⟨b0, _ | ⟨b1, _ | ⟨b2, _ | ⟨b3, rest⟩⟩⟩⟩
  · exact absurd rfl h
  all_goals simp [wordChunks]

/-- The first `n` bytes, piece by piece. -/
theorem wordChunks_take {bs : List UInt8} {n : Nat} (hn : n ≠ 0) (h : n ≤ bs.length) :
    wordChunks (bs.take n)
      = bs.take (min n 4) :: wordChunks ((bs.drop (min n 4)).take (n - min n 4)) := by
  have hne : bs.take n ≠ [] := by
    rw [Ne, List.take_eq_nil_iff]
    rintro (rfl | rfl)
    · exact hn rfl
    · exact hn (Nat.le_zero.1 h)
  rw [wordChunks_of_ne_nil hne, List.take_take, List.drop_take, Nat.min_comm]
  by_cases h4 : n ≤ 4
  · rw [Nat.min_eq_left h4, Nat.sub_self, Nat.sub_eq_zero_of_le h4, List.take_zero, List.take_zero]
  · rw [Nat.min_eq_right (Nat.le_of_not_le h4)]

/-- The pieces put together again. -/
theorem wordChunks_flatten (bs : List UInt8) : (wordChunks bs).flatten = bs := by
  induction bs using wordChunks.induct with
  | case1 => rfl
  | case2 b0 b1 b2 b3 rest ih => simp [wordChunks, ih]
  | case3 short hne hshort =>
      rw [wordChunks_of_ne_nil hne]
      have hlen : short.length ≤ 4 := by
        rcases short with _ | ⟨b0, _ | ⟨b1, _ | ⟨b2, _ | ⟨b3, rest⟩⟩⟩⟩
        all_goals first | exact absurd rfl (hshort _ _ _ _ _) | simp
      simp [List.take_of_length_le hlen, List.drop_eq_nil_of_le hlen]

/-! ## Building a word byte by byte -/

theorem ofLeBytes_append (xs ys : List UInt8) :
    ofLeBytes (xs ++ ys) = ofLeBytes xs + 256 ^ xs.length * ofLeBytes ys := by
  induction xs with
  | nil => simp [ofLeBytes]
  | cons x xs ih =>
      rw [List.cons_append, ofLeBytes, ofLeBytes, ih, List.length_cons, Nat.pow_succ']
      ring

theorem two_pow_mul_eight (n : Nat) : 2 ^ (n * 8) = 256 ^ n := by
  rw [Nat.mul_comm, Nat.pow_mul]

/-- `value |= (uint32_t) byte << (count * 8)` appends a byte to the piece. -/
theorem word_snoc {bs : List UInt8} (h : bs.length < 4) (b : UInt8) :
    word bs ||| b.toUInt32 <<< UInt32.ofNat (bs.length * 8) = word (bs ++ [b]) := by
  have hbs : ofLeBytes bs < 2 ^ (bs.length * 8) := by
    rw [two_pow_mul_eight]
    exact ofLeBytes_lt bs
  have hsnoc : (bs ++ [b]).length ≤ 4 := by
    rw [List.length_append]
    exact h
  have hvalue : ofLeBytes (bs ++ [b]) = ofLeBytes bs + 2 ^ (bs.length * 8) * b.toNat := by
    rw [ofLeBytes_append, two_pow_mul_eight]
    simp [ofLeBytes]
  have hfit := ofLeBytes_lt_two_pow hsnoc
  have hshift : b.toNat <<< (bs.length * 8) < 2 ^ 32 := by
    rw [Nat.shiftLeft_eq, Nat.mul_comm]
    exact Nat.lt_of_le_of_lt (Nat.le_add_left _ _) (hvalue ▸ hfit)
  apply UInt32.toNat_inj.1
  have hcount : (UInt32.ofNat (bs.length * 8)).toNat % 32 = bs.length * 8 := by
    rw [UInt32.toNat_ofNat']
    omega
  rw [UInt32.toNat_or, UInt32.toNat_shiftLeft, hcount, word, word, UInt32.toNat_ofNat',
    UInt32.toNat_ofNat', Nat.mod_eq_of_lt hfit,
    Nat.mod_eq_of_lt (ofLeBytes_lt_two_pow (Nat.le_of_lt h)), UInt8.toNat_toUInt32,
    Nat.mod_eq_of_lt hshift, or_shiftLeft hbs, hvalue]

/-! ## Taking a word apart -/

/-- `value >> (i * 8)`, as a byte, is byte `i` of the value. -/
theorem toUInt8_shiftRight (value : UInt32) {i : Nat} (hi : i < 4) :
    (value >>> UInt32.ofNat (i * 8)).toUInt8 = UInt8.ofNat (value.toNat / 256 ^ i) := by
  apply UInt8.toNat_inj.1
  have hshift : (UInt32.ofNat (i * 8)).toNat % 32 = i * 8 := by
    rw [UInt32.toNat_ofNat']
    omega
  rw [UInt32.toNat_toUInt8, UInt32.toNat_shiftRight, hshift, Nat.shiftRight_eq_div_pow,
    two_pow_mul_eight, UInt8.toNat_ofNat']

end Pmb887x.Library
