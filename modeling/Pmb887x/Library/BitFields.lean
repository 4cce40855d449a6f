import Mathlib.Data.Nat.Bits
import Mathlib.Data.Nat.Bitwise
import Mathlib.Tactic.Ring

set_option autoImplicit false

/-! # Fields of a machine word

A field is a run of bits; C takes it out of a word with a shift and a mask, and puts fields together
with `|`. In numbers a field is a quotient and a remainder, and fields that do not overlap are
added. -/

namespace Pmb887x.Library

/-- `n & ((2^k - 1) << a)`: the field of `k` bits at bit `a`, where it stands. -/
theorem and_mask (n a k : Nat) : n &&& (2 ^ k - 1) <<< a = n / 2 ^ a % 2 ^ k * 2 ^ a := by
  rw [← Nat.shiftRight_eq_div_pow, ← Nat.and_two_pow_sub_one_eq_mod, ← Nat.shiftLeft_eq]
  apply Nat.eq_of_testBit_eq
  intro i
  simp only [Nat.testBit_and, Nat.testBit_shiftLeft, Nat.testBit_shiftRight]
  by_cases h : a ≤ i
  · simp [h, Nat.add_sub_cancel' h]
  · simp [h]

/-- `low | (high << k)` for a value that fits below bit `k`. -/
theorem or_shiftLeft {low k : Nat} (h : low < 2 ^ k) (high : Nat) :
    low ||| high <<< k = low + 2 ^ k * high := by
  rw [Nat.or_comm, ← Nat.shiftLeft_add_eq_or_of_lt h, Nat.shiftLeft_eq, Nat.mul_comm, Nat.add_comm]

/-- Bit `i` of a number, as C takes it out. -/
theorem shiftRight_and_one (n i : Nat) : n >>> i &&& 1 = n / 2 ^ i % 2 := by
  rw [Nat.shiftRight_eq_div_pow, Nat.and_one_is_mod]

/-- Flipping one bit adds it or takes it away. -/
theorem xor_two_pow (n k : Nat) : n ^^^ 2 ^ k = n + 2 ^ k ∨ n = (n ^^^ 2 ^ k) + 2 ^ k := by
  have hquotient : (n ^^^ 2 ^ k) / 2 ^ k = n / 2 ^ k ^^^ 1 := by
    rw [Nat.xor_div_two_pow, Nat.div_self (Nat.two_pow_pos k)]
  have hremainder : (n ^^^ 2 ^ k) % 2 ^ k = n % 2 ^ k := by
    rw [Nat.xor_mod_two_pow, Nat.mod_self, Nat.xor_zero]
  have hn := Nat.div_add_mod n (2 ^ k)
  have hxor := Nat.div_add_mod (n ^^^ 2 ^ k) (2 ^ k)
  rw [hquotient, hremainder] at hxor
  rcases Nat.even_or_odd (n / 2 ^ k) with heven | hodd
  · rw [Nat.xor_one_of_even heven, Nat.mul_succ] at hxor
    exact Or.inl (by omega)
  · obtain ⟨m, hm⟩ := hodd
    rw [Nat.xor_one_of_odd ⟨m, hm⟩, hm, Nat.add_sub_cancel] at hxor
    rw [hm, Nat.mul_add_one] at hn
    exact Or.inr (by omega)

/-- Slots of `k` bits: what is put into slot `i` is seen in this slot and in no other. -/
theorem slot_or (n : Nat) {c k : Nat} (hc : c < 2 ^ k) (i j : Nat) :
    ((n ||| c <<< (i * k)) >>> (j * k)) &&& (2 ^ k - 1)
      = ((n >>> (j * k)) &&& (2 ^ k - 1)) ||| if i = j then c else 0 := by
  apply Nat.eq_of_testBit_eq
  intro t
  have hbig : ∀ s, k ≤ s → c.testBit s = false := fun s hs =>
    Nat.testBit_lt_two_pow (Nat.lt_of_lt_of_le hc (Nat.pow_le_pow_right (by decide) hs))
  simp only [Nat.testBit_and, Nat.testBit_or, Nat.testBit_shiftRight, Nat.testBit_shiftLeft,
    Nat.testBit_two_pow_sub_one]
  by_cases ht : t < k
  · rcases Nat.lt_trichotomy i j with hij | rfl | hij
    · -- the slot is above what is put in
      have hstep : (i + 1) * k ≤ j * k := Nat.mul_le_mul_right k hij
      rw [Nat.succ_mul] at hstep
      rw [hbig (j * k + t - i * k) (by omega), if_neg (Nat.ne_of_lt hij)]
      simp
    · simp [ht]
    · have hstep : (j + 1) * k ≤ i * k := Nat.mul_le_mul_right k hij
      rw [Nat.succ_mul] at hstep
      have hbelow : ¬ i * k ≤ j * k + t := by omega
      rw [if_neg (Nat.ne_of_gt hij)]
      simp [hbelow]
  · have hzero : (if i = j then c else 0).testBit t = false := by
      split_ifs
      · exact hbig t (Nat.le_of_not_lt ht)
      · exact Nat.zero_testBit t
    rw [hzero]
    simp [ht]

/-- The word whose bit `i` is element `i` of the list. -/
def packBits : List Nat → Nat
  | [] => 0
  | b :: bits => b + 2 * packBits bits

theorem packBits_append (bits bits' : List Nat) :
    packBits (bits ++ bits') = packBits bits + 2 ^ bits.length * packBits bits' := by
  induction bits with
  | nil => simp [packBits]
  | cons b bits ih =>
      rw [List.cons_append, packBits, packBits, ih, List.length_cons, Nat.pow_succ']
      ring

/-- The `k` bits of a number from bit `a` on pack to the field at `a`. -/
theorem packBits_field (n a k : Nat) :
    packBits ((List.range k).map fun i => n >>> (i + a) &&& 1) = n / 2 ^ a % 2 ^ k := by
  induction k generalizing a with
  | zero => simp [packBits, Nat.mod_one]
  | succ k ih =>
      rw [List.range_succ_eq_map, List.map_cons, List.map_map, packBits]
      have hrest : (List.range k).map ((fun i => n >>> (i + a) &&& 1) ∘ Nat.succ)
          = (List.range k).map fun i => n >>> (i + (a + 1)) &&& 1 := by
        apply List.map_congr_left
        intro i _
        simp [Nat.succ_eq_add_one, Nat.add_assoc, Nat.add_comm 1]
      rw [hrest, ih, Nat.zero_add, shiftRight_and_one, Nat.pow_succ, Nat.pow_succ', Nat.mod_mul,
        ← Nat.div_div_eq_div_mul]

/-! ## Words set bit by bit -/

/-- The word of a loop that sets bit `i` for the `i` below `n` with the property. -/
def setBits (p : Nat → Bool) (n : Nat) : Nat :=
  (List.range n).foldl (fun word i => if p i then word ||| 1 <<< i else word) 0

theorem setBits_testBit (p : Nat → Bool) (n k : Nat) :
    (setBits p n).testBit k = (decide (k < n) && p k) := by
  induction n with
  | zero => simp [setBits]
  | succ n ih =>
      have hlast : setBits p (n + 1)
          = if p n then setBits p n ||| 1 <<< n else setBits p n := by
        rw [setBits, List.range_succ, List.foldl_append]
        rfl
      rw [hlast]
      have hset : (setBits p n ||| 1 <<< n).testBit k
          = ((setBits p n).testBit k || decide (n = k)) := by
        rw [Nat.testBit_or, Nat.one_shiftLeft, Nat.testBit_two_pow]
      by_cases hk : k = n
      · subst hk
        rw [decide_eq_true (Nat.lt_succ_self k), Bool.true_and]
        cases hp : p k
        · rw [if_neg Bool.false_ne_true, ih, hp, Bool.and_false]
        · rw [if_pos rfl, hset, decide_eq_true rfl, Bool.or_true]
      · have hlt : decide (k < n + 1) = decide (k < n) := by
          rw [decide_eq_decide]
          omega
        rw [hlt, ← ih]
        cases hp : p n
        · rw [if_neg Bool.false_ne_true]
        · rw [if_pos rfl, hset, decide_eq_false (Ne.symm hk), Bool.or_false]

theorem setBits_lt (p : Nat → Bool) (n : Nat) : setBits p n < 2 ^ n := by
  apply Nat.lt_pow_two_of_testBit
  intro i hi
  rw [setBits_testBit, decide_eq_false (by omega), Bool.false_and]

end Pmb887x.Library
