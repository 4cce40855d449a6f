import Mathlib.Data.List.Basic
import Mathlib.Tactic.Ring

set_option autoImplicit false

/-! # Hexadecimal text

Numbers and byte strings in upper-case hexadecimal digits, as `printf` writes them, and the readers
that give them back. -/

namespace Pmb887x.Library

/-- The digit for a number below 16. -/
def hexDigit (d : Nat) : Char := Char.ofNat (if d < 10 then 48 + d else 55 + d)

/-- The value of an upper-case digit. -/
def hexValue (c : Char) : Option Nat :=
  if 48 ≤ c.toNat ∧ c.toNat ≤ 57 then some (c.toNat - 48)
  else if 65 ≤ c.toNat ∧ c.toNat ≤ 70 then some (c.toNat - 55)
  else none

theorem hexValue_hexDigit {d : Nat} (h : d < 16) : hexValue (hexDigit d) = some d := by
  have hall : ∀ d < 16, hexValue (hexDigit d) = some d := by decide
  exact hall d h

/-! ## Numbers -/

/-- The digits of a number, at least one: `%X`. -/
def hexNat (n : Nat) : List Char :=
  if n < 16 then [hexDigit n] else hexNat (n / 16) ++ [hexDigit (n % 16)]
termination_by n

/-- At least `k` digits, with zeros in front: `%0kX`. -/
def hexPadded (k n : Nat) : List Char := List.leftpad k '0' (hexNat n)

/-- The number that digits stand for. -/
def hexNumber (digits : List Char) : Option Nat :=
  digits.foldlM (fun n c => (hexValue c).map fun d => n * 16 + d) 0

/-- Exactly `k` digits. -/
def hexFixed : (k n : Nat) → List Char
  | 0, _ => []
  | k + 1, n => hexFixed k (n / 16) ++ [hexDigit (n % 16)]

theorem hexFixed_length (k n : Nat) : (hexFixed k n).length = k := by
  induction k generalizing n with
  | zero => rfl
  | succ k ih => rw [hexFixed, List.length_append, ih, List.length_singleton]

theorem hexFixed_zero (k : Nat) : hexFixed k 0 = List.replicate k '0' := by
  induction k with
  | zero => rfl
  | succ k ih =>
      rw [hexFixed, Nat.zero_div, ih, List.replicate_succ']
      rfl

/-- Where the number fits, padding gives the fixed width. -/
theorem hexPadded_of_lt {k n : Nat} (hk : 0 < k) (h : n < 16 ^ k) :
    hexPadded k n = hexFixed k n := by
  induction k generalizing n with
  | zero => exact absurd hk (Nat.lt_irrefl 0)
  | succ k ih =>
      rw [hexPadded, List.leftpad, hexNat]
      by_cases hsmall : n < 16
      · rw [if_pos hsmall, hexFixed, Nat.div_eq_of_lt hsmall, hexFixed_zero,
          Nat.mod_eq_of_lt hsmall]
        rfl
      · have hk' : 0 < k := by
          rcases Nat.eq_zero_or_pos k with rfl | hpos
          · omega
          · exact hpos
        have hdiv : n / 16 < 16 ^ k := by
          rw [Nat.div_lt_iff_lt_mul (by decide), ← Nat.pow_succ]
          exact h
        have hih := ih hk' hdiv
        rw [hexPadded, List.leftpad] at hih
        rw [if_neg hsmall, hexFixed, ← hih, List.length_append, List.length_singleton,
          Nat.add_sub_add_right, List.append_assoc]

theorem hexNumber_append_digit (digits : List Char) {d : Nat} (h : d < 16) :
    hexNumber (digits ++ [hexDigit d]) = (hexNumber digits).map fun n => n * 16 + d := by
  rw [hexNumber, List.foldlM_append]
  cases hrest : List.foldlM (fun n c => (hexValue c).map fun d => n * 16 + d) 0 digits with
  | none =>
      rw [hexNumber, hrest]
      rfl
  | some n =>
      rw [hexNumber, hrest]
      simp only [Option.bind_eq_bind, Option.bind_some, List.foldlM_cons, List.foldlM_nil,
        hexValue_hexDigit h, Option.map_some, Option.pure_def]

theorem hexNumber_hexFixed {k n : Nat} (h : n < 16 ^ k) : hexNumber (hexFixed k n) = some n := by
  induction k generalizing n with
  | zero =>
      obtain rfl : n = 0 := by
        rw [Nat.pow_zero] at h
        omega
      rfl
  | succ k ih =>
      have hdiv : n / 16 < 16 ^ k := by
        rw [Nat.div_lt_iff_lt_mul (by decide), ← Nat.pow_succ]
        exact h
      rw [hexFixed, hexNumber_append_digit _ (Nat.mod_lt n (by decide)), ih hdiv, Option.map_some]
      congr 1
      omega

theorem hexNumber_hexNat (n : Nat) : hexNumber (hexNat n) = some n := by
  induction n using hexNat.induct with
  | case1 n hsmall =>
      rw [hexNat, if_pos hsmall, ← List.nil_append [hexDigit n], hexNumber_append_digit [] hsmall]
      simp [hexNumber]
  | case2 n hlarge ih =>
      rw [hexNat, if_neg hlarge, hexNumber_append_digit _ (Nat.mod_lt n (by decide)), ih,
        Option.map_some, Nat.div_add_mod']

/-- A number that does not fit takes more digits. -/
theorem hexNat_length {k n : Nat} (h : 16 ^ k ≤ n) : k < (hexNat n).length := by
  induction k generalizing n with
  | zero =>
      rw [hexNat]
      split_ifs
      · exact Nat.one_pos
      · rw [List.length_append]
        exact Nat.succ_pos _
  | succ k ih =>
      have hlarge : ¬ n < 16 := by
        have : 16 ^ 1 ≤ 16 ^ (k + 1) := Nat.pow_le_pow_right (by decide) (by omega)
        omega
      have hdiv : 16 ^ k ≤ n / 16 := by
        rw [Nat.le_div_iff_mul_le (by decide), ← Nat.pow_succ]
        exact h
      rw [hexNat, if_neg hlarge, List.length_append, List.length_singleton]
      exact Nat.succ_lt_succ (ih hdiv)

/-- Where the number does not fit, there is no padding. -/
theorem hexPadded_of_le {k n : Nat} (h : 16 ^ k ≤ n) : hexPadded k n = hexNat n := by
  have hlong := hexNat_length h
  rw [hexPadded, List.leftpad, Nat.sub_eq_zero_of_le hlong.le, List.replicate_zero, List.nil_append]

theorem hexNumber_hexPadded {k : Nat} (hk : 0 < k) (n : Nat) : hexNumber (hexPadded k n) = some n := by
  by_cases h : n < 16 ^ k
  · rw [hexPadded_of_lt hk h, hexNumber_hexFixed h]
  · rw [hexPadded_of_le (Nat.le_of_not_lt h), hexNumber_hexNat]

theorem hexValue_of_mem_hexNat {n : Nat} {c : Char} (h : c ∈ hexNat n) : hexValue c ≠ none := by
  induction n using hexNat.induct with
  | case1 n hsmall =>
      rw [hexNat, if_pos hsmall, List.mem_singleton] at h
      rw [h, hexValue_hexDigit hsmall]
      exact Option.some_ne_none _
  | case2 n hlarge ih =>
      rw [hexNat, if_neg hlarge, List.mem_append, List.mem_singleton] at h
      rcases h with h | rfl
      · exact ih h
      · rw [hexValue_hexDigit (Nat.mod_lt n (by decide))]
        exact Option.some_ne_none _

theorem toNat_of_hexValue {c : Char} (h : hexValue c ≠ none) : 48 ≤ c.toNat ∧ c.toNat ≤ 70 := by
  rw [hexValue] at h
  split_ifs at h with hdigit hletter
  · omega
  · omega
  · exact absurd rfl h

theorem hexValue_of_mem_hexPadded {k n : Nat} {c : Char} (h : c ∈ hexPadded k n) :
    hexValue c ≠ none := by
  rcases List.mem_append.mp h with h | h
  · rw [List.eq_of_mem_replicate h]
    decide
  · exact hexValue_of_mem_hexNat h

/-! ## Byte strings -/

/-- Two digits for every byte. -/
def hexBytes (bytes : List UInt8) : List Char :=
  bytes.flatMap fun b => [hexDigit (b.toNat / 16), hexDigit (b.toNat % 16)]

/-- The byte string that pairs of digits stand for. -/
def bytesOfHex : List Char → Option (List UInt8)
  | [] => some []
  | [_] => none
  | high :: low :: rest => do
      let high ← hexValue high
      let low ← hexValue low
      let bytes ← bytesOfHex rest
      return UInt8.ofNat (high * 16 + low) :: bytes

theorem bytesOfHex_hexBytes (bytes : List UInt8) : bytesOfHex (hexBytes bytes) = some bytes := by
  induction bytes with
  | nil => rfl
  | cons b bytes ih =>
      have hhigh : b.toNat / 16 < 16 := by
        have := b.toNat_lt
        omega
      have hbyte : UInt8.ofNat (b.toNat / 16 * 16 + b.toNat % 16) = b := by
        rw [Nat.div_add_mod', UInt8.ofNat_toNat]
      rw [hexBytes, List.flatMap_cons, ← hexBytes, List.cons_append, List.cons_append,
        List.nil_append, bytesOfHex, hexValue_hexDigit hhigh,
        hexValue_hexDigit (Nat.mod_lt _ (by decide)), ih]
      simp only [Option.bind_eq_bind, Option.bind_some, hbyte, Option.pure_def]

end Pmb887x.Library
