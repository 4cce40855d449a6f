import Pmb887x.Library.Checked
import Mathlib.Tactic.SplitIfs

set_option autoImplicit false

/-! # Checked signed operations

The signed integers of a machine have no value behind their range, and a division has none by zero. Sums and
products are taken in ℤ and then checked by `int32` or `int64`. -/

namespace Pmb887x.Library

/-- A value of `int32_t`. -/
def int32 (x : Int) : Checked Int := if -2 ^ 31 ≤ x ∧ x < 2 ^ 31 then .ok x else .error .wrap

/-- A value of `int64_t`. -/
def int64 (x : Int) : Checked Int := if -2 ^ 63 ≤ x ∧ x < 2 ^ 63 then .ok x else .error .wrap

/-- `a / b`, toward zero. -/
def divide (a b : Int) : Checked Int := if b = 0 then .error .wrap else .ok (a.tdiv b)

/-- `a / b` of unsigned numbers. -/
def quotient (a b : Nat) : Checked Nat := if b = 0 then .error .wrap else .ok (a / b)

/-- `a % b` of unsigned numbers. -/
def remainder (a b : Nat) : Checked Nat := if b = 0 then .error .wrap else .ok (a % b)

/-- The conversion to `int32_t`: it wraps and is no fault. -/
def toInt32 (x : Int) : Int := x.bmod (2 ^ 32)

theorem int32_ok {x : Int} (h : -2 ^ 31 ≤ x) (h' : x < 2 ^ 31) : int32 x = .ok x := if_pos ⟨h, h'⟩

theorem int64_ok {x : Int} (h : -2 ^ 63 ≤ x) (h' : x < 2 ^ 63) : int64 x = .ok x := if_pos ⟨h, h'⟩

theorem divide_ok {a b : Int} (h : b ≠ 0) : divide a b = .ok (a.tdiv b) := if_neg h

theorem quotient_ok {a b : Nat} (h : b ≠ 0) : quotient a b = .ok (a / b) := if_neg h

theorem remainder_ok {a b : Nat} (h : b ≠ 0) : remainder a b = .ok (a % b) := if_neg h

theorem toInt32_eq {x : Int} (h : -2 ^ 31 ≤ x) (h' : x < 2 ^ 31) : toInt32 x = x :=
  Int.bmod_eq_of_le (by omega) (by omega)

end Pmb887x.Library
