import Mathlib.Algebra.BigOperators.Ring.List
import Mathlib.Algebra.Ring.Nat
import Mathlib.Algebra.Order.BigOperators.Group.List

set_option autoImplicit false

/-! # Pieces laid one behind the other

A list of sizes, and where each of them begins: `LaidAt sizes o s` says that a piece of size `s` begins at
`o`. Pieces may be empty; an address is in at most one piece, and below the sum it is in one. -/

namespace Pmb887x.Library

/-- A piece of size `s` is laid at `o`. -/
def LaidAt (sizes : List Nat) (o s : Nat) : Prop :=
  ∃ front back, sizes = front ++ s :: back ∧ o = front.sum

namespace LaidAt

variable {sizes sizes' front : List Nat} {o s o' s' a x : Nat}

theorem intro (front : List Nat) (s : Nat) (back : List Nat) :
    LaidAt (front ++ s :: back) front.sum s :=
  ⟨front, back, rfl, rfl⟩

theorem not_nil : ¬ LaidAt [] o s := by
  rintro ⟨front, back, h, -⟩
  exact List.append_ne_nil_of_right_ne_nil front (List.cons_ne_nil s back) h.symm

theorem mem (h : LaidAt sizes o s) : s ∈ sizes := by
  obtain ⟨front, back, rfl, -⟩ := h
  exact List.mem_append_right front List.mem_cons_self

theorem append_iff :
    LaidAt (sizes ++ sizes') o s ↔
      LaidAt sizes o s ∨ sizes.sum ≤ o ∧ LaidAt sizes' (o - sizes.sum) s := by
  constructor
  · rintro ⟨front, back, h, rfl⟩
    rcases List.append_eq_append_iff.mp h with ⟨mid, rfl, hback⟩ | ⟨mid, rfl, hback⟩
    · rw [List.sum_append]
      exact Or.inr ⟨Nat.le_add_right _ _, mid, back, hback, Nat.add_sub_cancel_left _ _⟩
    · cases mid with
      | nil =>
          rw [List.append_nil]
          exact Or.inr ⟨Nat.le_refl _, [], back, hback.symm, Nat.sub_self _⟩
      | cons y mid =>
          obtain ⟨rfl, -⟩ := List.cons.inj hback
          exact Or.inl ⟨front, mid, rfl, rfl⟩
  · rintro (⟨front, back, rfl, rfl⟩ | ⟨hle, front, back, rfl, ho⟩)
    · exact ⟨front, back ++ sizes', by simp, rfl⟩
    · refine ⟨sizes ++ front, back, by simp, ?_⟩
      rw [List.sum_append, ← ho, Nat.add_sub_cancel' hle]

theorem cons_iff : LaidAt (x :: sizes) o s ↔ (o = 0 ∧ s = x) ∨ x ≤ o ∧ LaidAt sizes (o - x) s := by
  have hone : LaidAt [x] o s ↔ o = 0 ∧ s = x := by
    constructor
    · rintro ⟨front, back, h, rfl⟩
      cases front with
      | nil => exact ⟨rfl, (List.cons.inj h).1.symm⟩
      | cons y front => simp at h
    · rintro ⟨rfl, rfl⟩
      exact intro [] s []
  have happend := @append_iff [x] sizes o s
  rwa [hone, List.sum_singleton] at happend

theorem end_le (h : LaidAt sizes o s) : o + s ≤ sizes.sum := by
  obtain ⟨front, back, rfl, rfl⟩ := h
  rw [List.sum_append, List.sum_cons]
  omega

/-- What is laid before and what is laid behind a piece. -/
theorem end_le_or (h : LaidAt sizes o s) (h' : LaidAt sizes o' s') :
    (o = o' ∧ s = s') ∨ o + s ≤ o' ∨ o' + s' ≤ o := by
  obtain ⟨front, back, rfl, rfl⟩ := h
  rcases append_iff.mp h' with hfront | ⟨hle, hback⟩
  · exact Or.inr (Or.inr hfront.end_le)
  · rcases cons_iff.mp hback with ⟨ho, rfl⟩ | ⟨hge, -⟩
    · exact Or.inl ⟨by omega, rfl⟩
    · exact Or.inr (Or.inl (by omega))

/-- An address is in at most one piece. -/
theorem unique (h : LaidAt sizes o s) (h' : LaidAt sizes o' s') (ho : o ≤ a) (ha : a < o + s)
    (ho' : o' ≤ a) (ha' : a < o' + s') : o = o' ∧ s = s' := by
  rcases h.end_le_or h' with heq | hle | hge
  · exact heq
  · omega
  · omega

/-- An address below the sum is in a piece. -/
theorem exists_of_lt_sum (h : a < sizes.sum) : ∃ o s, LaidAt sizes o s ∧ o ≤ a ∧ a < o + s := by
  induction sizes generalizing a with
  | nil => simp at h
  | cons x sizes ih =>
      rw [List.sum_cons] at h
      by_cases hx : a < x
      · exact ⟨0, x, cons_iff.mpr (Or.inl ⟨rfl, rfl⟩), Nat.zero_le a, by omega⟩
      · obtain ⟨o, s, hlaid, ho, ha⟩ := ih (a := a - x) (by omega)
        refine ⟨x + o, s, cons_iff.mpr (Or.inr ⟨Nat.le_add_right x o, ?_⟩), by omega, by omega⟩
        rwa [Nat.add_sub_cancel_left]

theorem dvd {d : Nat} (hd : ∀ x ∈ sizes, d ∣ x) (h : LaidAt sizes o s) : d ∣ o ∧ d ∣ s := by
  obtain ⟨front, back, rfl, rfl⟩ := h
  refine ⟨List.dvd_sum fun x hx => hd x (List.mem_append_left _ hx), hd s ?_⟩
  exact List.mem_append_right front List.mem_cons_self

/-- Pieces of one size. -/
theorem replicate {n k : Nat} (h : k < n) (s : Nat) : LaidAt (List.replicate n s) (k * s) s := by
  refine ⟨List.replicate k s, List.replicate (n - k - 1) s, ?_, List.sum_replicate_nat.symm⟩
  rw [← List.replicate_succ, ← List.replicate_add]
  congr 1
  omega

/-- The piece that an address is in, where the first pieces are of one size. -/
theorem replicate_append_iff {n : Nat} (hs : 0 < s) (ha : a < n * s) :
    (LaidAt (List.replicate n s ++ sizes) o s' ∧ o ≤ a ∧ a < o + s') ↔ o = a / s * s ∧ s' = s := by
  have hlaid : LaidAt (List.replicate n s ++ sizes) (a / s * s) s :=
    append_iff.mpr (Or.inl (replicate (Nat.div_lt_of_lt_mul (by rwa [Nat.mul_comm])) s))
  have hle := Nat.div_mul_le_self a s
  have hlt := Nat.lt_div_mul_add (a := a) hs
  constructor
  · rintro ⟨h, ho, ha⟩
    exact h.unique hlaid ho ha hle hlt
  · rintro ⟨rfl, rfl⟩
    exact ⟨hlaid, hle, hlt⟩

/-- The first piece with a property. -/
theorem exists_first {P : Nat → Nat → Prop} (h : LaidAt sizes o s) (hP : P o s) :
    ∃ front s back, sizes = front ++ s :: back ∧ P front.sum s ∧
      ∀ o' s', LaidAt front o' s' → ¬ P o' s' := by
  obtain ⟨front, back, rfl, rfl⟩ := h
  induction hlength : front.length using Nat.strong_induction_on generalizing front s back with
  | _ n ih =>
      by_cases hfront : ∃ o' s', LaidAt front o' s' ∧ P o' s'
      · obtain ⟨o', s', ⟨front', back', rfl, rfl⟩, hP'⟩ := hfront
        have hlt : front'.length < n := by
          rw [← hlength, List.length_append, List.length_cons]
          omega
        obtain ⟨front'', s'', back'', heq, hfirst⟩ :=
          ih front'.length hlt front' (back' ++ s :: back) hP' rfl
        exact ⟨front'', s'', back'', by rw [← heq]; simp, hfirst⟩
      · push Not at hfront
        exact ⟨front, s, back, rfl, hP, hfront⟩

end LaidAt

end Pmb887x.Library
