import Mathlib.Data.List.Basic

set_option autoImplicit false

/-! # Slices of a byte array

`window` reads a slice `xs[start : start + n]`, `assignSlice` is the assignment to one. As in Python
both are clipped at the end of the array, so that an assignment past the end makes the array longer.
Inside the array an assignment is told apart from the old contents index by index. -/

namespace Pmb887x.Library

variable {α : Type}

/-- `xs[start : start + n]` -/
def window (xs : List α) (start n : Nat) : List α := (xs.drop start).take n

/-- `xs[start : start + n] = ys` -/
def assignSlice (xs : List α) (start n : Nat) (ys : List α) : List α :=
  xs.take start ++ ys ++ xs.drop (start + n)

theorem length_window {xs : List α} {start n : Nat} (h : start + n ≤ xs.length) :
    (window xs start n).length = n := by
  rw [window, List.length_take, List.length_drop]
  omega

theorem getElem?_window (xs : List α) (start n i : Nat) :
    (window xs start n)[i]? = if i < n then xs[start + i]? else none := by
  rw [window, List.getElem?_take, List.getElem?_drop]

theorem getElem?_of_window {xs ys : List α} {start n i : Nat} (h : window xs start n = ys)
    (hi : i < n) : xs[start + i]? = ys[i]? := by
  rw [← h, getElem?_window, if_pos hi]

/-- Slices that agree index by index. -/
theorem window_congr {xs ys : List α} {start start' n : Nat}
    (h : ∀ i < n, xs[start + i]? = ys[start' + i]?) : window xs start n = window ys start' n := by
  apply List.ext_getElem?
  intro i
  rw [getElem?_window, getElem?_window]
  split_ifs with hi
  · exact h i hi
  · rfl

theorem window_length (xs : List α) : window xs 0 xs.length = xs := by
  rw [window, List.drop_zero, List.take_length]

theorem window_zero (xs : List α) (start : Nat) : window xs start 0 = [] := by
  rw [window, List.take_zero]

/-- A slice grows at its end. -/
theorem window_succ {xs : List α} {start n : Nat} {x : α} (h : xs[start + n]? = some x) :
    window xs start (n + 1) = window xs start n ++ [x] := by
  rw [window, window, List.take_add_one, List.getElem?_drop, h, Option.toList_some]

/-- Slices that both reach the end. -/
theorem window_clipped {xs : List α} {start n n' : Nat} (h : xs.length ≤ start + n)
    (h' : xs.length ≤ start + n') : window xs start n = window xs start n' := by
  rw [window, window, List.take_of_length_le, List.take_of_length_le]
  · rw [List.length_drop]
    omega
  · rw [List.length_drop]
    omega

theorem window_window (xs : List α) {start n start' n' : Nat} (h : start' + n' ≤ n) :
    window (window xs start n) start' n' = window xs (start + start') n' := by
  apply window_congr
  intro i hi
  rw [getElem?_window, if_pos (by omega), Nat.add_assoc]

theorem length_assignSlice (xs ys : List α) (start n : Nat) :
    (assignSlice xs start n ys).length
      = min start xs.length + ys.length + (xs.length - (start + n)) := by
  simp only [assignSlice, List.length_append, List.length_take, List.length_drop]

/-- Inside the array an assignment keeps the length. -/
theorem length_assignSlice_of_le {xs ys : List α} {start n : Nat} (hys : ys.length = n)
    (h : start + n ≤ xs.length) : (assignSlice xs start n ys).length = xs.length := by
  rw [length_assignSlice]
  omega

theorem getElem?_assignSlice {xs ys : List α} {start n : Nat} (hys : ys.length = n)
    (h : start + n ≤ xs.length) (i : Nat) :
    (assignSlice xs start n ys)[i]?
      = if start ≤ i ∧ i < start + n then ys[i - start]? else xs[i]? := by
  have htake : (xs.take start).length = start := by
    rw [List.length_take]
    omega
  rw [assignSlice, List.append_assoc]
  by_cases hlow : i < start
  · rw [List.getElem?_append_left (by omega), List.getElem?_take, if_pos hlow, if_neg (by omega)]
  · rw [List.getElem?_append_right (by omega), htake]
    by_cases hhigh : i < start + n
    · rw [List.getElem?_append_left (by omega), if_pos (by omega)]
    · rw [List.getElem?_append_right (by omega), List.getElem?_drop, if_neg (by omega), hys]
      congr 1
      omega

/-! ## Occurrences -/

/-- An occurrence that cannot begin with what is in front is behind it. -/
theorem infix_of_append_left {p front l : List α} (hp : p ≠ []) (hfront : ∀ x ∈ front, p.head? ≠ some x)
    (h : p <:+: front ++ l) : p <:+: l := by
  induction front with
  | nil => exact h
  | cons x front ih =>
      rw [List.cons_append, List.infix_cons_iff] at h
      rcases h with hleading | hwithin
      · rcases List.prefix_cons_iff.mp hleading with hnil | ⟨t, ht, -⟩
        · exact absurd hnil hp
        · rw [ht] at hfront
          exact absurd rfl (hfront x List.mem_cons_self)
      · exact ih (fun y hy => hfront y (List.mem_cons_of_mem x hy)) hwithin

/-- An occurrence that cannot end with what is behind is in front of it. -/
theorem infix_of_append_right {p l back : List α} (hp : p ≠ []) (hback : ∀ x ∈ back, p.getLast? ≠ some x)
    (h : p <:+: l ++ back) : p <:+: l := by
  have hreverse : p.reverse <:+: back.reverse ++ l.reverse := by
    rw [← List.reverse_append]
    exact List.reverse_infix.mpr h
  refine List.reverse_infix.mp (infix_of_append_left (List.reverse_ne_nil_iff.mpr hp) ?_ hreverse)
  intro x hx
  rw [List.head?_reverse]
  exact hback x (List.mem_reverse.mp hx)

end Pmb887x.Library
