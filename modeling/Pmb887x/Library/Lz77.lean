import Mathlib.Data.List.GetD
import Mathlib.Data.Nat.ModEq

set_option autoImplicit false

/-! # Back-references into the text already produced

The common core of the LZ77 family: a decoder extends its output by copying, one element at a time,
what stands `distance` places before the end, so a copy may overlap the text it produces
(`distance < n`). `copyMatch_take` is the fact every encoder rests on: where the text repeats at a
distance, copying reproduces it. A decoder need not keep the whole text: `Window` is a circular
history of its last elements. -/

namespace Pmb887x.Library

variable {α : Type} [Inhabited α]

/-- Append `n` elements to `out`, each a copy of the one `distance` places before it. -/
def copyMatch (out : List α) (distance : Nat) : Nat → List α
  | 0 => out
  | n + 1 => copyMatch (out ++ [out.getD (out.length - distance) default]) distance n

/-- The `n` elements of `data` from `source` on are those from `position` on, and lie inside it. -/
def MatchAt (data : List α) (source position n : Nat) : Prop :=
  position + n ≤ data.length ∧
    ∀ k < n, data.getD (source + k) default = data.getD (position + k) default

@[simp] theorem copyMatch_length (out : List α) (distance n : Nat) :
    (copyMatch out distance n).length = out.length + n := by
  induction n generalizing out with
  | zero => rfl
  | succ n ih => simp [copyMatch, ih]; omega

theorem MatchAt.tail {data : List α} {source position n : Nat}
    (h : MatchAt data source position (n + 1)) : MatchAt data (source + 1) (position + 1) n := by
  obtain ⟨hlen, heq⟩ := h
  refine ⟨by omega, fun k hk => ?_⟩
  have := heq (k + 1) (by omega)
  rwa [show source + 1 + k = source + (k + 1) by omega,
    show position + 1 + k = position + (k + 1) by omega]

/-- **Copying a match reproduces the text.** The prefix of `data` before a match, extended by the
    back-reference, is the longer prefix that ends with the match. -/
theorem copyMatch_take (data : List α) (n : Nat) :
    ∀ (source position : Nat), source < position → MatchAt data source position n →
      copyMatch (data.take position) (position - source) n = data.take (position + n) := by
  induction n with
  | zero => intro source position _ _; rfl
  | succ n ih =>
      intro source position hlt hm
      have hlen : (data.take position).length = position := by
        rw [List.length_take]
        have := hm.1
        omega
      have hpos : position < data.length := by
        have := hm.1
        omega
      -- the copied element is the next one of the text, so the step lands on a longer prefix
      have hstep : data.take position ++ [(data.take position).getD
            ((data.take position).length - (position - source)) default]
          = data.take (position + 1) := by
        have h0 := hm.2 0 (by omega)
        rw [hlen, show position - (position - source) = source by omega, List.take_add_one,
          List.getElem?_eq_getElem hpos]
        simp only [Nat.add_zero] at h0
        simp only [List.getD_eq_getElem?_getD, List.getElem?_take_of_lt hlt] at h0 ⊢
        rw [h0, List.getElem?_eq_getElem hpos]
        rfl
      rw [copyMatch, hstep, show position - source = position + 1 - (source + 1) by omega,
        ih (source + 1) (position + 1) (by omega) hm.tail]
      congr 1
      omega

/-! ## A circular history -/

/-- The cells hold the last `size` elements of the text, each at its index modulo `size`. -/
def Window (size : Nat) (cells : Nat → α) (text : List α) : Prop :=
  ∀ j < text.length, text.length ≤ j + size → cells (j % size) = text.getD j default

/-- Indices less than a window apart have different cells. -/
theorem mod_ne_of_lt {size i j : Nat} (hlt : j < i) (hnear : i < j + size) :
    i % size ≠ j % size := by
  intro h
  have hdvd : size ∣ i - j := (Nat.modEq_iff_dvd' (Nat.le_of_lt hlt)).mp h.symm
  have := Nat.le_of_dvd (by omega) hdvd
  omega

/-- The next element takes the cell of the one that leaves the window. -/
theorem Window.push {size : Nat} {cells cells' : Nat → α} {text : List α} {v : α}
    (h : Window size cells text) (hnew : cells' (text.length % size) = v)
    (hother : ∀ k < size, k ≠ text.length % size → cells' k = cells k) :
    Window size cells' (text ++ [v]) := by
  intro j hj hnear
  rw [List.length_append, List.length_singleton] at hj hnear
  rcases Nat.lt_succ_iff_lt_or_eq.mp hj with hold | rfl
  · have hsize : j % size < size := Nat.mod_lt _ (by omega)
    rw [hother _ hsize (mod_ne_of_lt hold (by omega)).symm, h j hold (by omega),
      List.getD_append _ _ _ _ hold]
  · rw [hnew, List.getD_append_right _ _ _ _ (Nat.le_refl _), Nat.sub_self]
    rfl

/-- What stands `distance` places before the end of the text is in the window. -/
theorem Window.read {size distance : Nat} {cells : Nat → α} {text : List α}
    (h : Window size cells text) (hpos : 0 < distance) (hsize : distance ≤ size)
    (htext : distance ≤ text.length) :
    cells ((text.length - distance) % size) = text.getD (text.length - distance) default :=
  h _ (by omega) (by omega)

end Pmb887x.Library
