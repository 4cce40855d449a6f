import Mathlib.Data.List.Basic

set_option autoImplicit false

/-! # Prefix-free codes

In a prefix-free code the codewords at the head of a string can be told apart, whatever is behind them. It
stays one for lists with their length in front, and lists of nonempty codewords can be told apart without. -/

namespace Pmb887x.Library

variable {α γ : Type}

/-- What is encoded, and what is behind it, can be read off a string. -/
def PrefixFree (valid : α → Prop) (encode : α → List γ) : Prop :=
  ∀ ⦃a b : α⦄, valid a → valid b → ∀ ⦃x y : List γ⦄, encode a ++ x = encode b ++ y → a = b ∧ x = y

namespace PrefixFree

variable {valid : α → Prop} {encode : α → List γ}

/-- No codeword begins with another one. -/
theorem eq_of_append_eq (h : PrefixFree valid encode) {a b : α} (ha : valid a) (hb : valid b)
    {x : List γ} (heq : encode a ++ x = encode b) : a = b ∧ x = [] :=
  h ha hb (heq.trans (List.append_nil (encode b)).symm)

theorem inj (h : PrefixFree valid encode) {a b : α} (ha : valid a) (hb : valid b)
    (heq : encode a = encode b) : a = b :=
  (h.eq_of_append_eq ha hb ((List.append_nil (encode a)).trans heq)).1

/-- Two lists of one length. -/
theorem flatMap_append (h : PrefixFree valid encode) {as bs : List α} (ha : ∀ a ∈ as, valid a)
    (hb : ∀ b ∈ bs, valid b) (hlength : as.length = bs.length) {x y : List γ}
    (heq : as.flatMap encode ++ x = bs.flatMap encode ++ y) : as = bs ∧ x = y := by
  induction as generalizing bs with
  | nil =>
      obtain rfl := List.eq_nil_of_length_eq_zero hlength.symm
      exact ⟨rfl, heq⟩
  | cons a as ih =>
      cases bs with
      | nil => simp at hlength
      | cons b bs =>
          simp only [List.flatMap_cons, List.append_assoc] at heq
          obtain ⟨rfl, hrest⟩ := h (ha a List.mem_cons_self) (hb b List.mem_cons_self) heq
          obtain ⟨rfl, hxy⟩ := ih (fun a' ha' => ha a' (List.mem_cons_of_mem a ha'))
            (fun b' hb' => hb b' (List.mem_cons_of_mem a hb')) (by simpa using hlength) hrest
          exact ⟨rfl, hxy⟩

/-- Lists of nonempty codewords can be told apart. -/
theorem flatMap_inj (h : PrefixFree valid encode) (hne : ∀ a, encode a ≠ []) {as bs : List α}
    (ha : ∀ a ∈ as, valid a) (hb : ∀ b ∈ bs, valid b)
    (heq : as.flatMap encode = bs.flatMap encode) : as = bs := by
  induction as generalizing bs with
  | nil =>
      cases bs with
      | nil => rfl
      | cons b bs =>
          have hnil := List.append_eq_nil_iff.mp (List.flatMap_cons ▸ heq).symm
          exact absurd hnil.1 (hne b)
  | cons a as ih =>
      cases bs with
      | nil =>
          have hnil := List.append_eq_nil_iff.mp (List.flatMap_cons ▸ heq)
          exact absurd hnil.1 (hne a)
      | cons b bs =>
          simp only [List.flatMap_cons] at heq
          obtain ⟨rfl, hrest⟩ := h (ha a List.mem_cons_self) (hb b List.mem_cons_self) heq
          rw [ih (fun a' ha' => ha a' (List.mem_cons_of_mem a ha'))
            (fun b' hb' => hb b' (List.mem_cons_of_mem a hb')) hrest]

/-- A list behind its length. -/
theorem counted {count : Nat → List γ} {fits : Nat → Prop} (hcount : PrefixFree fits count)
    (h : PrefixFree valid encode) :
    PrefixFree (fun as : List α => fits as.length ∧ ∀ a ∈ as, valid a)
      (fun as => count as.length ++ as.flatMap encode) := by
  intro as bs ha hb x y heq
  simp only [List.append_assoc] at heq
  obtain ⟨hlength, hrest⟩ := hcount ha.1 hb.1 heq
  exact h.flatMap_append ha.2 hb.2 hlength hrest

end PrefixFree

/-- Codewords of one length, which the values determine. -/
theorem prefixFree_of_length {valid : α → Prop} {encode : α → List γ} {n : Nat}
    (hlength : ∀ a, (encode a).length = n)
    (hinj : ∀ ⦃a b : α⦄, valid a → valid b → encode a = encode b → a = b) :
    PrefixFree valid encode := by
  intro a b ha hb x y heq
  obtain ⟨hword, hxy⟩ := List.append_inj heq ((hlength a).trans (hlength b).symm)
  exact ⟨hinj ha hb hword, hxy⟩

end Pmb887x.Library
