import Pmb887x.Library.Bytes

set_option autoImplicit false

/-! # Checked machine operations

Code that must neither wrap a 32-bit expression nor leave an array is embedded in `Checked`: an
operation that would do so is a fault instead of a value. `Safe x Q` says that `x` ends without a
fault and that its value satisfies `Q`; the rules follow the way such code is composed. -/

namespace Pmb887x.Library

/-- What a checked operation can do wrong. -/
inductive Fault where
  | wrap
  | read (index : Nat)
  | write (index : Nat)
  deriving DecidableEq

/-- A computation that may fault. -/
abbrev Checked := Except Fault

namespace Checked

/-- `a + b` in `uint32_t` -/
def add (a b : Nat) : Checked Nat := if a + b < 2 ^ 32 then .ok (a + b) else .error .wrap

/-- `a - b` in `uint32_t` -/
def sub (a b : Nat) : Checked Nat := if b ≤ a then .ok (a - b) else .error .wrap

/-- `a * b` in `uint32_t` -/
def mul (a b : Nat) : Checked Nat := if a * b < 2 ^ 32 then .ok (a * b) else .error .wrap

theorem add_of_lt {a b : Nat} (h : a + b < 2 ^ 32) : add a b = .ok (a + b) := if_pos h

theorem sub_of_le {a b : Nat} (h : b ≤ a) : sub a b = .ok (a - b) := if_pos h

theorem mul_of_lt {a b : Nat} (h : a * b < 2 ^ 32) : mul a b = .ok (a * b) := if_pos h

@[simp] theorem ok_bind {α β : Type} (a : α) (f : α → Checked β) :
    ((.ok a : Checked α) >>= f) = f a := rfl

@[simp] theorem pure_eq {α : Type} (a : α) : (pure a : Checked α) = .ok a := rfl

end Checked

/-- A monadic map whose steps all succeed. -/
theorem mapM_eq_ok {α β : Type} {f : α → Checked β} {g : α → β} (l : List α)
    (h : ∀ a ∈ l, f a = .ok (g a)) : l.mapM f = .ok (l.map g) := by
  induction l with
  | nil => rfl
  | cons a l ih =>
      rw [List.mapM_cons, h a List.mem_cons_self, Checked.ok_bind,
        ih fun b hb => h b (List.mem_cons_of_mem a hb), Checked.ok_bind]
      rfl

/-- A monadic fold whose steps all succeed. -/
theorem foldlM_eq_ok {ε α σ : Type} {f : σ → α → Except ε σ} {g : σ → α → σ} {l : List α} {s : σ}
    (h : ∀ a ∈ l, ∀ s, f s a = .ok (g s a)) : l.foldlM f s = .ok (l.foldl g s) := by
  induction l generalizing s with
  | nil => rfl
  | cons a l ih =>
      rw [List.foldlM_cons, h a List.mem_cons_self, List.foldl_cons]
      exact ih fun b hb => h b (List.mem_cons_of_mem a hb)

theorem exists_foldlM_ok {ε α σ : Type} {f : σ → α → Except ε σ} (l : List α) (s : σ)
    (h : ∀ a s, ∃ s', f s a = .ok s') : ∃ s', l.foldlM f s = .ok s' := by
  induction l generalizing s with
  | nil => exact ⟨s, rfl⟩
  | cons a l ih =>
      obtain ⟨s₁, hs₁⟩ := h a s
      rw [List.foldlM_cons, hs₁]
      exact ih s₁

/-- A composition succeeds only where both of its parts do. -/
theorem exists_of_bind_eq_ok {ε α β : Type} {x : Except ε α} {f : α → Except ε β} {b : β}
    (h : x >>= f = .ok b) : ∃ a, x = .ok a ∧ f a = .ok b := by
  cases x with
  | error fault => cases h
  | ok a => exact ⟨a, rfl, h⟩

theorem bind_eq_ok_iff {ε α β : Type} {x : Except ε α} {f : α → Except ε β} {b : β} :
    x >>= f = .ok b ↔ ∃ a, x = .ok a ∧ f a = .ok b := by
  constructor
  · exact exists_of_bind_eq_ok
  · rintro ⟨a, rfl, hf⟩
    exact hf

/-- `x` does not fault, and its value satisfies `Q`. -/
def Safe {α : Type} (x : Checked α) (Q : α → Prop) : Prop := ∃ a, x = .ok a ∧ Q a

namespace Safe

variable {α β : Type} {x : Checked α} {P Q : α → Prop}

theorem ok {a : α} (h : Q a) : Safe (.ok a) Q := ⟨a, rfl, h⟩

theorem of_eq {a : α} (hx : x = .ok a) (h : Q a) : Safe x Q := ⟨a, hx, h⟩

theorem mono (h : Safe x P) (hPQ : ∀ a, P a → Q a) : Safe x Q := by
  obtain ⟨a, hx, ha⟩ := h
  exact ⟨a, hx, hPQ a ha⟩

/-- The composition rule. -/
theorem bind {f : α → Checked β} {R : β → Prop} (hx : Safe x P) (hf : ∀ a, P a → Safe (f a) R) :
    Safe (x >>= f) R := by
  obtain ⟨a, rfl, ha⟩ := hx
  exact hf a ha

/-- The rule for a branch. -/
theorem ite {c : Prop} [Decidable c] {y : Checked α} (ht : c → Safe x Q) (he : ¬ c → Safe y Q) :
    Safe (if c then x else y) Q := by
  split
  · next h => exact ht h
  · next h => exact he h

end Safe

end Pmb887x.Library
