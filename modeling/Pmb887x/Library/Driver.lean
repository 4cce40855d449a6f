import Mathlib.Order.Defs.Unbundled

set_option autoImplicit false

/-! # Programs that wait for input

A device program runs on the input it has got so far: it ends, it waits for input that has not come
yet, or it faults. `Driver σ ε α` is such a program over the state `σ` with faults `ε`; the state it
leaves is there in all three cases.

`Triple P p Q F` is its correctness statement: if the program starts in `P` and ends, value and state
are in `Q`; if it faults, the fault is one of `F`. `Follows R p` says what holds of the state in all
three cases, `Yields p Q` what holds of the value. `Leaves Q W` says of one run that it does not fault
and where it ends or waits. -/

namespace Pmb887x.Library

/-- How far a program gets. -/
inductive Outcome (ε α : Type) where
  | done (a : α)
  | waiting
  | fault (e : ε)
  deriving DecidableEq

/-- A program over the state `σ`. -/
def Driver (σ ε α : Type) := σ → Outcome ε α × σ

namespace Driver

variable {σ ε α β : Type}

instance : Monad (Driver σ ε) where
  pure a := fun s => (.done a, s)
  bind p f := fun s =>
    match p s with
    | (.done a, s) => f a s
    | (.waiting, s) => (.waiting, s)
    | (.fault e, s) => (.fault e, s)

/-- Read the state. -/
def get : Driver σ ε σ := fun s => (.done s, s)

/-- Change the state. -/
def modify (f : σ → σ) : Driver σ ε Unit := fun s => (.done (), f s)

/-- Wait for input. -/
def wait : Driver σ ε α := fun s => (.waiting, s)

/-- Fault. -/
def fault (e : ε) : Driver σ ε α := fun s => (.fault e, s)

theorem bind_done {p : Driver σ ε α} {f : α → Driver σ ε β} {s s' : σ} {a : α}
    (h : p s = (.done a, s')) : (p >>= f) s = f a s' := by
  simp only [Bind.bind, h]

theorem bind_waiting {p : Driver σ ε α} {f : α → Driver σ ε β} {s s' : σ}
    (h : p s = (.waiting, s')) : (p >>= f) s = (.waiting, s') := by
  simp only [Bind.bind, h]

theorem bind_fault {p : Driver σ ε α} {f : α → Driver σ ε β} {s s' : σ} {e : ε}
    (h : p s = (.fault e, s')) : (p >>= f) s = (.fault e, s') := by
  simp only [Bind.bind, h]

theorem get_bind (f : σ → Driver σ ε β) (s : σ) : (Driver.get >>= f) s = f s s := rfl

/-- What a triple asks of an outcome and the state it comes with. -/
def Meets (Q : α → σ → Prop) (F : ε → Prop) : Outcome ε α × σ → Prop
  | (.done a, s) => Q a s
  | (.waiting, _) => True
  | (.fault e, _) => F e

theorem Meets.mono {Q Q' : α → σ → Prop} {F : ε → Prop} {r : Outcome ε α × σ} (h : Meets Q F r)
    (hQ : ∀ a s, Q a s → Q' a s) : Meets Q' F r := by
  rcases r with ⟨a | - | e, s⟩
  · exact hQ a s h
  · trivial
  · exact h

/-- The composition rule, from one state. -/
theorem Meets.bind {p : Driver σ ε α} {f : α → Driver σ ε β} {Q : α → σ → Prop} {R : β → σ → Prop}
    {F : ε → Prop} {s : σ} (hp : Meets Q F (p s)) (hf : ∀ a s', Q a s' → Meets R F (f a s')) :
    Meets R F ((p >>= f) s) := by
  simp only [Bind.bind]
  rcases hps : p s with ⟨a | - | e, s'⟩
  · rw [hps] at hp
    exact hf a s' hp
  · trivial
  · rw [hps] at hp
    exact hp

/-- From `P` the program ends in `Q`, or faults within `F`. -/
def Triple (P : σ → Prop) (p : Driver σ ε α) (Q : α → σ → Prop) (F : ε → Prop) : Prop :=
  ∀ s, P s → Meets Q F (p s)

namespace Triple

variable {P P' : σ → Prop} {Q Q' : α → σ → Prop} {F : ε → Prop} {p : Driver σ ε α}

theorem pure {a : α} (h : ∀ s, P s → Q a s) : Triple P (Pure.pure a : Driver σ ε α) Q F := h

/-- The composition rule. -/
theorem bind {f : α → Driver σ ε β} {R : β → σ → Prop} (hp : Triple P p Q F)
    (hf : ∀ a, Triple (Q a) (f a) R F) : Triple P (p >>= f) R F :=
  fun s hs => (hp s hs).bind hf

/-- The rule of consequence. -/
theorem conseq (h : Triple P' p Q' F) (hP : ∀ s, P s → P' s) (hQ : ∀ a s, Q' a s → Q a s) :
    Triple P p Q F :=
  fun s hs => (h s (hP s hs)).mono hQ

theorem ite {c : Prop} [Decidable c] {q : Driver σ ε α} (ht : c → Triple P p Q F)
    (he : ¬ c → Triple P q Q F) : Triple P (if c then p else q) Q F := by
  split
  · next h => exact ht h
  · next h => exact he h

theorem wait : Triple P (Driver.wait : Driver σ ε α) Q F := fun _ _ => trivial

end Triple

/-- However far the program gets, it takes the state along `R`. -/
def Follows (R : σ → σ → Prop) (p : Driver σ ε α) : Prop := ∀ s, R s (p s).2

namespace Follows

variable {R : σ → σ → Prop} {p : Driver σ ε α}

theorem pure [Std.Refl R] (a : α) : Follows R (Pure.pure a : Driver σ ε α) :=
  fun s => Std.Refl.refl s

theorem get [Std.Refl R] : Follows R (Driver.get : Driver σ ε σ) := fun s => Std.Refl.refl s

theorem wait [Std.Refl R] : Follows R (Driver.wait : Driver σ ε α) := fun s => Std.Refl.refl s

theorem fault [Std.Refl R] (e : ε) : Follows R (Driver.fault e : Driver σ ε α) :=
  fun s => Std.Refl.refl s

theorem modify {f : σ → σ} (h : ∀ s, R s (f s)) : Follows R (Driver.modify f : Driver σ ε Unit) := h

/-- The composition rule. -/
theorem bind [IsTrans σ R] {f : α → Driver σ ε β} (hp : Follows R p)
    (hf : ∀ a, Follows R (f a)) : Follows R (p >>= f) := by
  intro s
  have hps := hp s
  simp only [Bind.bind]
  rcases hrun : p s with ⟨a | - | e, s'⟩
  · rw [hrun] at hps
    exact IsTrans.trans _ _ _ hps (hf a s')
  · rwa [hrun] at hps
  · rwa [hrun] at hps

theorem ite {c : Prop} [Decidable c] {q : Driver σ ε α} (ht : c → Follows R p)
    (he : ¬ c → Follows R q) : Follows R (if c then p else q) := by
  split
  · next h => exact ht h
  · next h => exact he h

end Follows

/-- A value the program ends with is in `Q`. -/
def Yields (p : Driver σ ε α) (Q : α → Prop) : Prop := ∀ s a s', p s = (.done a, s') → Q a

namespace Yields

variable {p : Driver σ ε α} {Q : α → Prop}

theorem pure {a : α} (h : Q a) : Yields (Pure.pure a : Driver σ ε α) Q := by
  intro s a' s' hrun
  cases hrun
  exact h

theorem any : Yields p (fun _ => True) := fun _ _ _ _ => trivial

/-- The composition rule. -/
theorem bind {f : α → Driver σ ε β} {R : β → Prop} (hp : Yields p Q)
    (hf : ∀ a, Q a → Yields (f a) R) : Yields (p >>= f) R := by
  intro s b s' hrun
  simp only [Bind.bind] at hrun
  rcases hps : p s with ⟨a | - | e, s₁⟩
  · rw [hps] at hrun
    exact hf a (hp s a s₁ hps) s₁ b s' hrun
  · rw [hps] at hrun
    cases hrun
  · rw [hps] at hrun
    cases hrun

theorem ite {c : Prop} [Decidable c] {q : Driver σ ε α} (ht : c → Yields p Q)
    (he : ¬ c → Yields q Q) : Yields (if c then p else q) Q := by
  split
  · next h => exact ht h
  · next h => exact he h

end Yields

/-- The program does not fault; it ends in `Q`, or waits in `W`. -/
def Leaves (Q : α → σ → Prop) (W : σ → Prop) : Outcome ε α × σ → Prop
  | (.done a, s) => Q a s
  | (.waiting, s) => W s
  | (.fault _, _) => False

namespace Leaves

variable {Q Q' : α → σ → Prop} {W W' : σ → Prop} {r : Outcome ε α × σ}

theorem mono (h : Leaves Q W r) (hQ : ∀ a s, Q a s → Q' a s) (hW : ∀ s, W s → W' s) :
    Leaves Q' W' r := by
  rcases r with ⟨a | - | e, s⟩
  · exact hQ a s h
  · exact hW s h
  · exact h

/-- The composition rule, from one state. -/
theorem bind {p : Driver σ ε α} {f : α → Driver σ ε β} {R : β → σ → Prop} {s : σ}
    (hp : Leaves Q W (p s)) (hf : ∀ a s', Q a s' → Leaves R W' (f a s')) (hW : ∀ s', W s' → W' s') :
    Leaves R W' ((p >>= f) s) := by
  simp only [Bind.bind]
  rcases hps : p s with ⟨a | - | e, s'⟩
  · rw [hps] at hp
    exact hf a s' hp
  · rw [hps] at hp
    exact hW s' hp
  · rw [hps] at hp
    exact hp

end Leaves

end Driver

end Pmb887x.Library
