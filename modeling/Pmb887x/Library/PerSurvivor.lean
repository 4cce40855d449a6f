import Mathlib.Order.Bounds.Basic

set_option autoImplicit false

/-! # A search with one survivor for each symbol

A sequence is found symbol by symbol. Of the sequences that end in a symbol only one is kept, with whatever
state it has brought the search to, and each step extends the kept ones only. `Keeps.follows`: what is kept
is the state behind a sequence. `Keeps.le_walk`: it is no worse than any other sequence with the same end if
the order by which the search selects is kept by an extension. -/

namespace Pmb887x.Library.PerSurvivor

variable {σ ι : Type}

/-- The state behind a sequence; every step has its own extension. -/
def walk (s : σ) : List (σ → ι → σ) → List ι → σ
  | extend :: steps, i :: inputs => walk (extend s i) steps inputs
  | _, _ => s

theorem walk_nil (s : σ) (inputs : List ι) : walk s [] inputs = s := by
  cases inputs with
  | nil => rfl
  | cons _ _ => rfl

theorem walk_append {steps : List (σ → ι → σ)} {inputs : List ι} (h : inputs.length = steps.length)
    (s : σ) (extend : σ → ι → σ) (i : ι) :
    walk s (steps ++ [extend]) (inputs ++ [i]) = extend (walk s steps inputs) i := by
  induction steps generalizing s inputs with
  | nil =>
      obtain rfl := List.eq_nil_of_length_eq_zero h
      rfl
  | cons f steps ih =>
      cases inputs with
      | nil => cases h
      | cons i' inputs => exact ih (Nat.succ.inj h) (f s i')

/-- The last symbol of a sequence that begins behind `first`. -/
def lastSymbol (first : ι) (inputs : List ι) : ι := inputs.getLastD first

theorem lastSymbol_append (first : ι) (inputs : List ι) (i : ι) : lastSymbol first (inputs ++ [i]) = i :=
  List.getLastD_concat

/-- One step: every symbol's new state extends a kept one, and none of the others would have been better. -/
def Selects (le : σ → σ → Prop) (extend : σ → ι → σ) (kept kept' : ι → σ) : Prop :=
  ∀ i, ∃ p, kept' i = extend (kept p) i ∧ ∀ q, le (kept' i) (extend (kept q) i)

/-- A run of steps; the last one is the outermost. -/
inductive Keeps (le : σ → σ → Prop) : List (σ → ι → σ) → (ι → σ) → (ι → σ) → Prop where
  | nil (kept : ι → σ) : Keeps le [] kept kept
  | snoc {steps : List (σ → ι → σ)} {extend : σ → ι → σ} {kept kept' kept'' : ι → σ}
      (h : Keeps le steps kept kept') (hstep : Selects le extend kept' kept'') :
      Keeps le (steps ++ [extend]) kept kept''

variable {le : σ → σ → Prop} {steps : List (σ → ι → σ)} {kept kept' : ι → σ}

/-- What is kept for a symbol is the state behind a sequence that ends in it. -/
theorem Keeps.follows (h : Keeps le steps kept kept') (i : ι) :
    ∃ p inputs, inputs.length = steps.length ∧ lastSymbol p inputs = i ∧ kept' i = walk (kept p) steps inputs := by
  induction h generalizing i with
  | nil kept => exact ⟨i, [], rfl, rfl, rfl⟩
  | @snoc steps extend kept kept' kept'' _ hstep ih =>
      obtain ⟨p, hp, -⟩ := hstep i
      obtain ⟨first, inputs, hlength, hlast, hkept⟩ := ih p
      refine ⟨first, inputs ++ [i], ?_, lastSymbol_append .., ?_⟩
      · rw [List.length_append, List.length_append, hlength]
        rfl
      · rw [walk_append hlength, ← hkept]
        exact hp

/-- Where extensions keep the order, what is kept is no worse than any sequence with the same end. -/
theorem Keeps.le_walk (h : Keeps le steps kept kept') (hrefl : ∀ s, le s s)
    (htrans : ∀ {s s' s''}, le s s' → le s' s'' → le s s'')
    (hmono : ∀ extend ∈ steps, ∀ {s s' : σ} (i : ι), le s s' → le (extend s i) (extend s' i)) (p : ι)
    {inputs : List ι} (hlength : inputs.length = steps.length) :
    le (kept' (lastSymbol p inputs)) (walk (kept p) steps inputs) := by
  induction h generalizing inputs with
  | nil kept =>
      obtain rfl := List.eq_nil_of_length_eq_zero hlength
      exact hrefl _
  | @snoc steps extend kept kept' kept'' _ hstep ih =>
      rcases List.eq_nil_or_concat inputs with rfl | ⟨before, i, rfl⟩
      · rw [List.length_append] at hlength
        cases hlength
      · rw [List.concat_eq_append] at hlength ⊢
        rw [List.length_append, List.length_append] at hlength
        have hbefore : before.length = steps.length := Nat.succ.inj hlength
        obtain ⟨-, -, hbest⟩ := hstep i
        have hih := ih (fun f hf => hmono f (List.mem_append_left _ hf)) hbefore
        rw [lastSymbol_append, walk_append hbefore]
        exact htrans (hbest _) (hmono extend (List.mem_append_right _ List.mem_cons_self) i hih)

end Pmb887x.Library.PerSurvivor
