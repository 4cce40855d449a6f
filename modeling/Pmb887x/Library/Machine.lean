import Mathlib.Init

set_option autoImplicit false

/-! # Machines that react to actions

`step a s` is the state after the action `a`, if the action is possible in `s`. `Reachable` collects
the states of all runs whose steps are allowed; `Reachable.invariant` is the rule by which a property
of all of them is proved, and `reachable_of_run` builds one run from a list of actions. -/

namespace Pmb887x.Library

variable {σ α : Type}

/-- The states of the runs from `start` in which every step is allowed. -/
inductive Reachable (step : α → σ → Option σ) (allowed : σ → α → Prop) (start : σ) : σ → Prop where
  | init : Reachable step allowed start start
  | step {s s' : σ} {a : α} (h : Reachable step allowed start s) (ha : allowed s a)
      (hs : step a s = some s') : Reachable step allowed start s'

/-- **The invariant rule.** What holds at the start and is kept by every allowed step holds in every
    state of every run. -/
theorem Reachable.invariant {step : α → σ → Option σ} {allowed : σ → α → Prop} {start s : σ}
    {P : σ → Prop} (h : Reachable step allowed start s) (hstart : P start)
    (hstep : ∀ s a s', P s → allowed s a → step a s = some s' → P s') : P s := by
  induction h with
  | init => exact hstart
  | step _ ha hs ih => exact hstep _ _ _ ih ha hs

/-- The state after a list of actions. -/
def run (step : α → σ → Option σ) : List α → σ → Option σ
  | [], s => some s
  | a :: rest, s => (step a s).bind (run step rest)

/-- The steps that are allowed, as a machine. -/
def guarded (step : α → σ → Option σ) (allowed : σ → α → Prop) [∀ s a, Decidable (allowed s a)]
    (a : α) (s : σ) : Option σ :=
  if allowed s a then step a s else none

theorem reachable_of_run {step : α → σ → Option σ} {allowed : σ → α → Prop}
    [∀ s a, Decidable (allowed s a)] {start : σ} (actions : List α) :
    ∀ {s s' : σ}, Reachable step allowed start s → run (guarded step allowed) actions s = some s' →
      Reachable step allowed start s' := by
  induction actions with
  | nil =>
      intro s s' h hrun
      exact Option.some.inj hrun ▸ h
  | cons a rest ih =>
      intro s s' h hrun
      obtain ⟨s₁, hs₁, hrest⟩ := Option.bind_eq_some_iff.mp hrun
      obtain ⟨ha, hstep⟩ := Option.ite_none_right_eq_some.mp hs₁
      exact ih (.step h ha hstep) hrest

/-- A run whose last state has a property that can be tested. -/
theorem exists_reachable_of_run {step : α → σ → Option σ} {allowed : σ → α → Prop}
    [∀ s a, Decidable (allowed s a)] {start : σ} {P : σ → Prop} [DecidablePred P]
    (actions : List α)
    (h : (run (guarded step allowed) actions start).any (fun s => decide (P s)) = true) :
    ∃ s, Reachable step allowed start s ∧ P s := by
  obtain ⟨s, hs, hP⟩ := (Option.any_eq_true _ _).mp h
  exact ⟨s, reachable_of_run actions .init hs, of_decide_eq_true hP⟩

end Pmb887x.Library
