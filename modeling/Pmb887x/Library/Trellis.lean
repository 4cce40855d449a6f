import Mathlib.Algebra.Order.Monoid.Defs

set_option autoImplicit false

/-! # The best path through a trellis

A trellis has a state for each time; an input takes it from one state to the next, and each such
branch gains something against what is observed. The Viterbi algorithm keeps the best metric of
every state and the branch it came by, its survivor. `Survivors` is a run of such steps, by whatever
code; `traceback_best` says that following the survivors back gives a best path. -/

namespace Pmb887x.Library

/-- The branch from a state on an input, and what it gains against an observation. -/
structure Trellis (σ ι ω κ : Type) where
  next : σ → ι → σ
  gain : ω → σ → ι → κ

namespace Trellis

variable {σ ι ω κ : Type} [AddCommMonoid κ] [PartialOrder κ]

/-- The state a path from `s` ends in. -/
def endState (t : Trellis σ ι ω κ) (s : σ) (inputs : List ι) : σ := inputs.foldl t.next s

/-- What a path from `s` gains. -/
def pathMetric (t : Trellis σ ι ω κ) : σ → List ω → List ι → κ
  | _, [], _ => 0
  | _, _ :: _, [] => 0
  | s, o :: observed, i :: inputs => t.gain o s i + t.pathMetric (t.next s i) observed inputs

/-- One step of the algorithm: each state's new metric is that of its survivor, and no other branch
into the state has a greater one. -/
structure Selects (t : Trellis σ ι ω κ) (valid : σ → Prop) (o : ω) (metric metric' : σ → κ)
    (survivor : σ → σ × ι) : Prop where
  valid_next : ∀ s i, valid s → valid (t.next s i)
  valid_survivor : ∀ s, valid s → valid (survivor s).1
  arrives : ∀ s, valid s → t.next (survivor s).1 (survivor s).2 = s
  metric_eq : ∀ s, valid s →
    metric' s = metric (survivor s).1 + t.gain o (survivor s).1 (survivor s).2
  best : ∀ s i, valid s → metric s + t.gain o s i ≤ metric' (t.next s i)

/-- A run of the algorithm from one metric to another. -/
inductive Survivors (t : Trellis σ ι ω κ) (valid : σ → Prop) :
    List ω → (σ → κ) → List (σ → σ × ι) → (σ → κ) → Prop where
  | nil (metric : σ → κ) : Survivors t valid [] metric [] metric
  | cons {o : ω} {observed : List ω} {metric metric' last : σ → κ} {survivor : σ → σ × ι}
      {survivors : List (σ → σ × ι)} (h : t.Selects valid o metric metric' survivor)
      (later : Survivors t valid observed metric' survivors last) :
      Survivors t valid (o :: observed) metric (survivor :: survivors) last

/-- Following the survivors back from the last state: the first state and the inputs. -/
def traceback : List (σ → σ × ι) → σ → σ × List ι
  | [], s => (s, [])
  | survivor :: later, s =>
      let path := traceback later s
      ((survivor path.1).1, (survivor path.1).2 :: path.2)

variable {t : Trellis σ ι ω κ} {valid : σ → Prop} {observed : List ω} {metric last : σ → κ}
  {survivors : List (σ → σ × ι)}

theorem Survivors.length_eq (h : Survivors t valid observed metric survivors last) :
    survivors.length = observed.length := by
  induction h with
  | nil _ => rfl
  | cons _ _ ih => exact congrArg Nat.succ ih

/-- The path the traceback finds ends where it began to follow, and has the metric of that state. -/
theorem Survivors.traceback_spec (h : Survivors t valid observed metric survivors last) :
    ∀ {s : σ}, valid s → valid (traceback survivors s).1 ∧
      (traceback survivors s).2.length = observed.length ∧
      t.endState (traceback survivors s).1 (traceback survivors s).2 = s ∧
      metric (traceback survivors s).1
        + t.pathMetric (traceback survivors s).1 observed (traceback survivors s).2 = last s := by
  induction h with
  | nil metric =>
      intro s hs
      exact ⟨hs, rfl, rfl, add_zero _⟩
  | @cons o observed metric metric' last survivor survivors hstep _ ih =>
      intro s hs
      obtain ⟨hvalid, hlength, hend, hmetric⟩ := ih hs
      have harrives := hstep.arrives _ hvalid
      refine ⟨hstep.valid_survivor _ hvalid, congrArg Nat.succ hlength, ?_, ?_⟩
      · rw [traceback, endState, List.foldl_cons, harrives]
        exact hend
      · rw [traceback, pathMetric, ← add_assoc, ← hstep.metric_eq _ hvalid, harrives]
        exact hmetric

variable [IsOrderedAddMonoid κ]

/-- No path does better than the metric of the state it ends in. -/
theorem Survivors.le_last (h : Survivors t valid observed metric survivors last) :
    ∀ {s : σ} {inputs : List ι}, valid s → inputs.length = observed.length →
      metric s + t.pathMetric s observed inputs ≤ last (t.endState s inputs) := by
  induction h with
  | nil metric =>
      intro s inputs _ hlength
      obtain rfl := List.eq_nil_of_length_eq_zero hlength
      exact le_of_eq (add_zero _)
  | @cons o observed metric metric' last survivor survivors hstep _ ih =>
      intro s inputs hs hlength
      cases inputs with
      | nil => cases hlength
      | cons i inputs =>
          have hrest := ih (hstep.valid_next s i hs) (Nat.succ.inj hlength)
          calc metric s + (t.gain o s i + t.pathMetric (t.next s i) observed inputs)
              = metric s + t.gain o s i + t.pathMetric (t.next s i) observed inputs :=
                (add_assoc _ _ _).symm
            _ ≤ metric' (t.next s i) + t.pathMetric (t.next s i) observed inputs :=
                add_le_add_left (hstep.best s i hs) _
            _ ≤ last (t.endState (t.next s i) inputs) := hrest

/-- **Viterbi.** Of all paths that end in `s`, from whatever state, the one the traceback finds is
best. -/
theorem Survivors.traceback_best (h : Survivors t valid observed metric survivors last) {s s₀ : σ}
    {inputs : List ι} (hs : valid s) (hs₀ : valid s₀) (hlength : inputs.length = observed.length)
    (hend : t.endState s₀ inputs = s) :
    metric s₀ + t.pathMetric s₀ observed inputs ≤ metric (traceback survivors s).1
      + t.pathMetric (traceback survivors s).1 observed (traceback survivors s).2 := by
  rw [(h.traceback_spec hs).2.2.2, ← hend]
  exact h.le_last hs₀ hlength

end Trellis

end Pmb887x.Library
