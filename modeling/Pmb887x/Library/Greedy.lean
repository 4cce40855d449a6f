import Mathlib.Data.List.Induction
import Mathlib.Order.Basic
import Mathlib.Tactic

set_option autoImplicit false

/-! # Greedy selection with suppression

Items come in an order, and each has a level. A pick is the first of the strongest items that are live; it
takes itself and the items it suppresses out of the choice, and the next pick follows. Suppressed items
suppress nothing. `greedy_isSelection` says what the list of picks is. -/

namespace Pmb887x.Library

variable {α β : Type} [LinearOrder β] (level : α → β)

/-! ## One pick -/

/-- A live item replaces a weaker one. -/
def stronger (live : α → Bool) (best : Option α) (a : α) : Option α :=
  if live a then
    match best with
    | none => some a
    | some b => if level a ≤ level b then best else some a
  else best

def strongest (live : α → Bool) (order : List α) : Option α := order.foldl (stronger level live) none

theorem strongest_concat (live : α → Bool) (order : List α) (a : α) :
    strongest level live (order ++ [a]) = stronger level live (strongest level live order) a := by
  unfold strongest
  exact List.foldl_concat _ _ _ _

variable {level}

theorem strongest_eq_none {live : α → Bool} {order : List α}
    (h : strongest level live order = none) : ∀ a ∈ order, live a = false := by
  induction order using List.reverseRecOn with
  | nil => exact fun a ha => absurd ha List.not_mem_nil
  | append_singleton order x ih =>
      rw [strongest_concat] at h
      unfold stronger at h
      intro a ha
      cases hlive : live x with
      | true =>
          rw [if_pos hlive] at h
          split at h
          · cases h
          · next best hbest =>
              split_ifs at h
              cases h.symm.trans hbest
      | false =>
          rw [if_neg (by simp [hlive])] at h
          rcases List.mem_append.mp ha with ha | ha
          · exact ih h a ha
          · rw [List.mem_singleton.mp ha, hlive]

/-- A pick, in its place: stronger than what is live before it, and not weaker than what is behind it. -/
theorem strongest_eq_some {live : α → Bool} {order : List α} {a : α}
    (h : strongest level live order = some a) :
    live a = true ∧ ∃ front back, order = front ++ a :: back ∧
      (∀ b ∈ front, live b = true → level b < level a) ∧
      ∀ b ∈ back, live b = true → level b ≤ level a := by
  induction order using List.reverseRecOn generalizing a with
  | nil => cases h
  | append_singleton order x ih =>
      rw [strongest_concat] at h
      unfold stronger at h
      -- the pick stays, and `x` comes behind it
      have hstay : strongest level live order = some a → (live x = true → level x ≤ level a) →
          live a = true ∧ ∃ front back, order ++ [x] = front ++ a :: back ∧
            (∀ b ∈ front, live b = true → level b < level a) ∧
            ∀ b ∈ back, live b = true → level b ≤ level a := by
        intro hbest hx
        obtain ⟨hlive, front, back, rfl, hfront, hback⟩ := ih hbest
        refine ⟨hlive, front, back ++ [x], by simp, hfront, fun b hb hlive' => ?_⟩
        rcases List.mem_append.mp hb with hb | hb
        · exact hback b hb hlive'
        · obtain rfl := List.mem_singleton.mp hb
          exact hx hlive'
      cases hlive : live x with
      | false =>
          rw [if_neg (by simp [hlive])] at h
          exact hstay h fun hx => absurd (hlive.symm.trans hx) (by decide)
      | true =>
          rw [if_pos hlive] at h
          cases hbest : strongest level live order with
          | none =>
              rw [hbest] at h
              obtain rfl := Option.some.inj h
              refine ⟨hlive, order, [], rfl, fun b hb hb' => ?_, fun b hb => absurd hb List.not_mem_nil⟩
              exact absurd ((strongest_eq_none hbest b hb).symm.trans hb') (by decide)
          | some best =>
              rw [hbest] at h
              dsimp only at h
              split_ifs at h with hle
              · obtain rfl := Option.some.inj h
                exact hstay hbest fun _ => hle
              · obtain rfl := Option.some.inj h
                obtain ⟨-, front, back, rfl, hfront, hback⟩ := ih hbest
                have hless : level best < level x := lt_of_not_ge hle
                refine ⟨hlive, front ++ best :: back, [], rfl, fun b hb hb' => ?_,
                  fun b hb => absurd hb List.not_mem_nil⟩
                rcases List.mem_append.mp hb with hb | hb
                · exact (hfront b hb hb').trans hless
                · rcases List.mem_cons.mp hb with rfl | hb
                  · exact hless
                  · exact (hback b hb hb').trans_lt hless

/-! ## A list of picks -/

variable [DecidableEq α] (level) (suppresses : α → α → Bool) (order : List α)

/-- At most `n` picks. -/
def greedy : Nat → (α → Bool) → List α
  | 0, _ => []
  | n + 1, live =>
      match strongest level live order with
      | none => []
      | some a => a :: greedy n (fun b => live b && decide (b ≠ a) && !suppresses a b)

/-- What the picks are. -/
structure IsSelection (n : Nat) (live : α → Bool) (picks : List α) : Prop where
  length_le : picks.length ≤ n
  mem : ∀ a ∈ picks, a ∈ order ∧ live a = true
  distinct : picks.Nodup
  /-- The stronger one first, and of equal ones the first of the order. -/
  sorted : picks.Pairwise fun a b =>
    level b ≤ level a ∧ (level b = level a → order.idxOf a < order.idxOf b)
  unsuppressed : picks.Pairwise fun a b => suppresses a b = false
  /-- With room left, what is not picked is suppressed by a pick. -/
  complete : picks.length < n → ∀ a ∈ order, live a = true →
    a ∈ picks ∨ ∃ b ∈ picks, suppresses b a = true

variable {level suppresses order}

/-- A pick precedes what is live and as strong. -/
theorem idxOf_lt_of_strongest {live : α → Bool} {a b : α}
    (h : strongest level live order = some a) (hb : b ∈ order) (hlive : live b = true) (hne : b ≠ a) :
    level b ≤ level a ∧ (level b = level a → order.idxOf a < order.idxOf b) := by
  obtain ⟨-, front, back, rfl, hfront, hback⟩ := strongest_eq_some h
  have hplace : b ∈ front ∨ b ∈ back := by
    rcases List.mem_append.mp hb with hb | hb
    · exact .inl hb
    · exact .inr ((List.mem_cons.mp hb).resolve_left hne)
  refine ⟨?_, fun hsame => ?_⟩
  · rcases hplace with hb | hb
    · exact (hfront b hb hlive).le
    · exact hback b hb hlive
  · have hnot : b ∉ front := fun hb => absurd hsame (hfront b hb hlive).ne
    rw [List.idxOf_append_of_notMem hnot, List.idxOf_cons_ne _ (Ne.symm hne)]
    have hfirst : (front ++ a :: back).idxOf a ≤ front.length := by
      by_cases ha : a ∈ front
      · rw [List.idxOf_append_of_mem ha]
        exact List.idxOf_le_length
      · rw [List.idxOf_append_of_notMem ha, List.idxOf_cons_self]
        exact Nat.le_refl _
    omega

/-- **The greedy list.** -/
theorem greedy_isSelection (n : Nat) (live : α → Bool) :
    IsSelection level suppresses order n live (greedy level suppresses order n live) := by
  induction n generalizing live with
  | zero =>
      exact ⟨Nat.le_refl _, fun a ha => absurd ha List.not_mem_nil, List.nodup_nil, .nil, .nil,
        fun h => absurd h (Nat.not_lt_zero _)⟩
  | succ n ih =>
      rw [greedy]
      cases hpick : strongest level live order with
      | none =>
          have hnone := strongest_eq_none hpick
          refine ⟨Nat.zero_le _, fun a ha => absurd ha List.not_mem_nil, List.nodup_nil, .nil, .nil,
            fun _ a ha hlive => ?_⟩
          exact absurd ((hnone a ha).symm.trans hlive) (by decide)
      | some a =>
          obtain ⟨hlive, front, back, horder, -, -⟩ := strongest_eq_some hpick
          have ha : a ∈ order := horder ▸ List.mem_append_right _ List.mem_cons_self
          have hrest := ih fun b => live b && decide (b ≠ a) && !suppresses a b
          -- what is picked later is live, is not `a` and is not suppressed by it
          have hlater : ∀ b ∈ greedy level suppresses order n
              (fun b => live b && decide (b ≠ a) && !suppresses a b),
              b ∈ order ∧ live b = true ∧ b ≠ a ∧ suppresses a b = false := by
            intro b hb
            obtain ⟨hmem, hb'⟩ := hrest.mem b hb
            simp only [Bool.and_eq_true, decide_eq_true_eq, Bool.not_eq_true'] at hb'
            exact ⟨hmem, hb'.1.1, hb'.1.2, hb'.2⟩
          refine ⟨Nat.succ_le_succ hrest.length_le, ?_, ?_, ?_, ?_, fun hroom b hb hlive' => ?_⟩
          · refine List.forall_mem_cons.mpr ⟨⟨ha, hlive⟩, fun b hb => ?_⟩
            exact ⟨(hlater b hb).1, (hlater b hb).2.1⟩
          · exact List.nodup_cons.mpr ⟨fun hmem => (hlater a hmem).2.2.1 rfl, hrest.distinct⟩
          · refine List.pairwise_cons.mpr ⟨fun b hb => ?_, hrest.sorted⟩
            obtain ⟨hmem, hb', hne, -⟩ := hlater b hb
            exact idxOf_lt_of_strongest hpick hmem hb' hne
          · exact List.pairwise_cons.mpr ⟨fun b hb => (hlater b hb).2.2.2, hrest.unsuppressed⟩
          · by_cases hsame : b = a
            · exact .inl (hsame ▸ List.mem_cons_self)
            cases hsuppressed : suppresses a b with
            | true => exact .inr ⟨a, List.mem_cons_self, hsuppressed⟩
            | false =>
                rcases hrest.complete (Nat.lt_of_succ_lt_succ hroom) b hb
                  (by simp [hlive', hsame, hsuppressed]) with hpicked | ⟨c, hc, hsuppresses⟩
                · exact .inl (List.mem_cons_of_mem _ hpicked)
                · exact .inr ⟨c, List.mem_cons_of_mem _ hc, hsuppresses⟩

end Pmb887x.Library
