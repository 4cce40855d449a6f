import Mathlib.Data.List.Chain
import Mathlib.Data.List.Pairwise
import Mathlib.Tactic.SplitIfs

set_option autoImplicit false

/-! # Functions between given points

`piecewise` goes through the segments between points with increasing abscissas and takes the first that
reaches the argument. What a segment does between its two ends is a parameter, so that the rules serve every
rounding: it only has to join the ends (`Joins`), and to rise between them where the whole has to rise
(`Rises`). -/

namespace Pmb887x.Library

/-- A point that a function is to go through. -/
structure Knot where
  x : Int
  y : Int

section Piecewise

variable {seg : Knot → Knot → Int → Int} {p q : Knot} {rest : List Knot}

/-- The first segment that reaches the argument; the last ordinate behind all of them. -/
def piecewise (seg : Knot → Knot → Int → Int) : Knot → List Knot → Int → Int
  | p, [], _ => p.y
  | p, q :: rest, x => if x ≤ q.x then seg p q x else piecewise seg q rest x

/-- A segment that goes from one point to the other. -/
structure Joins (seg : Knot → Knot → Int → Int) (p q : Knot) : Prop where
  lt : p.x < q.x
  left : seg p q p.x = p.y
  right : seg p q q.x = q.y

/-- A segment that also rises on the way. -/
structure Rises (seg : Knot → Knot → Int → Int) (p q : Knot) : Prop extends Joins seg p q where
  mono : ∀ x x', p.x ≤ x → x ≤ x' → x' ≤ q.x → seg p q x ≤ seg p q x'

theorem Rises.joins (h : List.IsChain (Rises seg) (p :: rest)) : List.IsChain (Joins seg) (p :: rest) :=
  h.imp fun _ _ hrises => hrises.toJoins

/-- Each point is left of those that follow. -/
theorem x_lt_of_mem (h : List.IsChain (Joins seg) (p :: rest)) : ∀ k ∈ rest, p.x < k.x := by
  induction rest generalizing p with
  | nil => exact fun k hk => absurd hk List.not_mem_nil
  | cons q rest ih =>
      obtain ⟨hpq, hrest⟩ := List.isChain_cons_cons.mp h
      refine List.forall_mem_cons.mpr ⟨hpq.lt, fun k hk => ?_⟩
      exact Int.lt_trans hpq.lt (ih hrest k hk)

theorem piecewise_start (h : List.IsChain (Joins seg) (p :: rest)) : piecewise seg p rest p.x = p.y := by
  cases rest with
  | nil => rfl
  | cons q rest =>
      obtain ⟨hpq, -⟩ := List.isChain_cons_cons.mp h
      rw [piecewise, if_pos (Int.le_of_lt hpq.lt), hpq.left]

/-- **The function goes through its points.** -/
theorem piecewise_knot (h : List.IsChain (Joins seg) (p :: rest)) :
    ∀ k ∈ p :: rest, piecewise seg p rest k.x = k.y := by
  induction rest generalizing p with
  | nil =>
      intro k hk
      rw [List.mem_singleton.mp hk, piecewise_start h]
  | cons q rest ih =>
      obtain ⟨hpq, hrest⟩ := List.isChain_cons_cons.mp h
      refine List.forall_mem_cons.mpr ⟨piecewise_start h, fun k hk => ?_⟩
      rcases List.mem_cons.mp hk with rfl | hk'
      · rw [piecewise, if_pos (Int.le_refl _), hpq.right]
      · have hbehind := x_lt_of_mem hrest k hk'
        rw [piecewise, if_neg (Int.not_le.mpr hbehind), ih hrest k hk]

/-- From one of the points on, those before it do not matter. -/
theorem piecewise_suffix {front : List Knot} {first : Knot} {others : List Knot} {x : Int}
    (h : List.IsChain (Joins seg) (first :: others)) (hsplit : first :: others = front ++ p :: rest)
    (hx : p.x ≤ x) : piecewise seg first others x = piecewise seg p rest x := by
  induction front generalizing first others with
  | nil =>
      obtain ⟨rfl, rfl⟩ := List.cons.inj hsplit
      rfl
  | cons k front ih =>
      obtain ⟨rfl, hothers⟩ := List.cons.inj hsplit
      cases others with
      | nil => simp at hothers
      | cons next others =>
          obtain ⟨hkn, hrest⟩ := List.isChain_cons_cons.mp h
          have hvalue := ih hrest hothers
          rw [piecewise]
          split_ifs with hle
          · -- the two segments meet at the point between them
            have hpn : next.x ≤ p.x := by
              have hmem : p ∈ next :: others := hothers ▸ List.mem_append_right _ List.mem_cons_self
              rcases List.mem_cons.mp hmem with rfl | hmem
              · exact Int.le_refl _
              · exact Int.le_of_lt (x_lt_of_mem hrest p hmem)
            have hnext : x = next.x := Int.le_antisymm hle (Int.le_trans hpn hx)
            rw [← hvalue, hnext, hkn.right, piecewise_start hrest]
          · exact hvalue

/-- Between two neighbours the function is their segment. -/
theorem piecewise_between {front : List Knot} {first : Knot} {others : List Knot} {x : Int}
    (h : List.IsChain (Joins seg) (first :: others)) (hsplit : first :: others = front ++ p :: q :: rest)
    (hp : p.x ≤ x) (hq : x ≤ q.x) : piecewise seg first others x = seg p q x := by
  rw [piecewise_suffix h hsplit hp, piecewise, if_pos hq]

/-- **The function rises.** -/
theorem piecewise_mono (h : List.IsChain (Rises seg) (p :: rest)) {x x' : Int} (hx : p.x ≤ x)
    (hle : x ≤ x') : piecewise seg p rest x ≤ piecewise seg p rest x' := by
  induction rest generalizing p x with
  | nil => exact Int.le_refl _
  | cons q rest ih =>
      obtain ⟨hpq, hrest⟩ := List.isChain_cons_cons.mp h
      rw [piecewise, piecewise]
      by_cases hq' : x' ≤ q.x
      · rw [if_pos hq', if_pos (Int.le_trans hle hq')]
        exact hpq.mono x x' hx hle hq'
      · rw [if_neg hq']
        have hqx' := Int.le_of_lt (Int.not_le.mp hq')
        by_cases hq : x ≤ q.x
        · rw [if_pos hq]
          calc seg p q x ≤ seg p q q.x := hpq.mono x q.x hx hq (Int.le_refl _)
            _ = q.y := hpq.right
            _ = piecewise seg q rest q.x := (piecewise_start (Rises.joins hrest)).symm
            _ ≤ piecewise seg q rest x' := ih hrest (Int.le_refl _) hqx'
        · rw [if_neg hq]
          exact ih hrest (Int.le_of_lt (Int.not_le.mp hq)) hle

/-- It does not leave the ordinates of its first and its last point. -/
theorem piecewise_mem_Icc (h : List.IsChain (Rises seg) (p :: rest)) {x : Int} (hx : p.x ≤ x)
    (hlast : x ≤ ((p :: rest).getLast (List.cons_ne_nil _ _)).x) :
    p.y ≤ piecewise seg p rest x ∧
      piecewise seg p rest x ≤ ((p :: rest).getLast (List.cons_ne_nil _ _)).y := by
  have hjoins := Rises.joins h
  constructor
  · rw [← piecewise_start hjoins]
    exact piecewise_mono h (Int.le_refl _) hx
  · rw [← piecewise_knot hjoins _ (List.getLast_mem (List.cons_ne_nil _ _))]
    exact piecewise_mono h hx hlast

end Piecewise

end Pmb887x.Library
