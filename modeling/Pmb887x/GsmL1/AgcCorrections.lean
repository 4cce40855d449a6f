import Mathlib.Algebra.Order.Field.Rat
import Mathlib.Tactic.Linarith
import Mathlib.Tactic.Ring
import Mathlib.Tactic.FieldSimp
import Mathlib.Tactic.Positivity
import Pmb887x.GsmL1.AgcChannels

set_option autoImplicit false

/-! # Corrections between the points

The slope between two points is computed in units of 1/65536 and rounded toward zero, the correction of a
channel is rounded down. So it lies between the corrections of the points on either side, follows the slope
from one to the other and is less than 2 away from the line. The last step toward a point can be missing; the
loop never computes it, because it goes on to the next segment there. -/

namespace Pmb887x.GsmL1.SiemensX85

open Library

/-! ## One segment -/

/-- A point as the loop sees it. -/
def AgcPoint.knot (point : AgcPoint) : Knot := ⟨point.position, point.correction.toInt⟩

/-- `correction_step_x16` -/
def agcStep (p q : Knot) : Int := ((q.y - p.y) * 65536).tdiv (q.x - p.x)

/-- The correction at a position before the upper point, and the one at the upper point. -/
def agcSegment (p q : Knot) (x : Int) : Int :=
  if x = q.x then q.y else p.y + (x - p.x) * agcStep p q / 65536

section Segment

variable {p q : Knot}

/-- The step rounds toward zero. -/
theorem agcStep_bounds (h : p.x < q.x) :
    (p.y ≤ q.y → 0 ≤ agcStep p q ∧ agcStep p q * (q.x - p.x) ≤ (q.y - p.y) * 65536 ∧
      (q.y - p.y) * 65536 < agcStep p q * (q.x - p.x) + (q.x - p.x)) ∧
    (q.y ≤ p.y → agcStep p q ≤ 0 ∧ (q.y - p.y) * 65536 ≤ agcStep p q * (q.x - p.x) ∧
      agcStep p q * (q.x - p.x) < (q.y - p.y) * 65536 + (q.x - p.x)) := by
  have hdx : 0 < q.x - p.x := Int.sub_pos_of_lt h
  constructor
  · intro hle
    have hdy : 0 ≤ (q.y - p.y) * 65536 := by omega
    rw [agcStep, Int.tdiv_eq_ediv_of_nonneg hdy]
    refine ⟨Int.ediv_nonneg hdy (Int.le_of_lt hdx), Int.ediv_mul_le _ (Int.ne_of_gt hdx), ?_⟩
    have hlt := Int.lt_ediv_add_one_mul_self ((q.y - p.y) * 65536) hdx
    rwa [Int.add_mul, Int.one_mul] at hlt
  · intro hle
    have hdy : 0 ≤ -((q.y - p.y) * 65536) := by omega
    have hneg : agcStep p q = -(-((q.y - p.y) * 65536) / (q.x - p.x)) := by
      rw [agcStep, ← Int.tdiv_eq_ediv_of_nonneg hdy, Int.neg_tdiv, Int.neg_neg]
    have hlow := Int.ediv_mul_le (-((q.y - p.y) * 65536)) (Int.ne_of_gt hdx)
    have hhigh := Int.lt_ediv_add_one_mul_self (-((q.y - p.y) * 65536)) hdx
    have hnonneg := Int.ediv_nonneg hdy (Int.le_of_lt hdx)
    rw [Int.add_mul, Int.one_mul] at hhigh
    rw [hneg, Int.neg_mul]
    refine ⟨?_, ?_, ?_⟩ <;> omega

/-- What is added to the lower correction, before it is divided. -/
theorem agcProduct_bounds (h : p.x < q.x) {x : Int} (hp : p.x ≤ x) (hq : x < q.x) :
    (p.y ≤ q.y → 0 ≤ (x - p.x) * agcStep p q ∧ (x - p.x) * agcStep p q ≤ (q.y - p.y) * 65536) ∧
    (q.y ≤ p.y → (q.y - p.y) * 65536 ≤ (x - p.x) * agcStep p q ∧ (x - p.x) * agcStep p q ≤ 0) := by
  obtain ⟨hup, hdown⟩ := agcStep_bounds h
  have hoffset : 0 ≤ x - p.x := Int.sub_nonneg_of_le hp
  have hshort : x - p.x ≤ q.x - p.x := by omega
  constructor
  · intro hle
    obtain ⟨hstep, hlow, -⟩ := hup hle
    refine ⟨Int.mul_nonneg hoffset hstep, Int.le_trans ?_ hlow⟩
    rw [Int.mul_comm (agcStep p q)]
    exact Int.mul_le_mul_of_nonneg_right hshort hstep
  · intro hle
    obtain ⟨hstep, hlow, -⟩ := hdown hle
    refine ⟨Int.le_trans hlow ?_, Int.mul_nonpos_of_nonneg_of_nonpos hoffset hstep⟩
    rw [Int.mul_comm (agcStep p q)]
    exact Int.mul_le_mul_of_nonpos_right hshort hstep

theorem agcSegment_joins (h : p.x < q.x) : Joins agcSegment p q where
  lt := h
  left := by
    rw [agcSegment, if_neg (Int.ne_of_lt h), Int.sub_self, Int.zero_mul, Int.zero_ediv, Int.add_zero]
  right := if_pos rfl

/-- The correction is between those of the two points. -/
theorem agcSegment_between (h : p.x < q.x) {x : Int} (hp : p.x ≤ x) (hq : x ≤ q.x) :
    (p.y ≤ q.y → p.y ≤ agcSegment p q x ∧ agcSegment p q x ≤ q.y) ∧
    (q.y ≤ p.y → q.y ≤ agcSegment p q x ∧ agcSegment p q x ≤ p.y) := by
  rw [agcSegment]
  split_ifs with hx
  · exact ⟨fun hle => ⟨hle, Int.le_refl _⟩, fun hle => ⟨Int.le_refl _, hle⟩⟩
  · obtain ⟨hup, hdown⟩ := agcProduct_bounds h hp (lt_of_le_of_ne hq hx)
    constructor
    · intro hle
      have hproduct := hup hle
      omega
    · intro hle
      have hproduct := hdown hle
      omega

/-- The correction follows the slope. -/
theorem agcSegment_mono (h : p.x < q.x) {x x' : Int} (hp : p.x ≤ x) (hle : x ≤ x') (hq : x' ≤ q.x) :
    (p.y ≤ q.y → agcSegment p q x ≤ agcSegment p q x') ∧
    (q.y ≤ p.y → agcSegment p q x' ≤ agcSegment p q x) := by
  by_cases hx' : x' = q.x
  · have hbetween := agcSegment_between h hp (Int.le_trans hle hq)
    rw [show agcSegment p q x' = q.y from if_pos hx']
    exact ⟨fun hy => (hbetween.1 hy).2, fun hy => (hbetween.2 hy).1⟩
  · have hx : x ≠ q.x := by omega
    obtain ⟨hup, hdown⟩ := agcStep_bounds h
    rw [agcSegment, agcSegment, if_neg hx, if_neg hx']
    have hoffset : x - p.x ≤ x' - p.x := Int.sub_le_sub_right hle _
    constructor
    · intro hy
      have hproduct := Int.mul_le_mul_of_nonneg_right hoffset (hup hy).1
      omega
    · intro hy
      have hproduct := Int.mul_le_mul_of_nonpos_right hoffset (hdown hy).1
      omega

/-- The line through the two points, which has all rational numbers. -/
def lineAt (p q : Knot) (x : Int) : ℚ := p.y + (x - p.x) * (q.y - p.y) / (q.x - p.x)

/-- The same without the division, for a position before the upper point. -/
theorem agcSegment_near_scaled (h : p.x < q.x) (hwide : q.x - p.x ≤ 65536) {x : Int} (hp : p.x ≤ x)
    (hq : x < q.x) :
    |(x - p.x) * agcStep p q / 65536 * (q.x - p.x) - (x - p.x) * (q.y - p.y)| < 2 * (q.x - p.x) := by
  have hdx : 0 < q.x - p.x := Int.sub_pos_of_lt h
  have hoffset : 0 ≤ x - p.x := Int.sub_nonneg_of_le hp
  have hstep : -(q.x - p.x) ≤ agcStep p q * (q.x - p.x) - (q.y - p.y) * 65536 ∧
      agcStep p q * (q.x - p.x) - (q.y - p.y) * 65536 ≤ q.x - p.x := by
    obtain ⟨hup, hdown⟩ := agcStep_bounds h
    rcases Int.le_total p.y q.y with hy | hy
    · have hbounds := hup hy
      omega
    · have hbounds := hdown hy
      omega
  have hlow := Int.mul_le_mul_of_nonneg_left hstep.1 hoffset
  have hhigh := Int.mul_le_mul_of_nonneg_left hstep.2 hoffset
  have hshort : (x - p.x) * (q.x - p.x) ≤ 65536 * (q.x - p.x) :=
    Int.mul_le_mul_of_nonneg_right (by omega) (Int.le_of_lt hdx)
  -- the rounding down of the quotient
  have hquotient := Int.ediv_mul_le ((x - p.x) * agcStep p q) (show (65536 : Int) ≠ 0 by decide)
  have hquotient' := Int.lt_ediv_add_one_mul_self ((x - p.x) * agcStep p q) (show (0 : Int) < 65536 by decide)
  have hfloor := Int.mul_le_mul_of_nonneg_right hquotient (Int.le_of_lt hdx)
  have hfloor' := Int.mul_lt_mul_of_pos_right hquotient' hdx
  rw [abs_lt]
  constructor
  · linarith
  · linarith

/-- The correction is less than 2 away from the line. -/
theorem agcSegment_near (h : p.x < q.x) (hwide : q.x - p.x ≤ 65536) {x : Int} (hp : p.x ≤ x) (hq : x ≤ q.x) :
    |(agcSegment p q x : ℚ) - lineAt p q x| < 2 := by
  have hdx : (0 : ℚ) < q.x - p.x := by
    rw [← Int.cast_sub, Int.cast_pos]
    exact Int.sub_pos_of_lt h
  by_cases hx : x = q.x
  · have hline : lineAt p q q.x = q.y := by
      rw [lineAt, mul_div_cancel_left₀ _ (ne_of_gt hdx), add_sub_cancel]
    rw [hx, show agcSegment p q q.x = q.y from if_pos rfl, hline, sub_self, abs_zero]
    exact two_pos
  · have hscaled := agcSegment_near_scaled h hwide hp (lt_of_le_of_ne hq hx)
    have hdifference : (agcSegment p q x : ℚ) - lineAt p q x
        = (((x - p.x) * agcStep p q / 65536 * (q.x - p.x) - (x - p.x) * (q.y - p.y) : Int) : ℚ)
          / (q.x - p.x) := by
      rw [agcSegment, if_neg hx, lineAt, eq_div_iff (ne_of_gt hdx)]
      push_cast
      field_simp
      ring
    rw [hdifference, abs_div, abs_of_pos hdx, div_lt_iff₀ hdx, ← Int.cast_abs]
    exact_mod_cast hscaled

end Segment

/-! ## The loop -/

/-- A correction that the table can hold. -/
def AgcPoint.Fits (point : AgcPoint) : Prop := -128 ≤ point.correction.toInt ∧ point.correction.toInt < 128

instance (point : AgcPoint) : Decidable point.Fits := inferInstanceAs (Decidable (_ ∧ _))

/-- The division rounds down, whatever the sign. -/
theorem divideFloor_ok {x : Int} (h : -2 ^ 31 ≤ x) (h' : x < 2 ^ 31) :
    divideFloor x 65536 = .ok (x / 65536) := by
  rw [divideFloor, divide_ok (by decide), Checked.ok_bind]
  split_ifs with hround
  · have hfloor : x.tdiv 65536 - 1 = x / 65536 := by
      obtain ⟨hneg, hrest⟩ := hround
      rw [Int.tdiv_eq_ediv, if_neg (by rw [Int.dvd_iff_tmod_eq_zero]; omega)]
      exact Int.add_sub_cancel _ 1
    rw [hfloor]
    exact int32_ok (by omega) (by omega)
  · have hfloor : x.tdiv 65536 = x / 65536 := by
      rw [Int.tdiv_eq_ediv, if_pos (by rw [Int.dvd_iff_tmod_eq_zero]; omega)]
      omega
    rw [hfloor]
    exact int32_ok (by omega) (by omega)

section Loop

variable {lower : AgcPoint} {rest : List AgcPoint} {position : Nat}

/-- The inner loop goes to the last point that is not behind the position. -/
theorem advanceLower_spec (rest : List AgcPoint) (hlower : lower.position ≤ position) :
    ∃ front lower' rest', advanceLower position lower rest = (lower', rest') ∧
      lower :: rest = front ++ lower' :: rest' ∧ lower'.position ≤ position ∧
      ∀ upper ∈ rest'.head?, position < upper.position := by
  induction rest generalizing lower with
  | nil => exact ⟨[], lower, [], rfl, rfl, hlower, fun upper hupper => by cases hupper⟩
  | cons upper rest ih =>
      rw [advanceLower]
      split_ifs with hle
      · obtain ⟨front, lower', rest', hadvance, hsplit, hspec⟩ := ih hle
        exact ⟨lower :: front, lower', rest', hadvance, congrArg (lower :: ·) hsplit, hspec⟩
      · refine ⟨[], lower, upper :: rest, rfl, rfl, hlower, fun upper' hupper => ?_⟩
        cases hupper
        exact Nat.not_le.mp hle

/-- Between two corrections that fit, the products of the loop are small. -/
theorem agcProduct_small {p q : Knot} (h : p.x < q.x) (hp : -128 ≤ p.y ∧ p.y < 128)
    (hq : -128 ≤ q.y ∧ q.y < 128) {x : Int} (hleft : p.x ≤ x) (hright : x < q.x) :
    (-255 * 65536 ≤ (x - p.x) * agcStep p q ∧ (x - p.x) * agcStep p q ≤ 255 * 65536) ∧
      -128 * 65536 ≤ p.y * 65536 + (x - p.x) * agcStep p q ∧
      p.y * 65536 + (x - p.x) * agcStep p q ≤ 127 * 65536 := by
  obtain ⟨hup, hdown⟩ := agcProduct_bounds h hleft hright
  rcases Int.le_total p.y q.y with hy | hy
  · have hproduct := hup hy
    refine ⟨⟨?_, ?_⟩, ?_, ?_⟩ <;> omega
  · have hproduct := hdown hy
    refine ⟨⟨?_, ?_⟩, ?_, ?_⟩ <;> omega

/-- The correction of a position behind `lower` and before the next point. Nothing wraps on the way. -/
theorem correctionX16_ok (hlower : lower.position ≤ position)
    (hupper : ∀ upper ∈ rest.head?, position < upper.position ∧ upper.position ≤ 373)
    (hfits : ∀ point ∈ lower :: rest, point.Fits) :
    ∃ scaled, correctionX16 position lower rest = .ok scaled ∧ divideFloor scaled 65536
      = .ok (piecewise agcSegment lower.knot (rest.map AgcPoint.knot) position) := by
  have hfit := hfits lower List.mem_cons_self
  have ⟨hlow, hhigh⟩ := hfit
  cases rest with
  | nil =>
      refine ⟨lower.correction.toInt * 65536, int32_ok (by omega) (by omega), ?_⟩
      rw [divideFloor_ok (by omega) (by omega), Int.mul_ediv_cancel _ (by decide)]
      rfl
  | cons upper rest =>
      obtain ⟨hlt, hlast⟩ := hupper upper rfl
      have hfit' := hfits upper (List.mem_cons_of_mem _ List.mem_cons_self)
      have ⟨hlow', hhigh'⟩ := hfit'
      have hx : lower.knot.x < upper.knot.x := Int.ofNat_lt.mpr (Nat.lt_of_le_of_lt hlower hlt)
      have hp : lower.knot.x ≤ position := Int.ofNat_le.mpr hlower
      have hq : (position : Int) < upper.knot.x := Int.ofNat_lt.mpr hlt
      obtain ⟨hproduct, hsum⟩ := agcProduct_small hx hfit hfit' hp hq
      refine ⟨lower.knot.y * 65536 + (position - lower.knot.x) * agcStep lower.knot upper.knot, ?_, ?_⟩
      · rw [correctionX16, correctionBetween, int32_ok (by omega) (by omega), Checked.ok_bind,
          int32_ok (by omega) (by omega), Checked.ok_bind, int32_ok (by omega) (by omega), Checked.ok_bind,
          int32_ok (by omega) (by omega), Checked.ok_bind, int32_ok (by omega) (by omega), Checked.ok_bind,
          divide_ok (by omega), Checked.ok_bind]
        change (int32 ((position - lower.knot.x) * agcStep lower.knot upper.knot) >>= fun product =>
          int32 (lower.knot.y * 65536 + product)) = _
        rw [int32_ok (by omega) (by omega), Checked.ok_bind]
        exact int32_ok (by omega) (by omega)
      · rw [divideFloor_ok (by omega) (by omega), List.map_cons, piecewise, if_pos (Int.le_of_lt hq), agcSegment,
          if_neg (Int.ne_of_lt hq), Int.add_comm, Int.add_mul_ediv_right _ _ (by decide), Int.add_comm]

end Loop

/-! ## The points of a record -/

section Points

variable {band : GsmBand} (points : AgcPoints band)

/-- The correction of a position, in ℤ. -/
def AgcPoints.valueAt (position : Nat) : Int :=
  piecewise agcSegment points.first.knot (points.rest.map AgcPoint.knot) position

theorem AgcPoints.joins :
    List.IsChain (Joins agcSegment) (points.first.knot :: points.rest.map AgcPoint.knot) := by
  rw [← List.map_cons, List.isChain_map]
  exact points.increasing.imp fun p q hlt => agcSegment_joins (Int.ofNat_lt.mpr hlt)

theorem AgcPoints.knots_eq {front : List AgcPoint} {lower : AgcPoint} {rest : List AgcPoint}
    (hsplit : points.all = front ++ lower :: rest) :
    points.first.knot :: points.rest.map AgcPoint.knot
      = front.map AgcPoint.knot ++ lower.knot :: rest.map AgcPoint.knot := by
  rw [← List.map_cons, ← List.map_cons, ← List.map_append]
  exact congrArg _ hsplit

theorem AgcPoints.position_le : ∀ point ∈ points.all, point.position ≤ agcBandLastPosition band := by
  have hpairwise : points.all.Pairwise fun p q => p.position ≤ q.position :=
    List.IsChain.pairwise (points.increasing.imp fun p q hlt => Nat.le_of_lt hlt)
  intro point hpoint
  have hsplit := List.dropLast_append_getLast (List.cons_ne_nil points.first points.rest)
  rw [← points.position_last]
  rw [AgcPoints.all, ← hsplit] at hpairwise hpoint
  rcases List.mem_append.mp hpoint with hfront | hlast
  · exact (List.pairwise_append.mp hpairwise).2.2 point hfront _ (List.mem_singleton_self _)
  · exact Nat.le_of_eq (congrArg AgcPoint.position (List.mem_singleton.mp hlast))

/-- **The loop stores the interpolated corrections**, with `lower` anywhere before its next position. -/
theorem channelCorrections_ok (hfits : ∀ point ∈ points.all, point.Fits) {positions : List Nat}
    (hsorted : positions.Pairwise (· ≤ ·)) {front : List AgcPoint} {lower : AgcPoint} {rest : List AgcPoint}
    (hsplit : points.all = front ++ lower :: rest)
    (hfrom : ∀ position ∈ positions, lower.position ≤ position) :
    channelCorrections band positions lower rest
      = .ok (positions.map fun position => (agcChannelIndex band position, points.valueAt position)) := by
  induction positions generalizing front lower rest with
  | nil => rfl
  | cons position positions ih =>
      obtain ⟨hbehind, hsorted'⟩ := List.pairwise_cons.mp hsorted
      obtain ⟨skipped, lower', rest', hadvance, hrest, hle, hupper⟩ :=
        advanceLower_spec rest (hfrom position List.mem_cons_self)
      have hsplit' : points.all = (front ++ skipped) ++ lower' :: rest' := by
        rw [hsplit, hrest, List.append_assoc]
      have hmem : ∀ point ∈ lower' :: rest', point ∈ points.all := by
        intro point hpoint
        rw [hsplit']
        exact List.mem_append_right _ hpoint
      have hvalue : points.valueAt position
          = piecewise agcSegment lower'.knot (rest'.map AgcPoint.knot) position :=
        piecewise_suffix points.joins (points.knots_eq hsplit') (Int.ofNat_le.mpr hle)
      obtain ⟨scaled, hscaled, hdivided⟩ := correctionX16_ok hle
        (fun upper hhead => ⟨hupper upper hhead, Nat.le_trans
          (points.position_le upper (hmem upper (List.mem_cons_of_mem _ (List.mem_of_mem_head? hhead))))
          (agcBandLastPosition_le band)⟩)
        (fun point hpoint => hfits point (hmem point hpoint))
      have hstored := ih hsorted' hsplit' fun next hnext => Nat.le_trans hle (hbehind next hnext)
      rw [channelCorrections, hadvance]
      dsimp only
      rw [hscaled, Checked.ok_bind, hdivided, Checked.ok_bind, hstored, Checked.ok_bind, ← hvalue]
      rfl

end Points

end Pmb887x.GsmL1.SiemensX85
