import Pmb887x.GsmL1.AgcCorrections

set_option autoImplicit false

/-! # What a record makes of the channels

A row of the table has eight bits for a correction. As long as the corrections of the points fit, so do those
between them, and each channel of the band gets its own; a point that does not fit is cut off, or a product on
the way leaves its 32 bits. -/

namespace Pmb887x.GsmL1.SiemensX85

open Library

/-! ## The row -/

theorem storeCorrections_spec {stored : List (Nat × Int)} (row : CorrectionRow)
    (hlt : ∀ entry ∈ stored, entry.1 < gsmChannelCount) (hnodup : (stored.map Prod.fst).Nodup) :
    ∃ row' : CorrectionRow, storeCorrections row stored = .ok row' ∧
      (∀ entry ∈ stored, row'[entry.1]? = some (Int8.ofInt entry.2)) ∧
      ∀ index, index ∉ stored.map Prod.fst → row'[index]? = row[index]? := by
  induction stored generalizing row with
  | nil => exact ⟨row, rfl, fun entry hentry => absurd hentry List.not_mem_nil, fun _ _ => rfl⟩
  | cons entry stored ih =>
      obtain ⟨index, correction⟩ := entry
      obtain ⟨hindex, hlt'⟩ := List.forall_mem_cons.mp hlt
      obtain ⟨hfresh, hnodup'⟩ := List.nodup_cons.mp hnodup
      obtain ⟨row', hrow, hentries, hothers⟩ := ih (row.set index (Int8.ofInt correction)) hlt' hnodup'
      refine ⟨row', ?_, List.forall_mem_cons.mpr ⟨?_, hentries⟩, fun other hother => ?_⟩
      · rw [storeCorrections, dif_pos hindex, hrow]
      · rw [hothers index hfresh, Vector.getElem?_set_self]
      · obtain ⟨hne, hother'⟩ := not_or.mp (fun hor => hother (List.mem_cons.mpr hor))
        rw [hothers other hother', Vector.getElem?_set_ne _ (Ne.symm hne)]

/-- The positions of a band. -/
abbrev agcPositions (band : GsmBand) : List Nat := List.range (agcBandLastPosition band + 1)

theorem mem_agcPositions {band : GsmBand} {position : Nat} :
    position ∈ agcPositions band ↔ position ≤ agcBandLastPosition band := by
  rw [List.mem_range, Nat.lt_succ_iff]

/-- A band has each of its entries once. -/
theorem nodup_agcChannelIndex (band : GsmBand) : ((agcPositions band).map (agcChannelIndex band)).Nodup := by
  refine List.Nodup.map_on (fun position hposition position' hposition' hindex => ?_) List.nodup_range
  exact (agcChannelIndex_inj (mem_agcPositions.mp hposition) (mem_agcPositions.mp hposition') hindex).2

variable {band : GsmBand} {record : AgcChannelRecord} {points : AgcPoints band}

/-- What becomes of a row when the loop has computed its corrections. -/
theorem loadAgcChannelRecord_of_computed {value : Nat → Int} (hpoints : agcChannelPoints band record = some points)
    (hcomputed : channelCorrections band (agcPositions band) points.first points.rest
      = .ok ((agcPositions band).map fun position => (agcChannelIndex band position, value position)))
    (row : CorrectionRow) :
    ∃ row' : CorrectionRow, loadAgcChannelRecord band record row = .ok (some row') ∧
      (∀ position ≤ agcBandLastPosition band,
        row'[agcChannelIndex band position]? = some (Int8.ofInt (value position))) ∧
      ∀ index, (∀ position ≤ agcBandLastPosition band, agcChannelIndex band position ≠ index) →
        row'[index]? = row[index]? := by
  have hindices : ((agcPositions band).map fun position => (agcChannelIndex band position, value position)).map
      Prod.fst = (agcPositions band).map (agcChannelIndex band) := by
    rw [List.map_map]
    rfl
  have hlt : ∀ entry ∈ (agcPositions band).map fun position => (agcChannelIndex band position, value position),
      entry.1 < gsmChannelCount := by
    intro entry hentry
    obtain ⟨position, hposition, rfl⟩ := List.mem_map.mp hentry
    exact agcChannelIndex_lt (mem_agcPositions.mp hposition)
  obtain ⟨row', hrow, hentries, hothers⟩ :=
    storeCorrections_spec row hlt (by rw [hindices]; exact nodup_agcChannelIndex band)
  refine ⟨row', ?_, fun position hposition => ?_, fun index hindex => hothers index fun hmem => ?_⟩
  · rw [loadAgcChannelRecord, hpoints]
    dsimp only
    rw [hcomputed, Checked.ok_bind, hrow]
    rfl
  · exact hentries _ (List.mem_map_of_mem (mem_agcPositions.mpr hposition))
  · rw [hindices] at hmem
    obtain ⟨position, hposition, heq⟩ := List.mem_map.mp hmem
    exact hindex position (mem_agcPositions.mp hposition) heq

/-! ## The corrections of the channels -/

/-- Two points with none between them. -/
def AgcPoints.Neighbours (points : AgcPoints band) (p q : AgcPoint) : Prop :=
  ∃ front rest, points.all = front ++ p :: q :: rest

/-- What the points of a record are to make of the positions of their band. No computation leaves its type and
each entry of the band is stored once, with a correction of eight bits. The corrections go through the points;
between two of them they follow the slope, without leaving the two, less than 2 away from the line. -/
structure Interpolates (record : AgcChannelRecord) (points : AgcPoints band) (value : Nat → Int) : Prop where
  computed : channelCorrections band (agcPositions band) points.first points.rest
    = .ok ((agcPositions band).map fun position => (agcChannelIndex band position, value position))
  once : ((agcPositions band).map (agcChannelIndex band)).Nodup
  loaded : ∀ row, ∃ row' : CorrectionRow, loadAgcChannelRecord band record row = .ok (some row') ∧
    ∀ position ≤ agcBandLastPosition band,
      (row'[agcChannelIndex band position]?).map Int8.toInt = some (value position)
  fits : ∀ position ≤ agcBandLastPosition band, -128 ≤ value position ∧ value position < 128
  exact_at : ∀ point ∈ points.all, value point.position = point.correction.toInt
  between : ∀ p q, points.Neighbours p q → ∀ position, p.position ≤ position → position ≤ q.position →
    min p.correction.toInt q.correction.toInt ≤ value position ∧
      value position ≤ max p.correction.toInt q.correction.toInt
  near : ∀ p q, points.Neighbours p q → ∀ position, p.position ≤ position → position ≤ q.position →
    |(value position : ℚ) - lineAt p.knot q.knot position| < 2
  mono : ∀ p q, points.Neighbours p q → ∀ position position', p.position ≤ position →
    position ≤ position' → position' ≤ q.position →
      (p.correction ≤ q.correction → value position ≤ value position') ∧
        (q.correction ≤ p.correction → value position' ≤ value position)

section Neighbours

variable {p q : AgcPoint} {position : Nat}

theorem AgcPoints.Neighbours.mem (h : points.Neighbours p q) : p ∈ points.all ∧ q ∈ points.all := by
  obtain ⟨front, rest, hsplit⟩ := h
  rw [hsplit]
  exact ⟨List.mem_append_right _ List.mem_cons_self,
    List.mem_append_right _ (List.mem_cons_of_mem _ List.mem_cons_self)⟩

theorem AgcPoints.Neighbours.lt (h : points.Neighbours p q) : p.knot.x < q.knot.x := by
  obtain ⟨front, rest, hsplit⟩ := h
  have hchain := points.increasing
  rw [← AgcPoints.all, hsplit] at hchain
  exact Int.ofNat_lt.mpr (List.isChain_cons_cons.mp hchain.right_of_append).1

/-- Between two neighbours the corrections are those of their segment. -/
theorem AgcPoints.Neighbours.valueAt_eq (h : points.Neighbours p q) (hp : p.position ≤ position)
    (hq : position ≤ q.position) : points.valueAt position = agcSegment p.knot q.knot position := by
  obtain ⟨front, rest, hsplit⟩ := h
  exact piecewise_between points.joins (points.knots_eq hsplit) (Int.ofNat_le.mpr hp) (Int.ofNat_le.mpr hq)

theorem AgcPoints.Neighbours.valueAt_mem (h : points.Neighbours p q) (hp : p.position ≤ position)
    (hq : position ≤ q.position) :
    min p.correction.toInt q.correction.toInt ≤ points.valueAt position ∧
      points.valueAt position ≤ max p.correction.toInt q.correction.toInt := by
  obtain ⟨hup, hdown⟩ := agcSegment_between h.lt (Int.ofNat_le.mpr hp) (Int.ofNat_le.mpr hq)
  rw [h.valueAt_eq hp hq]
  rcases Int.le_total p.knot.y q.knot.y with hy | hy
  · exact ⟨Int.le_trans (Int.min_le_left _ _) (hup hy).1, Int.le_trans (hup hy).2 (Int.le_max_right _ _)⟩
  · exact ⟨Int.le_trans (Int.min_le_right _ _) (hdown hy).1, Int.le_trans (hdown hy).2 (Int.le_max_left _ _)⟩

theorem exists_neighbours {first : AgcPoint} {rest : List AgcPoint} (hne : rest ≠ [])
    (hfirst : first.position ≤ position)
    (hlast : position ≤ ((first :: rest).getLast (List.cons_ne_nil _ _)).position) :
    ∃ front p q behind, first :: rest = front ++ p :: q :: behind ∧ p.position ≤ position ∧
      position ≤ q.position := by
  induction rest generalizing first with
  | nil => exact absurd rfl hne
  | cons next rest ih =>
      by_cases hnext : position ≤ next.position
      · exact ⟨[], first, next, rest, rfl, hfirst, hnext⟩
      · rw [List.getLast_cons (List.cons_ne_nil _ _)] at hlast
        have hne' : rest ≠ [] := by
          rintro rfl
          exact hnext hlast
        obtain ⟨front, p, q, behind, hsplit, hp, hq⟩ := ih hne' (Nat.le_of_not_le hnext) hlast
        exact ⟨first :: front, p, q, behind, congrArg (first :: ·) hsplit, hp, hq⟩

/-- Each position has a point on either side. -/
theorem AgcPoints.neighbours (h : position ≤ agcBandLastPosition band) :
    ∃ p q, points.Neighbours p q ∧ p.position ≤ position ∧ position ≤ q.position := by
  have hne : points.rest ≠ [] := by
    intro hnil
    have hlast := points.position_last
    simp only [hnil, List.getLast_singleton, points.position_first] at hlast
    exact absurd hlast (by cases band <;> decide)
  obtain ⟨front, p, q, rest, hsplit, hp, hq⟩ := exists_neighbours hne
    (points.position_first ▸ Nat.zero_le position) (points.position_last ▸ h)
  exact ⟨p, q, ⟨front, rest, hsplit⟩, hp, hq⟩

end Neighbours

theorem int8_toInt_ofInt {x : Int} (h : -128 ≤ x ∧ x < 128) : (Int8.ofInt x).toInt = x :=
  Int8.toInt_ofInt_of_le h.1 h.2

theorem computed_of_fits (hfits : ∀ point ∈ points.all, point.Fits) :
    channelCorrections band (agcPositions band) points.first points.rest
      = .ok ((agcPositions band).map fun position =>
        (agcChannelIndex band position, points.valueAt position)) := by
  have hsplit : points.all = [] ++ points.first :: points.rest := rfl
  exact channelCorrections_ok points hfits (List.pairwise_lt_range.imp Nat.le_of_lt) hsplit
    fun position _ => points.position_first ▸ Nat.zero_le position

/-- **When the channels get their corrections**: all points of the record fit the table. -/
theorem interpolates_iff (hpoints : agcChannelPoints band record = some points) :
    (∃ value, Interpolates record points value) ↔ ∀ point ∈ points.all, point.Fits := by
  constructor
  · rintro ⟨value, hvalue⟩ point hpoint
    have hfits := hvalue.fits point.position (points.position_le point hpoint)
    rwa [hvalue.exact_at point hpoint] at hfits
  · intro hfits
    have hmem : ∀ position ≤ agcBandLastPosition band,
        -128 ≤ points.valueAt position ∧ points.valueAt position < 128 := by
      intro position hposition
      obtain ⟨p, q, hneighbours, hp, hq⟩ := points.neighbours hposition
      have hbetween := hneighbours.valueAt_mem hp hq
      have hfitp := hfits p hneighbours.mem.1
      have hfitq := hfits q hneighbours.mem.2
      unfold AgcPoint.Fits at hfitp hfitq
      omega
    have hcomputed := computed_of_fits hfits
    refine ⟨points.valueAt, hcomputed, nodup_agcChannelIndex band, fun row => ?_, hmem,
      fun point hpoint => ?_, fun p q h position hp hq => h.valueAt_mem hp hq,
      fun p q h position hp hq => ?_, fun p q h position position' hp hle hq => ?_⟩
    · obtain ⟨row', hload, hentries, -⟩ := loadAgcChannelRecord_of_computed hpoints hcomputed row
      refine ⟨row', hload, fun position hposition => ?_⟩
      rw [hentries position hposition, Option.map_some, int8_toInt_ofInt (hmem position hposition)]
    · exact piecewise_knot points.joins point.knot (List.map_cons ▸ List.mem_map_of_mem hpoint)
    · have hwide : q.knot.x - p.knot.x ≤ 65536 := by
        have hle := points.position_le q h.mem.2
        have hlast := agcBandLastPosition_le band
        simp only [AgcPoint.knot]
        omega
      rw [h.valueAt_eq hp hq]
      exact agcSegment_near h.lt hwide (Int.ofNat_le.mpr hp) (Int.ofNat_le.mpr hq)
    · obtain ⟨hup, hdown⟩ := agcSegment_mono h.lt (Int.ofNat_le.mpr hp) (Int.ofNat_le.mpr hle)
        (Int.ofNat_le.mpr hq)
      rw [h.valueAt_eq hp (Nat.le_trans hle hq), h.valueAt_eq (Nat.le_trans hp hle) hq]
      exact ⟨fun hy => hup (Int16.le_iff_toInt_le.mp hy), fun hy => hdown (Int16.le_iff_toInt_le.mp hy)⟩

/-- A record with a point at either end of GSM 900. -/
def endsRecord (first last : Int16) : AgcChannelRecord where
  pointCount := 2
  channels := #v[975, 124, 0, 0, 0, 0, 0, 0, 0, 0, 0, 0]
  corrections := #v[first, last, 0, 0, 0, 0, 0, 0, 0, 0, 0, 0]

theorem exists_endsRecord_points (first last : Int16) :
    ∃ points : AgcPoints .gsm900, agcChannelPoints .gsm900 (endsRecord first last) = some points ∧
      points.all = [⟨0, first⟩, ⟨173, last⟩] :=
  have hcount : 2 ≤ 2 ∧ 2 ≤ 12 := by decide
  have hpositions : agcPointPositions .gsm900 none [975, 124] = some [0, 173] := by decide
  exists_agcChannelPoints hcount hpositions rfl rfl rfl

theorem interpolates_iff_endsRecord :
    ∃ points : AgcPoints .gsm900, agcChannelPoints .gsm900 (endsRecord (-3) 5) = some points ∧
      (((∃ value, Interpolates (endsRecord (-3) 5) points value) ↔ ∀ point ∈ points.all, point.Fits)) ∧
      ∀ point ∈ points.all, point.Fits := by
  obtain ⟨points, hpoints, hall⟩ := exists_endsRecord_points (-3) 5
  refine ⟨points, hpoints, interpolates_iff hpoints, ?_⟩
  rw [hall]
  decide

/-- A correction of 200 is accepted, and the channel of its point gets -56. -/
theorem endsRecord_not_interpolates :
    ∃ points : AgcPoints .gsm900, agcChannelPoints .gsm900 (endsRecord 200 0) = some points ∧
      ¬ ∃ value, Interpolates (endsRecord 200 0) points value := by
  obtain ⟨points, hpoints, hall⟩ := exists_endsRecord_points 200 0
  refine ⟨points, hpoints, fun ⟨value, hvalue⟩ => ?_⟩
  have hat : value 0 = 200 := hvalue.exact_at ⟨0, 200⟩ (hall ▸ List.mem_cons_self)
  have hfits := hvalue.fits 0 (Nat.zero_le _)
  rw [hat] at hfits
  exact absurd hfits.2 (by decide)

end Pmb887x.GsmL1.SiemensX85
