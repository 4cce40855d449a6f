import Pmb887x.GsmL1.AgcRecord
import Pmb887x.GsmL1.Candidates

set_option autoImplicit false

/-! # The table of the channels

`load_agc_channel_calibration` loads a record for each band and each range of the gain. The scan finds the
entry of a channel by offsets of its own, which are those of the loader except for channel 0 of GSM 900: the
loader puts it behind the others, the scan looks in front of them. -/

namespace Pmb887x.GsmL1.SiemensX85

open Library

/-- `channel_corrections` -/
abbrev CorrectionTable := Vector CorrectionRow gsmTrxGainRangeCount

/-- The records of a block, in the order of the two loops. -/
def agcChannelRecords : List (GsmBand × Nat) :=
  [.gsm900, .dcs1800, .pcs1900, .gsm850].flatMap fun band =>
    (List.range agcRangeCount).map fun range => (band, range)

def loadAgcChannelRecords (data : List UInt8) :
    List (GsmBand × Nat) → CorrectionTable → Checked (Option CalibrationError × CorrectionTable)
  | [], table => .ok (none, table)
  | (band, range) :: records, table =>
      if h : range < gsmTrxGainRangeCount then do
        let loaded ← loadAgcChannelRecord band (agcChannelRecord data band range) table[range]
        match loaded with
        | none => return (some (.channelRecord agcChannelEeliteBlock band.index range), table)
        | some row => loadAgcChannelRecords data records (table.set range row)
      else .error (.write range)

def loadAgcChannelCalibration (found : Except Nat EeliteBlock) (table : CorrectionTable) :
    Checked (Option CalibrationError × CorrectionTable) :=
  match loadEeliteBlock agcChannelEeliteBlock agcChannelEeliteVersion agcChannelEeliteSize found with
  | .error error => .ok (some error, table)
  | .ok block => loadAgcChannelRecords block.data agcChannelRecords table

/-! ## One position -/

variable {band : GsmBand}

/-- The correction that the code computes for a position. -/
def correctionAt (points : AgcPoints band) (position : Nat) : Checked Int := do
  let (lower, rest) := advanceLower position points.first points.rest
  let scaled ← correctionX16 position lower rest
  divideFloor scaled 65536

/-- The inner loop may go on from where it was. -/
theorem advanceLower_advanceLower {earlier position : Nat} (hle : earlier ≤ position) (lower : AgcPoint)
    (rest : List AgcPoint) :
    advanceLower position (advanceLower earlier lower rest).1 (advanceLower earlier lower rest).2
      = advanceLower position lower rest := by
  induction rest generalizing lower with
  | nil => rfl
  | cons upper rest ih =>
      by_cases hupper : upper.position ≤ earlier
      · rw [advanceLower, if_pos hupper, ih upper, advanceLower, if_pos (Nat.le_trans hupper hle)]
      · rw [advanceLower, if_neg hupper]

/-- What the loop stores is what is computed for each position alone. -/
theorem channelCorrections_entries {points : AgcPoints band} {positions : List Nat} {lower : AgcPoint}
    {rest : List AgcPoint} {stored : List (Nat × Int)} (hsorted : positions.Pairwise (· ≤ ·))
    (hcurrent : ∀ position ∈ positions,
      advanceLower position lower rest = advanceLower position points.first points.rest)
    (h : channelCorrections band positions lower rest = .ok stored) :
    stored.map Prod.fst = positions.map (agcChannelIndex band) ∧
      ∀ position ∈ positions, ∃ value, correctionAt points position = .ok value ∧
        (agcChannelIndex band position, value) ∈ stored := by
  induction positions generalizing lower rest stored with
  | nil =>
      cases h
      exact ⟨rfl, fun position hposition => absurd hposition List.not_mem_nil⟩
  | cons position positions ih =>
      obtain ⟨hbehind, hsorted'⟩ := List.pairwise_cons.mp hsorted
      have hhere := hcurrent position List.mem_cons_self
      rw [channelCorrections] at h
      obtain ⟨scaled, hscaled, h⟩ := exists_of_bind_eq_ok h
      obtain ⟨value, hvalue, h⟩ := exists_of_bind_eq_ok h
      obtain ⟨stored', hstored, h⟩ := exists_of_bind_eq_ok h
      cases h
      obtain ⟨hindices, hentries⟩ := ih hsorted' (fun next hnext => by
        rw [advanceLower_advanceLower (hbehind next hnext)]
        exact hcurrent next (List.mem_cons_of_mem _ hnext)) hstored
      refine ⟨congrArg _ hindices, List.forall_mem_cons.mpr ⟨⟨value, ?_, List.mem_cons_self⟩, ?_⟩⟩
      · rw [correctionAt, ← hhere]
        dsimp only
        rw [hscaled]
        exact hvalue
      · intro next hnext
        obtain ⟨value', hvalue', hmem⟩ := hentries next hnext
        exact ⟨value', hvalue', List.mem_cons_of_mem _ hmem⟩

/-! ## One record -/

variable {record : AgcChannelRecord} {row row' : CorrectionRow}

theorem nodup_stored {stored : List (Nat × Int)}
    (h : stored.map Prod.fst = (agcPositions band).map (agcChannelIndex band)) :
    (∀ entry ∈ stored, entry.1 < gsmChannelCount) ∧ (stored.map Prod.fst).Nodup := by
  refine ⟨fun entry hentry => ?_, h ▸ nodup_agcChannelIndex band⟩
  have hmem : entry.1 ∈ (agcPositions band).map (agcChannelIndex band) := h ▸ List.mem_map_of_mem hentry
  obtain ⟨position, hposition, heq⟩ := List.mem_map.mp hmem
  exact heq ▸ agcChannelIndex_lt (mem_agcPositions.mp hposition)

/-- What an accepted record stores. -/
theorem exists_stored (h : loadAgcChannelRecord band record row = .ok (some row')) :
    ∃ points stored, agcChannelPoints band record = some points ∧
      channelCorrections band (agcPositions band) points.first points.rest = .ok stored ∧
      storeCorrections row stored = .ok row' ∧
      stored.map Prod.fst = (agcPositions band).map (agcChannelIndex band) ∧
      ∀ position ∈ agcPositions band, ∃ value, correctionAt points position = .ok value ∧
        (agcChannelIndex band position, value) ∈ stored := by
  rw [loadAgcChannelRecord] at h
  cases hpoints : agcChannelPoints band record with
  | none =>
      rw [hpoints] at h
      cases h
  | some points =>
      rw [hpoints] at h
      obtain ⟨stored, hstored, h⟩ := exists_of_bind_eq_ok h
      obtain ⟨row'', hrow, h⟩ := exists_of_bind_eq_ok h
      cases h
      obtain ⟨hindices, hentries⟩ := channelCorrections_entries (List.pairwise_lt_range.imp Nat.le_of_lt)
        (fun _ _ => rfl) hstored
      exact ⟨points, stored, rfl, hstored, hrow, hindices, hentries⟩

/-- A record gives the entries of its band what is computed for them, and leaves the others. -/
theorem loadAgcChannelRecord_entries (h : loadAgcChannelRecord band record row = .ok (some row')) :
    ∃ points, agcChannelPoints band record = some points ∧
      (∀ position ≤ agcBandLastPosition band, ∃ value, correctionAt points position = .ok value ∧
        row'[agcChannelIndex band position]? = some (Int8.ofInt value)) ∧
      ∀ index, (∀ position ≤ agcBandLastPosition band, agcChannelIndex band position ≠ index) →
        row'[index]? = row[index]? := by
  obtain ⟨points, stored, hpoints, -, hrow, hindices, hvalues⟩ := exists_stored h
  obtain ⟨hlt, hnodup⟩ := nodup_stored hindices
  obtain ⟨row'', hrow', hentries, hothers⟩ := storeCorrections_spec row hlt hnodup
  obtain rfl := Except.ok.inj (hrow.symm.trans hrow')
  refine ⟨points, hpoints, fun position hposition => ?_, fun index hindex => hothers index fun hmem => ?_⟩
  · obtain ⟨value, hvalue, hmem⟩ := hvalues position (mem_agcPositions.mpr hposition)
    exact ⟨value, hvalue, hentries _ hmem⟩
  · obtain ⟨position, hposition, heq⟩ := List.mem_map.mp (hindices ▸ hmem)
    exact hindex position (mem_agcPositions.mp hposition) heq

/-- Whether a record is accepted does not depend on the row. -/
theorem loadAgcChannelRecord_any (h : loadAgcChannelRecord band record row = .ok (some row'))
    (other : CorrectionRow) : ∃ other', loadAgcChannelRecord band record other = .ok (some other') := by
  obtain ⟨points, stored, hpoints, hstored, -, hindices, -⟩ := exists_stored h
  obtain ⟨hlt, hnodup⟩ := nodup_stored hindices
  obtain ⟨other', hother, -⟩ := storeCorrections_spec other hlt hnodup
  refine ⟨other', ?_⟩
  rw [loadAgcChannelRecord, hpoints]
  dsimp only
  rw [hstored, Checked.ok_bind, hother]
  rfl

/-! ## All records -/

variable {data : List UInt8} {records : List (GsmBand × Nat)} {table table' : CorrectionTable}

def entryAt (table : CorrectionTable) (range index : Nat) : Option Int8 :=
  (table[range]?).bind fun row => row[index]?

/-- The entry has the correction of a position, computed from the record of its band. -/
def HasCorrection (data : List UInt8) (table : CorrectionTable) (band : GsmBand) (range position index : Nat) :
    Prop :=
  ∃ points value, agcChannelPoints band (agcChannelRecord data band range) = some points ∧
    correctionAt points position = .ok value ∧ entryAt table range index = some (Int8.ofInt value)

theorem exists_first_row {range : Nat}
    (h : loadAgcChannelRecords data ((band, range) :: records) table = .ok (none, table')) :
    ∃ hrange : range < gsmTrxGainRangeCount, ∃ row,
      loadAgcChannelRecord band (agcChannelRecord data band range) table[range] = .ok (some row) ∧
      loadAgcChannelRecords data records (table.set range row) = .ok (none, table') := by
  rw [loadAgcChannelRecords] at h
  split_ifs at h with hrange
  obtain ⟨loaded, hloaded, h⟩ := exists_of_bind_eq_ok h
  cases loaded with
  | none => cases h
  | some row => exact ⟨hrange, row, hloaded, h⟩

theorem entryAt_set {range index : Nat} (hrange : range < gsmTrxGainRangeCount) (row : CorrectionRow) :
    entryAt (table.set range row) range index = row[index]? := by
  rw [entryAt, Vector.getElem?_set_self]
  rfl

theorem entryAt_set_ne {range range' index : Nat} (hrange : range < gsmTrxGainRangeCount) (row : CorrectionRow)
    (hne : range' ≠ range) : entryAt (table.set range row) range' index = entryAt table range' index := by
  rw [entryAt, Vector.getElem?_set_ne _ (Ne.symm hne), entryAt]

/-- The records leave the entries that none of them has. -/
theorem entryAt_loadAgcChannelRecords {range index : Nat}
    (h : loadAgcChannelRecords data records table = .ok (none, table'))
    (hnone : ∀ band, (band, range) ∈ records → ∀ position ≤ agcBandLastPosition band,
      agcChannelIndex band position ≠ index) : entryAt table' range index = entryAt table range index := by
  induction records generalizing table with
  | nil =>
      cases h
      rfl
  | cons first records ih =>
      obtain ⟨band, first⟩ := first
      obtain ⟨hrange, row, hrow, hrest⟩ := exists_first_row h
      rw [ih hrest fun band' hmem => hnone band' (List.mem_cons_of_mem _ hmem)]
      by_cases hfirst : range = first
      · subst hfirst
        obtain ⟨-, -, -, hothers⟩ := loadAgcChannelRecord_entries hrow
        rw [entryAt_set hrange, hothers index (hnone band List.mem_cons_self), entryAt,
          Vector.getElem?_eq_getElem hrange]
        rfl
      · exact entryAt_set_ne hrange row hfirst

/-- **Each record is in its entries at the end.** -/
theorem hasCorrection_of_load {range : Nat}
    (h : loadAgcChannelRecords data records table = .ok (none, table')) (hmem : (band, range) ∈ records)
    {position : Nat} (hposition : position ≤ agcBandLastPosition band) :
    HasCorrection data table' band range position (agcChannelIndex band position) := by
  induction records generalizing table with
  | nil => exact absurd hmem List.not_mem_nil
  | cons first records ih =>
      by_cases hrest : (band, range) ∈ records
      · obtain ⟨_, row, _, hload⟩ := exists_first_row h
        exact ih hload hrest
      · obtain rfl := (List.mem_cons.mp hmem).resolve_right hrest
        obtain ⟨hrange, row, hrow, hload⟩ := exists_first_row h
        obtain ⟨points, hpoints, hentries, -⟩ := loadAgcChannelRecord_entries hrow
        obtain ⟨value, hvalue, hentry⟩ := hentries position hposition
        refine ⟨points, value, hpoints, hvalue, ?_⟩
        rw [entryAt_loadAgcChannelRecords hload, entryAt_set hrange, hentry]
        -- no later record of the range has an entry of this band
        intro band' hband' position' hposition' heq
        obtain ⟨rfl, -⟩ := agcChannelIndex_inj hposition' hposition heq
        exact hrest hband'

/-- Whether a block is accepted does not depend on the table. -/
theorem loadAgcChannelRecords_any (h : loadAgcChannelRecords data records table = .ok (none, table'))
    (other : CorrectionTable) : ∃ other', loadAgcChannelRecords data records other = .ok (none, other') := by
  induction records generalizing table other with
  | nil => exact ⟨other, rfl⟩
  | cons first records ih =>
      obtain ⟨band, range⟩ := first
      obtain ⟨hrange, row, hrow, hrest⟩ := exists_first_row h
      obtain ⟨row', hrow'⟩ := loadAgcChannelRecord_any hrow other[range]
      obtain ⟨other', hother⟩ := ih hrest (other.set range row')
      refine ⟨other', ?_⟩
      rw [loadAgcChannelRecords, dif_pos hrange, hrow']
      exact hother

/-- Records whose corrections fit are accepted. -/
theorem exists_load_of_fits (table : CorrectionTable)
    (hfits : ∀ band range, (band, range) ∈ records → range < agcRangeCount ∧
      ∃ points, agcChannelPoints band (agcChannelRecord data band range) = some points ∧
        ∀ point ∈ points.all, point.Fits) :
    ∃ table', loadAgcChannelRecords data records table = .ok (none, table') := by
  induction records generalizing table with
  | nil => exact ⟨table, rfl⟩
  | cons first records ih =>
      obtain ⟨band, range⟩ := first
      obtain ⟨hrange, points, hpoints, hpointsFit⟩ := hfits band range List.mem_cons_self
      have hrange' : range < gsmTrxGainRangeCount := hrange
      obtain ⟨row, hrow, -⟩ :=
        loadAgcChannelRecord_of_computed hpoints (computed_of_fits hpointsFit) table[range]
      obtain ⟨table', htable'⟩ := ih (table.set range row) fun band' range' hmem =>
        hfits band' range' (List.mem_cons_of_mem _ hmem)
      refine ⟨table', ?_⟩
      rw [loadAgcChannelRecords, dif_pos hrange', hrow]
      exact htable'

/-! ## The channels of the scan -/

/-- A channel of the scan: one of its ranges and a channel number in it. -/
structure ScanChannel where
  range : GsmScanRange
  arfcn : Nat
  mem : range ∈ gsmScanRanges
  arfcn_mem : range.arfcnFirst ≤ arfcn ∧ arfcn < range.arfcnFirst + range.channelCount

/-- `channel_index` of the scan -/
def ScanChannel.index (channel : ScanChannel) : Nat :=
  channel.range.tableFirst + (channel.arfcn - channel.range.arfcnFirst)

/-- The scan takes the index for the channel. -/
theorem ScanChannel.channelIndexToArfcn_index (channel : ScanChannel) :
    channelIndexToArfcn channel.index = channel.arfcn := by
  obtain ⟨range, arfcn, hmem, hlow, hhigh⟩ := channel
  have hhas : range.Has (range.tableFirst + (arfcn - range.arfcnFirst)) := by
    refine ⟨Nat.le_add_right _ _, ?_⟩
    omega
  simp only [ScanChannel.index]
  rw [channelIndexToArfcn]
  cases hfound : findScanRange (range.tableFirst + (arfcn - range.arfcnFirst)) with
  | none =>
      have hno := List.find?_eq_none.mp hfound range hmem
      exact absurd (decide_eq_true hhas) hno
  | some found =>
      obtain ⟨hmem', hhas'⟩ := findScanRange_has hfound
      rw [eq_of_has hmem hmem' hhas hhas']
      dsimp only
      omega

/-- Channel 0 of GSM 900. -/
def ScanChannel.IsZero (channel : ScanChannel) : Prop := channel.range.band = .gsm900 ∧ channel.arfcn = 0

instance (channel : ScanChannel) : Decidable channel.IsZero := inferInstanceAs (Decidable (_ ∧ _))

/-- Each channel has a position in its band. Both number it alike, unless it is channel 0. -/
theorem ScanChannel.exists_position (channel : ScanChannel) :
    ∃ position, agcChannelPosition channel.range.band channel.arfcn = some position ∧
      position ≤ agcBandLastPosition channel.range.band ∧
      (¬ channel.IsZero → agcChannelIndex channel.range.band position = channel.index) := by
  obtain ⟨range, arfcn, hmem, hlow, hhigh⟩ := channel
  simp only [ScanChannel.IsZero, ScanChannel.index]
  rw [gsmScanRanges] at hmem
  simp only [List.mem_cons, List.not_mem_nil, or_false] at hmem
  rcases hmem with rfl | rfl | rfl | rfl | rfl <;> dsimp only at hlow hhigh ⊢
  · refine ⟨arfcn + 49, ?_, ?_, fun hzero => ?_⟩
    · rw [agcChannelPosition, if_neg (by omega), if_pos (by omega)]
    · simp only [agcBandLastPosition]
      omega
    · have hne : arfcn ≠ 0 := fun h => hzero ⟨rfl, h⟩
      rw [agcChannelIndex, if_neg (by omega), if_neg (by omega)]
      omega
  · refine ⟨arfcn - 975, ?_, ?_, fun _ => ?_⟩
    · rw [agcChannelPosition, if_pos (by omega)]
    · simp only [agcBandLastPosition]
      omega
    · rw [agcChannelIndex, if_pos (by omega)]
  · refine ⟨arfcn - 512, ?_, ?_, fun _ => rfl⟩
    · rw [agcChannelPosition, if_neg (by omega)]
    · simp only [agcBandLastPosition]
      omega
  · refine ⟨arfcn - 512, ?_, ?_, fun _ => rfl⟩
    · rw [agcChannelPosition, if_neg (by omega)]
    · simp only [agcBandLastPosition]
      omega
  · refine ⟨arfcn - 128, ?_, ?_, fun _ => rfl⟩
    · rw [agcChannelPosition, if_neg (by omega)]
    · simp only [agcBandLastPosition]
      omega

/-- The entry of channel 0 belongs to no position. -/
theorem ScanChannel.index_zero {channel : ScanChannel} (h : channel.IsZero) : channel.index = 0 := by
  obtain ⟨range, arfcn, hmem, hlow, hhigh⟩ := channel
  obtain ⟨hband, rfl⟩ := h
  rw [gsmScanRanges] at hmem
  simp only [List.mem_cons, List.not_mem_nil, or_false] at hmem
  rcases hmem with rfl | rfl | rfl | rfl | rfl
  · rfl
  · exact absurd hlow (by decide)
  · cases hband
  · cases hband
  · cases hband

theorem agcChannelIndex_ne_zero {position : Nat} (h : position ≤ agcBandLastPosition band) :
    agcChannelIndex band position ≠ 0 := by
  have hfirst := (agcChannelIndex_mem h).1
  have hpos : 0 < agcBandFirstIndex band := by cases band <;> decide
  omega

/-- The scan uses the correction of the channel, whatever was in the table before the block was loaded. -/
def UsesOwnCorrection (block : EeliteBlock) (range : Nat) (channel : ScanChannel) : Prop :=
  ∀ table table', loadAgcChannelCalibration (.ok block) table = .ok (none, table') →
    ∃ position, agcChannelPosition channel.range.band channel.arfcn = some position ∧
      HasCorrection block.data table' channel.range.band range position channel.index

theorem mem_agcChannelRecords (band : GsmBand) {range : Nat} (h : range < agcRangeCount) :
    (band, range) ∈ agcChannelRecords := by
  refine List.mem_flatMap.mpr ⟨band, ?_, List.mem_map_of_mem (List.mem_range.mpr h)⟩
  cases band <;> decide

variable {block : EeliteBlock}

/-- An accepted block is loaded record by record. -/
theorem loadAgcChannelRecords_of_load
    (h : loadAgcChannelCalibration (.ok block) table = .ok (none, table')) :
    loadAgcChannelRecords block.data agcChannelRecords table = .ok (none, table') ∧
      ∀ other, loadAgcChannelCalibration (.ok block) other
        = loadAgcChannelRecords block.data agcChannelRecords other := by
  rw [loadAgcChannelCalibration, loadEeliteBlock] at h
  simp only [loadAgcChannelCalibration, loadEeliteBlock]
  split_ifs at h ⊢
  · cases h
  · cases h
  · exact ⟨h, fun _ => rfl⟩

/-- The entry of channel 0 is never loaded. -/
theorem entryAt_zero {range : Nat} (correction : Int8) (hrange : range < agcRangeCount)
    (h : loadAgcChannelRecords data records (Vector.replicate _ (Vector.replicate _ correction))
      = .ok (none, table')) : entryAt table' range 0 = some correction := by
  rw [entryAt_loadAgcChannelRecords h fun band _ position hposition => agcChannelIndex_ne_zero hposition, entryAt,
    Vector.getElem?_replicate, if_pos (show range < gsmTrxGainRangeCount from hrange), Option.bind_some,
    Vector.getElem?_replicate]
  rfl

/-- **Which channels use their own correction**: all but channel 0 of GSM 900. -/
theorem usesOwnCorrection_iff (haccepted : ∃ table table', loadAgcChannelCalibration (.ok block) table
    = .ok (none, table')) {range : Nat} (hrange : range < agcRangeCount) (channel : ScanChannel) :
    UsesOwnCorrection block range channel ↔ ¬ channel.IsZero := by
  constructor
  · intro huses hzero
    obtain ⟨table, table', hload⟩ := haccepted
    obtain ⟨hrecords, hany⟩ := loadAgcChannelRecords_of_load hload
    -- two tables that differ in the entry cannot both have the correction in it
    have hvalue : ∀ correction : Int8, ∃ position points value,
        agcChannelPosition channel.range.band channel.arfcn = some position ∧
        agcChannelPoints channel.range.band (agcChannelRecord block.data channel.range.band range)
          = some points ∧ correctionAt points position = .ok value ∧ Int8.ofInt value = correction := by
      intro correction
      obtain ⟨other', hother⟩ :=
        loadAgcChannelRecords_any hrecords (Vector.replicate _ (Vector.replicate _ correction))
      obtain ⟨position, hposition, points, value, hpoints, hvalue, hentry⟩ :=
        huses _ other' ((hany _).trans hother)
      rw [channel.index_zero hzero, entryAt_zero correction hrange hother] at hentry
      exact ⟨position, points, value, hposition, hpoints, hvalue, (Option.some.inj hentry).symm⟩
    obtain ⟨position, points, value, hposition, hpoints, hvalue₀, hcorrection⟩ := hvalue 0
    obtain ⟨position', points', value', hposition', hpoints', hvalue₁, hcorrection'⟩ := hvalue 1
    obtain rfl := Option.some.inj (hposition.symm.trans hposition')
    obtain rfl := Option.some.inj (hpoints.symm.trans hpoints')
    obtain rfl := Except.ok.inj (hvalue₀.symm.trans hvalue₁)
    exact absurd (hcorrection.symm.trans hcorrection') (by decide)
  · intro hzero table table' hload
    obtain ⟨position, hposition, hle, hindex⟩ := channel.exists_position
    obtain ⟨hrecords, -⟩ := loadAgcChannelRecords_of_load hload
    have hhas := hasCorrection_of_load hrecords (mem_agcChannelRecords channel.range.band hrange) hle
    rw [hindex hzero] at hhas
    exact ⟨position, hposition, hhas⟩

theorem u16At_window {start n offset : Nat} (h : offset + 2 ≤ n) :
    u16At (window data start n) offset = u16At data (start + offset) := by
  rw [u16At, u16At, window_window _ h]

/-- A record has 52 bytes. -/
theorem agcChannelRecord_eq {bytes : List UInt8} {range : Nat}
    (h : window data (band.index * agcChannelBandSize + 24 + range * 52) 52 = bytes) :
    agcChannelRecord data band range =
      { pointCount := u16At bytes 0
        channels := Vector.ofFn fun point => u16At bytes (4 + 2 * point)
        corrections := Vector.ofFn fun point => i16At bytes (28 + 2 * point) } := by
  have hchannels : ∀ point : Fin agcChannelPointCountMax, 4 + 2 * point.val + 2 ≤ 52 := by
    intro point
    have hlt : point.val < 12 := point.isLt
    omega
  have hcorrections : ∀ point : Fin agcChannelPointCountMax, 28 + 2 * point.val + 2 ≤ 52 := by
    intro point
    have hlt : point.val < 12 := point.isLt
    omega
  subst h
  simp only [agcChannelRecord, i16At, u16At_window (hchannels _), u16At_window (hcorrections _),
    u16At_window (show 0 + 2 ≤ 52 by decide), Nat.add_assoc, Nat.add_zero]

/-- The first channel of a band and the last. -/
def bandEnds : GsmBand → Nat × Nat
  | .gsm900 => (975, 124)
  | .dcs1800 => (512, 885)
  | .pcs1900 => (512, 810)
  | .gsm850 => (128, 251)

/-- A record with a correction of 8 at either end of its band. -/
def flatRecord (band : GsmBand) : List UInt8 :=
  [2, 0, 0, 0] ++ leBytes 2 (bandEnds band).1 ++ leBytes 2 (bandEnds band).2 ++ List.replicate 20 0 ++
    [8, 0, 8, 0] ++ List.replicate 20 0

/-- A block of such records. -/
def flatBlock : EeliteBlock where
  version := agcChannelEeliteVersion
  size := agcChannelEeliteSize
  data := List.replicate 24 0 ++ agcChannelRecords.flatMap fun record => flatRecord record.1

set_option maxRecDepth 2000 in
theorem window_flatBlock (band : GsmBand) : ∀ range < agcRangeCount,
    window flatBlock.data (band.index * agcChannelBandSize + 24 + range * 52) 52 = flatRecord band := by
  cases band <;> decide

theorem flatBlock_points (band : GsmBand) {range : Nat} (h : range < agcRangeCount) :
    ∃ points, agcChannelPoints band (agcChannelRecord flatBlock.data band range) = some points ∧
      points.all = [⟨0, 8⟩, ⟨agcBandLastPosition band, 8⟩] := by
  rw [agcChannelRecord_eq (window_flatBlock band range h)]
  have hpositions : agcPointPositions band none ((Vector.ofFn fun point : Fin agcChannelPointCountMax =>
      u16At (flatRecord band) (4 + 2 * point)).toList.take 2) = some [0, agcBandLastPosition band] := by
    cases band <;> decide
  have hcount : (u16At (flatRecord band) 0).toNat = 2 := by
    cases band <;> decide
  refine exists_agcChannelPoints (by rw [hcount]; decide) (by rw [hcount]; exact hpositions) ?_ rfl rfl
  cases band <;> decide

/-- Whatever the table had, the block is accepted. -/
theorem exists_load_flatBlock (table : CorrectionTable) :
    ∃ table', loadAgcChannelCalibration (.ok flatBlock) table = .ok (none, table') := by
  refine exists_load_of_fits table fun band range hmem => ?_
  have hrange : range < agcRangeCount := by
    obtain ⟨band', -, hmem'⟩ := List.mem_flatMap.mp hmem
    obtain ⟨range', hrange', heq⟩ := List.mem_map.mp hmem'
    rw [← (Prod.mk.inj heq).2]
    exact List.mem_range.mp hrange'
  obtain ⟨points, hpoints, hall⟩ := flatBlock_points band hrange
  refine ⟨hrange, points, hpoints, ?_⟩
  rw [hall]
  cases band <;> decide

/-- Channel 0 of GSM 900 and the last of GSM 850. -/
def channelZero : ScanChannel := ⟨⟨.gsm900, 0, 0, 125⟩, 0, List.mem_cons_self, by decide⟩

def channelLast : ScanChannel := ⟨⟨.gsm850, 848, 128, 124⟩, 251, by simp [gsmScanRanges], by decide⟩

theorem usesOwnCorrection_iff_flatBlock :
    (∃ table table', loadAgcChannelCalibration (.ok flatBlock) table = .ok (none, table')) ∧
      0 < agcRangeCount ∧ (UsesOwnCorrection flatBlock 0 channelLast ↔ ¬ channelLast.IsZero) := by
  obtain ⟨table', htable'⟩ := exists_load_flatBlock (Vector.replicate _ (Vector.replicate _ 0))
  exact ⟨⟨_, table', htable'⟩, by decide, usesOwnCorrection_iff ⟨_, table', htable'⟩ (by decide) channelLast⟩

/-- The table starts with zeros; so does the correction of channel 0, of which the record has 8. -/
theorem flatBlock_not_uses :
    ∃ table table', loadAgcChannelCalibration (.ok flatBlock) table = .ok (none, table') ∧
      table = Vector.replicate _ (Vector.replicate _ 0) ∧ entryAt table' 0 channelZero.index = some 0 ∧
      ¬ UsesOwnCorrection flatBlock 0 channelZero := by
  obtain ⟨table', htable'⟩ := exists_load_flatBlock (Vector.replicate _ (Vector.replicate _ 0))
  obtain ⟨hrecords, -⟩ := loadAgcChannelRecords_of_load htable'
  have hzero : entryAt table' 0 0 = some 0 := entryAt_zero 0 (by decide) hrecords
  refine ⟨_, table', htable', rfl, hzero, fun huses => ?_⟩
  obtain ⟨position, hposition, points, value, hpoints, hvalue, hentry⟩ := huses _ table' htable'
  obtain ⟨points', hpoints', hall⟩ := flatBlock_points .gsm900 (show 0 < agcRangeCount by decide)
  obtain rfl := Option.some.inj (hpoints.symm.trans hpoints')
  obtain ⟨hfirst, hrest⟩ := List.cons.inj hall
  have hposition' : position = 49 := (Option.some.inj hposition).symm
  have hvalue' : value = 8 := by
    rw [correctionAt, hfirst, hrest, hposition'] at hvalue
    exact (Except.ok.inj hvalue).symm
  rw [hvalue'] at hentry
  exact absurd (hzero.symm.trans hentry) (by decide)

end Pmb887x.GsmL1.SiemensX85
