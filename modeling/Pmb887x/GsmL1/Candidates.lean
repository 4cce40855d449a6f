import Pmb887x.Library.Greedy
import Pmb887x.GsmL1.ChannelScan

set_option autoImplicit false

/-! # The candidates of a channel scan

`gsm_l1_scan_channels` picks one channel after the other, the strongest first, and leaves out what is much
weaker than a neighbour that it has picked. `selectFcchCandidates_eq` reads the loop as a greedy selection;
in every run the loop starts with nothing excluded (`scanCleared_reachable`). -/

namespace Pmb887x.GsmL1

open Library

/-! ## Neighbours -/

def GsmScanRange.Has (range : GsmScanRange) (channel : Nat) : Prop :=
  range.tableFirst ≤ channel ∧ channel < range.tableFirst + range.channelCount

instance (range : GsmScanRange) (channel : Nat) : Decidable (range.Has channel) :=
  inferInstanceAs (Decidable (_ ∧ _))

def SameRange (a b : Nat) : Prop := ∃ range ∈ gsmScanRanges, range.Has a ∧ range.Has b

instance (a b : Nat) : Decidable (SameRange a b) :=
  inferInstanceAs (Decidable (∃ range ∈ gsmScanRanges, _))

/-- `b` is next to `a` and at least 8 dB weaker. -/
def WeakerNeighbor (results : Nat → ChannelScanResult) (a b : Nat) : Prop :=
  (b = a + 1 ∨ a = b + 1) ∧ SameRange a b ∧
    (results a).levelDbmX16 - (results b).levelDbmX16 ≥ fcchAdjacentSuppressionDbmX16

instance (results : Nat → ChannelScanResult) (a b : Nat) : Decidable (WeakerNeighbor results a b) :=
  inferInstanceAs (Decidable (_ ∧ _))

/-- The channel has a result that is strong enough. -/
def Audible (results : Nat → ChannelScanResult) (channel : Nat) : Prop :=
  (results channel).measurements ≠ 0 ∧
    fcchMinRxLevelDbmX16 ≤ (results channel).levelDbmX16

instance (results : Nat → ChannelScanResult) (channel : Nat) : Decidable (Audible results channel) :=
  inferInstanceAs (Decidable (_ ∧ _))

/-- The ranges do not overlap. -/
theorem gsmScanRanges_pairwise : gsmScanRanges.Pairwise fun range range' =>
    range.tableFirst + range.channelCount ≤ range'.tableFirst := by
  unfold gsmScanRanges
  decide

theorem findScanRange_has {channel : Nat} {range : GsmScanRange}
    (h : findScanRange channel = some range) : range ∈ gsmScanRanges ∧ range.Has channel := by
  unfold findScanRange at h
  have hfound := List.find?_some h
  exact ⟨List.mem_of_find?_eq_some h, of_decide_eq_true hfound⟩

/-- The range of a channel is the only one that has it. -/
theorem eq_of_has {channel : Nat} {range range' : GsmScanRange} (hmem : range ∈ gsmScanRanges)
    (hmem' : range' ∈ gsmScanRanges) (hhas : range.Has channel) (hhas' : range'.Has channel) :
    range' = range := by
  obtain ⟨front, back, horder⟩ := List.append_of_mem hmem
  have hpairs := gsmScanRanges_pairwise
  rw [horder] at hmem' hpairs
  obtain ⟨-, hback, hfront⟩ := List.pairwise_append.mp hpairs
  unfold GsmScanRange.Has at hhas hhas'
  rcases List.mem_append.mp hmem' with hmem' | hmem'
  · have hbefore := hfront range' hmem' range List.mem_cons_self
    omega
  · rcases List.mem_cons.mp hmem' with rfl | hmem'
    · rfl
    · have hbehind := List.rel_of_pairwise_cons hback hmem'
      omega

theorem sameRange_iff {a b : Nat} {range : GsmScanRange} (h : findScanRange a = some range) :
    SameRange a b ↔ range.Has b := by
  obtain ⟨hmem, hhas⟩ := findScanRange_has h
  constructor
  · rintro ⟨range', hmem', ha, hb⟩
    rwa [eq_of_has hmem hmem' hhas ha] at hb
  · exact fun hb => ⟨range, hmem, hhas, hb⟩

theorem not_sameRange {a : Nat} (h : findScanRange a = none) (b : Nat) : ¬ SameRange a b := by
  rintro ⟨range, hmem, ha, -⟩
  exact List.find?_eq_none.mp h range hmem (decide_eq_true ha)

/-! ## Excluding -/

def exclude (result : ChannelScanResult) : ChannelScanResult := { result with fcchExcluded := true }

/-- What becomes excluded beside a channel. -/
theorem excludeWeakerAdjacentFcchChannel_apply (results : Nat → ChannelScanResult) (a b : Nat)
    (neighborOffset : Int) :
    excludeWeakerAdjacentFcchChannel results a neighborOffset b
      = if (b : Int) = a + neighborOffset ∧ SameRange a b ∧
          (results a).levelDbmX16 - (results b).levelDbmX16 ≥ fcchAdjacentSuppressionDbmX16
        then exclude (results b) else results b := by
  unfold excludeWeakerAdjacentFcchChannel
  cases hrange : findScanRange a with
  | none => rw [if_neg fun h => not_sameRange hrange b h.2.1]
  | some range =>
      have hsame := @sameRange_iff a b range hrange
      unfold GsmScanRange.Has at hsame
      dsimp only
      by_cases hb : (b : Int) = a + neighborOffset
      · rw [← hb, Int.toNat_natCast]
        by_cases hhas : SameRange a b
        · rw [if_neg (by have := hsame.mp hhas; omega)]
          split_ifs with hlevel hall hall
          · exact Function.update_self _ _ _
          · exact absurd ⟨rfl, hhas, hlevel⟩ hall
          · exact absurd hall.2.2 hlevel
          · rfl
        · rw [if_pos (by rw [hsame] at hhas; omega), if_neg fun h => hhas h.2.1]
      · have helsewhere : ¬ ((b : Int) = a + neighborOffset ∧ SameRange a b ∧
            (results a).levelDbmX16 - (results b).levelDbmX16 ≥ fcchAdjacentSuppressionDbmX16) :=
          fun h => hb h.1
        rw [if_neg helsewhere]
        split_ifs with houtside hlevel
        · rfl
        · refine Function.update_of_ne ?_ _ _
          omega
        · rfl

theorem level_excludeWeakerAdjacentFcchChannel (results : Nat → ChannelScanResult) (a b : Nat)
    (neighborOffset : Int) :
    (excludeWeakerAdjacentFcchChannel results a neighborOffset b).levelDbmX16
      = (results b).levelDbmX16 := by
  rw [excludeWeakerAdjacentFcchChannel_apply]
  split_ifs
  · rfl
  · rfl

/-- The results behind a pick. -/
def resultsBehind (results : Nat → ChannelScanResult) (a : Nat) : Nat → ChannelScanResult :=
  excludeWeakerAdjacentFcchChannel (excludeWeakerAdjacentFcchChannel
    (Function.update results a (exclude (results a))) a (-1)) a 1

/-- A pick excludes itself and its weaker neighbours. -/
theorem resultsBehind_apply (results : Nat → ChannelScanResult) (a b : Nat) :
    resultsBehind results a b
      = if b = a ∨ WeakerNeighbor results a b then exclude (results b) else results b := by
  have hlevel : ∀ c, (Function.update results a (exclude (results a)) c).levelDbmX16
      = (results c).levelDbmX16 := by
    intro c
    by_cases hc : c = a
    · rw [hc, Function.update_self]
      rfl
    · rw [Function.update_of_ne hc]
  rw [resultsBehind, excludeWeakerAdjacentFcchChannel_apply, level_excludeWeakerAdjacentFcchChannel,
    level_excludeWeakerAdjacentFcchChannel, excludeWeakerAdjacentFcchChannel_apply, hlevel, hlevel]
  unfold WeakerNeighbor
  by_cases hself : b = a
  · subst hself
    rw [Function.update_self, if_pos (Or.inl rfl), if_neg (by omega), if_neg (by omega)]
  · rw [Function.update_of_ne hself]
    by_cases hweaker : SameRange a b ∧
        (results a).levelDbmX16 - (results b).levelDbmX16 ≥ fcchAdjacentSuppressionDbmX16
    · simp only [hself, hweaker, and_true, false_or]
      split_ifs <;> first | rfl | omega
    · rw [if_neg fun h => hweaker h.2, if_neg fun h => hweaker h.2,
        if_neg fun h => hweaker (h.resolve_left hself).2]

/-! ## The selection -/

/-- What a channel needs to be picked. -/
def eligible (results : Nat → ChannelScanResult) (channel : Nat) : Bool :=
  !(results channel).fcchExcluded && decide (Audible results channel)

/-- The candidate of a channel. -/
def candidateOf (frequencyHz : Int) (results : Nat → ChannelScanResult) (channelIndex : Nat) :
    Candidate where
  band := ((findScanRange channelIndex).map GsmScanRange.band).getD .gsm900
  channelIndex := channelIndex
  arfcn := channelIndexToArfcn channelIndex
  gainState := (results channelIndex).gainState
  rxLevelDbmX16 := (results channelIndex).levelDbmX16
  afcFrequencyHz := frequencyHz

/-- What the loop skips is not eligible. -/
theorem skipped_eq (results : Nat → ChannelScanResult) (channel : Nat) :
    ((results channel).fcchExcluded || (results channel).measurements == 0 ||
      decide ((results channel).levelDbmX16 < fcchMinRxLevelDbmX16)) = !eligible results channel := by
  have haudible : decide (Audible results channel) = !((results channel).measurements == 0 ||
      decide ((results channel).levelDbmX16 < fcchMinRxLevelDbmX16)) := by
    rw [Bool.eq_iff_iff, decide_eq_true_eq]
    unfold Audible
    simp
  rw [eligible, haudible, Bool.not_and, Bool.not_not, Bool.not_not, Bool.or_assoc]

theorem strongestChannel_eq (scan : Scan) :
    strongestChannel scan = strongest (fun channel => (scan.scanResults channel).levelDbmX16)
      (eligible scan.scanResults) scan.scanChannels := by
  unfold strongestChannel strongest
  congr 1
  funext best channel
  unfold stronger
  dsimp only
  rw [skipped_eq]
  cases eligible scan.scanResults channel with
  | true =>
      simp only [Bool.not_true, Bool.false_eq_true, if_false, if_true]
      cases best <;> rfl
  | false => simp only [Bool.not_false, Bool.false_eq_true, if_false, if_true]

theorem selectNextFcchCandidate_eq (frequencyHz : Int) (scan : Scan) :
    selectNextFcchCandidate frequencyHz scan = (strongestChannel scan).map fun a =>
      (candidateOf frequencyHz scan.scanResults a,
        { scan with scanResults := resultsBehind scan.scanResults a }) := by
  unfold selectNextFcchCandidate
  cases strongestChannel scan with
  | none => rfl
  | some a => rfl

/-! ### Behind a pick -/

section Behind

variable (results : Nat → ChannelScanResult) (a : Nat)

/-- A pick changes nothing but what is excluded. -/
theorem resultsBehind_keeps (b : Nat) :
    (resultsBehind results a b).levelDbmX16 = (results b).levelDbmX16 ∧
      (resultsBehind results a b).measurements = (results b).measurements ∧
      (resultsBehind results a b).gainState = (results b).gainState := by
  rw [resultsBehind_apply]
  split_ifs
  · exact ⟨rfl, rfl, rfl⟩
  · exact ⟨rfl, rfl, rfl⟩

theorem levels_resultsBehind :
    (fun b => (resultsBehind results a b).levelDbmX16) = fun b => (results b).levelDbmX16 :=
  funext fun b => (resultsBehind_keeps results a b).1

theorem audible_resultsBehind (b : Nat) :
    Audible (resultsBehind results a) b ↔ Audible results b := by
  obtain ⟨hlevel, hmeasurements, -⟩ := resultsBehind_keeps results a b
  unfold Audible
  rw [hlevel, hmeasurements]

theorem weakerNeighbor_resultsBehind (b c : Nat) :
    WeakerNeighbor (resultsBehind results a) b c ↔ WeakerNeighbor results b c := by
  unfold WeakerNeighbor
  rw [(resultsBehind_keeps results a b).1, (resultsBehind_keeps results a c).1]

theorem candidateOf_resultsBehind (frequencyHz : Int) :
    candidateOf frequencyHz (resultsBehind results a) = candidateOf frequencyHz results := by
  funext b
  obtain ⟨hlevel, -, hgain⟩ := resultsBehind_keeps results a b
  unfold candidateOf
  rw [hlevel, hgain]

theorem eligible_resultsBehind :
    eligible (resultsBehind results a) = fun b =>
      eligible results b && decide (b ≠ a) && !decide (WeakerNeighbor results a b) := by
  funext b
  simp only [eligible, audible_resultsBehind]
  rw [resultsBehind_apply]
  by_cases hself : b = a
  · simp [hself, exclude]
  · by_cases hweaker : WeakerNeighbor results a b
    · simp [hweaker, exclude]
    · simp [hself, hweaker]

end Behind

/-- **The loop is a greedy selection.** -/
theorem selectFcchCandidates_eq (frequencyHz : Int) (capacity : Nat) (scan : Scan) :
    (selectFcchCandidates frequencyHz capacity scan).1
      = (greedy (fun channel => (scan.scanResults channel).levelDbmX16)
          (fun a b => decide (WeakerNeighbor scan.scanResults a b)) scan.scanChannels capacity
          (eligible scan.scanResults)).map (candidateOf frequencyHz scan.scanResults) := by
  induction capacity generalizing scan with
  | zero => rfl
  | succ capacity ih =>
      rw [selectFcchCandidates, selectNextFcchCandidate_eq, strongestChannel_eq, greedy]
      cases strongest (fun channel => (scan.scanResults channel).levelDbmX16)
          (eligible scan.scanResults) scan.scanChannels with
      | none => rfl
      | some a =>
          simp only [Option.map_some, List.map_cons]
          rw [ih, levels_resultsBehind, eligible_resultsBehind, candidateOf_resultsBehind]
          simp only [weakerNeighbor_resultsBehind]

theorem channels_selectFcchCandidates (frequencyHz : Int) (capacity : Nat) (scan : Scan) :
    (selectFcchCandidates frequencyHz capacity scan).2.scanChannels = scan.scanChannels := by
  induction capacity generalizing scan with
  | zero => rfl
  | succ capacity ih =>
      rw [selectFcchCandidates, selectNextFcchCandidate_eq]
      cases strongestChannel scan with
      | none => rfl
      | some a => exact ih _

/-! ## The list -/

/-- What the candidates of a scan are. -/
structure CandidateList (scan : Scan) (capacity : Nat) (candidates : List Candidate) : Prop where
  length_le : candidates.length ≤ capacity
  /-- A candidate is a measured channel of the scan at -111 dBm or above, with its own results. -/
  measured : ∀ c ∈ candidates, c.channelIndex ∈ scan.scanChannels ∧
    Audible scan.scanResults c.channelIndex ∧
    c.rxLevelDbmX16 = (scan.scanResults c.channelIndex).levelDbmX16 ∧
    c.gainState = (scan.scanResults c.channelIndex).gainState
  distinct : (candidates.map Candidate.channelIndex).Nodup
  /-- Levels do not increase, and equal ones are in scan order. -/
  sorted : candidates.Pairwise fun c c' => c'.rxLevelDbmX16 ≤ c.rxLevelDbmX16 ∧
    (c'.rxLevelDbmX16 = c.rxLevelDbmX16 →
      scan.scanChannels.idxOf c.channelIndex < scan.scanChannels.idxOf c'.channelIndex)
  unsuppressed : candidates.Pairwise fun c c' =>
    ¬ WeakerNeighbor scan.scanResults c.channelIndex c'.channelIndex
  /-- With room left, an audible channel is listed or a weaker neighbour of a listed one. -/
  complete : candidates.length < capacity → ∀ channel ∈ scan.scanChannels,
    Audible scan.scanResults channel → channel ∈ candidates.map Candidate.channelIndex ∨
      ∃ c ∈ candidates, WeakerNeighbor scan.scanResults c.channelIndex channel

/-- No channel of the scan is excluded. -/
def Scan.Unexcluded (scan : Scan) : Prop :=
  ∀ channel ∈ scan.scanChannels, (scan.scanResults channel).fcchExcluded = false

/-- The candidates picked from results in which nothing is excluded. -/
theorem candidateList_selectFcchCandidates (frequencyHz : Int) (capacity : Nat) {scan : Scan}
    (h : scan.Unexcluded) :
    CandidateList scan capacity (selectFcchCandidates frequencyHz capacity scan).1 := by
  rw [selectFcchCandidates_eq]
  have hpicks := @greedy_isSelection _ _ _ (fun channel => (scan.scanResults channel).levelDbmX16) _
    (fun a b => decide (WeakerNeighbor scan.scanResults a b)) scan.scanChannels capacity
    (eligible scan.scanResults)
  generalize greedy (fun channel => (scan.scanResults channel).levelDbmX16)
    (fun a b => decide (WeakerNeighbor scan.scanResults a b)) scan.scanChannels capacity
    (eligible scan.scanResults) = picks at hpicks
  have hchannels : (picks.map (candidateOf frequencyHz scan.scanResults)).map Candidate.channelIndex
      = picks := by
    rw [List.map_map]
    exact List.map_id picks
  refine ⟨?_, ?_, ?_, ?_, ?_, fun hroom channel hchannel haudible => ?_⟩
  · rw [List.length_map]
    exact hpicks.length_le
  · intro c hc
    obtain ⟨a, ha, rfl⟩ := List.mem_map.mp hc
    obtain ⟨hmem, heligible⟩ := hpicks.mem a ha
    exact ⟨hmem, of_decide_eq_true (Bool.and_eq_true_iff.mp heligible).2, rfl, rfl⟩
  · rw [hchannels]
    exact hpicks.distinct
  · exact List.pairwise_map.mpr hpicks.sorted
  · exact List.pairwise_map.mpr (hpicks.unsuppressed.imp fun hfalse => of_decide_eq_false hfalse)
  · rw [List.length_map] at hroom
    have heligible : eligible scan.scanResults channel = true := by
      rw [eligible, h channel hchannel, decide_eq_true haudible]
      rfl
    rw [hchannels]
    rcases hpicks.complete hroom channel hchannel heligible with hpicked | ⟨b, hb, hweaker⟩
    · exact .inl hpicked
    · exact .inr ⟨_, List.mem_map_of_mem hb, of_decide_eq_true hweaker⟩

/-! ## Nothing is excluded before the selection -/

/-- The same channels are scanned and excluded. -/
structure Scan.SameExcluded (scan scan' : Scan) : Prop where
  channels : scan'.scanChannels = scan.scanChannels
  excluded : ∀ channel, (scan'.scanResults channel).fcchExcluded
    = (scan.scanResults channel).fcchExcluded

theorem Scan.SameExcluded.refl (scan : Scan) : scan.SameExcluded scan := ⟨rfl, fun _ => rfl⟩

theorem Scan.SameExcluded.trans {scan scan' scan'' : Scan} (h : scan.SameExcluded scan')
    (h' : scan'.SameExcluded scan'') : scan.SameExcluded scan'' :=
  ⟨h'.channels.trans h.channels, fun channel => (h'.excluded channel).trans (h.excluded channel)⟩

theorem excluded_collectMonitorResult (board : Board) (results : Nat → ChannelScanResult)
    (monitored : Nat) (gainState raw : UInt16) (channel : Nat) :
    (collectMonitorResult board results monitored gainState raw channel).fcchExcluded
      = (results channel).fcchExcluded := by
  unfold collectMonitorResult
  cases findScanRange monitored with
  | none => rfl
  | some range =>
      dsimp only
      rw [Function.update_apply]
      split_ifs with hchannel
      · rw [hchannel]
      · rfl

/-- Collecting results excludes nothing. -/
theorem sameExcluded_collectMonitorResults (board : Board) (dsp : DspInput) (scan : Scan) :
    scan.SameExcluded (collectMonitorResults board dsp scan) := by
  unfold collectMonitorResults
  induction List.range gsmTrxMonitorCount generalizing scan with
  | nil => exact .refl scan
  | cons i rest ih =>
      rw [List.foldl_cons]
      refine .trans ?_ (ih _)
      dsimp only
      split_ifs
      · exact .refl scan
      · exact ⟨rfl, fun channel => excluded_collectMonitorResult _ _ _ _ _ channel⟩

theorem sameExcluded_channelScanNext (scan : Scan) : scan.SameExcluded (channelScanNext scan).1 := by
  unfold channelScanNext
  dsimp only
  split_ifs <;> exact ⟨rfl, fun _ => rfl⟩

theorem sameExcluded_channelScanAdvance (board : Board) (dsp : DspInput) (scan : Scan) :
    scan.SameExcluded (channelScanAdvance board dsp scan).1 := by
  unfold channelScanAdvance
  split
  · split_ifs
    · exact ⟨rfl, fun _ => rfl⟩
    · have hnext := sameExcluded_channelScanNext
        { collectMonitorResults board dsp scan with scanRequestRepeated := false }
      exact (sameExcluded_collectMonitorResults board dsp scan).trans ⟨hnext.channels, hnext.excluded⟩
  · have hnext := sameExcluded_channelScanNext (channelScanStartPass
      { scan with receiverScanState := .active, scanPass := 0, scanRequestRepeated := false })
    exact ⟨hnext.channels, hnext.excluded⟩
  · exact .refl scan
  · exact .refl scan

theorem sameExcluded_publishNextSearchFrame (board : Board) (dsp : DspInput) (s : L1) :
    s.scan.SameExcluded (publishNextSearchFrame board dsp s).scan := by
  have hadvance := sameExcluded_channelScanAdvance board dsp s.scan
  unfold publishNextSearchFrame
  dsimp only
  split_ifs
  · exact hadvance.trans ⟨rfl, fun _ => rfl⟩
  · exact hadvance
  · exact hadvance

theorem scan_finishRefinement (board : Board) (dsp : DspInput) (s : L1) :
    (finishRefinement board dsp s).scan = s.scan := by
  have hcollect : (collectFcchRefinementResult board dsp s).scan = s.scan := by
    unfold collectFcchRefinementResult
    dsimp only
    split_ifs <;> rfl
  unfold finishRefinement
  dsimp only
  split <;> exact hcollect

theorem scan_finishSearchWindow (dsp : DspInput) (s : L1) :
    (finishSearchWindow dsp s).scan = s.scan := by
  have hcollect : (collectFcchResult dsp s).scan = s.scan := by
    unfold collectFcchResult
    dsimp only
    split_ifs <;> rfl
  unfold finishSearchWindow
  dsimp only
  split <;> exact hcollect

/-- The frames of an acquisition leave the scan alone. -/
theorem scan_publishNextFcchFrame (board : Board) (dsp : DspInput) (s : L1) :
    (publishNextFcchFrame board dsp s).scan = s.scan := by
  unfold publishNextFcchFrame
  cases s.fcchTpuPhase with
  | refinementWaitResult =>
      dsimp only
      split_ifs
      · rfl
      · exact scan_finishRefinement board dsp s
  | finish =>
      dsimp only
      split_ifs
      · rfl
      · exact scan_finishSearchWindow dsp s
  | refinementPrepare | rfQuietFirst | rfInitialization | prepareSecond =>
      dsimp only
      split_ifs <;> rfl
  | _ => rfl

theorem scan_publishNextSchFrame (dsp : DspInput) (s : L1) :
    (publishNextSchFrame dsp s).scan = s.scan := by
  have hcollect : (collectSchResult dsp s).1.scan = s.scan := by
    unfold collectSchResult
    dsimp only
    split_ifs <;> rfl
  unfold publishNextSchFrame
  split
  · split_ifs <;> rfl
  · dsimp only
    split_ifs <;> exact hcollect
  · rfl

theorem sameExcluded_publishNextTpuFrame (board : Board) (dsp : DspInput) (s : L1) :
    s.scan.SameExcluded (publishNextTpuFrame board dsp s).scan := by
  unfold publishNextTpuFrame
  split
  · exact .refl s.scan
  · split_ifs
    · exact .refl s.scan
    · exact sameExcluded_publishNextSearchFrame board dsp { s with tpuLoopPhase := .search }
    · exact .refl s.scan
  · exact sameExcluded_publishNextSearchFrame board dsp s
  · rw [scan_publishNextFcchFrame]
    exact .refl s.scan
  · rw [scan_publishNextSchFrame]
    exact .refl s.scan
  · split_ifs <;> exact .refl s.scan
  · exact .refl s.scan

/-- An interrupt excludes nothing. -/
theorem sameExcluded_irq (board : Board) (dsp : DspInput) (s : L1) :
    s.scan.SameExcluded (gsmL1TpuIrq board dsp s).scan := by
  unfold gsmL1TpuIrq
  split_ifs
  · exact sameExcluded_publishNextTpuFrame board dsp { s with rfInitializationComplete := true, tpuLoopPhase := .ready }
  · exact sameExcluded_publishNextTpuFrame board dsp s

/-! ### The main thread -/

/-- The channels that are left to be cleared, once the clearing is on and until the selection. -/
def Task.uncleared : Task → Option (List Nat)
  | .scan _ (.clearResults channels) => some channels
  | .scan _ .request | .scan _ .loop | .scan _ .testMeasured | .scan _ .select => some []
  | _ => none

/-- The scan order is built, and what has been cleared is not excluded. -/
structure World.ScanCleared (w : World) : Prop where
  channels : w.l1.scan.scanChannels = basebandReady.l1.scan.scanChannels
  cleared : ∀ left, w.task.uncleared = some left → ∀ channel ∈ w.l1.scan.scanChannels,
    channel ∉ left → (w.l1.scan.scanResults channel).fcchExcluded = false

theorem scanCleared_irq {board : Board} {dsp : DspInput} {w : World} (h : w.ScanCleared) :
    ({ w with l1 := gsmL1TpuIrq board dsp w.l1 } : World).ScanCleared := by
  have hirq := sameExcluded_irq board dsp w.l1
  refine ⟨hirq.channels.trans h.channels, fun left hleft channel hchannel hnot => ?_⟩
  rw [hirq.channels] at hchannel
  exact (hirq.excluded channel).trans (h.cleared left hleft channel hchannel hnot)

/-- A step that leaves the scan alone and is not between clearing and selection. -/
theorem World.ScanCleared.of_scan {w w' : World} (h : w.ScanCleared)
    (hscan : w'.l1.scan = w.l1.scan) (htask : w'.task.uncleared = none) : w'.ScanCleared :=
  ⟨hscan ▸ h.channels, fun left hleft => by rw [htask] at hleft; cases hleft⟩

theorem scanCleared_startCall (call : Call) {w : World} (h : w.ScanCleared) :
    (startCall call w).ScanCleared := by
  cases call with
  | trxInit => exact h.of_scan rfl rfl
  | _ =>
      simp only [startCall]
      split_ifs <;> exact h.of_scan rfl rfl

theorem scanCleared_trxInit (board : Board) (ok : Bool) {w : World} {pc : TrxPc} (h : w.ScanCleared)
    (htask : w.task = .trxInit pc) : (trxInitStep board ok w pc).ScanCleared := by
  have hquiet : w.task.uncleared = none := by rw [htask]; rfl
  cases pc with
  | loopStart | setFrequency | setInitialized => exact h.of_scan rfl rfl
  | loop | testComplete | testIdle =>
      simp only [trxInitStep]
      split_ifs <;> first | exact h | exact h.of_scan rfl rfl

theorem scan_executeRequestedFcchCommand (ok : Bool) (s : L1) (pc : ExecutePc) :
    (executeRequestedFcchCommand ok s pc).1.scan = s.scan := by
  cases pc <;> rfl

theorem scanCleared_searchFcch (board : Board) (ok : Bool) (c : Candidate) {w : World} {pc : SearchPc}
    (h : w.ScanCleared) : (searchFcchStep board ok c w pc).ScanCleared := by
  cases pc with
  | execute pc =>
      have hscan := scan_executeRequestedFcchCommand ok w.l1 pc
      simp only [searchFcchStep]
      split <;> exact h.of_scan hscan rfl
  | reportResult fields => cases fields <;> exact h.of_scan rfl rfl
  | loop | testComplete | testWindow =>
      simp only [searchFcchStep]
      split_ifs <;> exact h.of_scan rfl rfl
  | _ => exact h.of_scan rfl rfl

theorem scanCleared_decodeSch (ok : Bool) (c : Candidate) (fcch : FcchReport) {w : World}
    {pc : DecodePc} (h : w.ScanCleared) : (decodeSchStep ok c fcch w pc).ScanCleared := by
  cases pc with
  | execute pc =>
      have hscan := scan_executeRequestedFcchCommand ok w.l1 pc
      simp only [decodeSchStep]
      split <;> exact h.of_scan hscan rfl
  | loop | testComplete =>
      simp only [decodeSchStep]
      split_ifs <;> exact h.of_scan rfl rfl
  | _ => exact h.of_scan rfl rfl

/-- Clearing a channel. -/
theorem excluded_clearScanResult (board : Board) (channelIndex channel : Nat) (scan : Scan) :
    ((clearScanResult board channelIndex scan).scanResults channel).fcchExcluded
      = if channel = channelIndex then false else (scan.scanResults channel).fcchExcluded := by
  unfold clearScanResult
  dsimp only
  rw [Function.update_apply]
  split_ifs <;> rfl

theorem scanCleared_scanChannels (board : Board) (ok : Bool) (capacity : Nat) {w : World} {pc : ScanPc}
    (h : w.ScanCleared) (htask : w.task = .scan capacity pc) :
    (scanChannelsStep board ok capacity w pc).ScanCleared := by
  have hcleared := h.cleared
  rw [htask] at hcleared
  cases pc with
  | clearSch =>
      refine ⟨h.channels, fun left hleft channel hchannel hnot => absurd ?_ hnot⟩
      obtain rfl := Option.some.inj hleft
      exact hchannel
  | clearResults channels =>
      cases channels with
      | nil => exact ⟨h.channels, fun left hleft => hcleared left hleft⟩
      | cons channelIndex rest =>
          refine ⟨h.channels, fun left hleft channel hchannel hnot => ?_⟩
          obtain rfl := Option.some.inj hleft
          refine (excluded_clearScanResult board channelIndex channel w.l1.scan).trans ?_
          split_ifs with hself
          · rfl
          · refine hcleared _ rfl channel hchannel fun hmem => ?_
            exact (List.mem_cons.mp hmem).elim hself hnot
  | request => exact ⟨h.channels, fun left hleft => hcleared left hleft⟩
  | loop =>
      simp only [scanChannelsStep]
      split_ifs
      · exact h
      · exact ⟨h.channels, fun left hleft => hcleared left hleft⟩
  | testMeasured =>
      simp only [scanChannelsStep]
      split_ifs
      · exact h.of_scan rfl rfl
      · exact ⟨h.channels, fun left hleft => hcleared left hleft⟩
  | select =>
      refine ⟨?_, fun left hleft => by cases hleft⟩
      exact (channels_selectFcchCandidates _ _ _).trans h.channels
  | clearFcch candidates => exact h.of_scan rfl rfl

/-- In every run the selection finds nothing excluded. -/
theorem scanCleared_reachable {board : Board} {w : World}
    (h : Reachable (step board) (fun _ _ => True) basebandReady w) : w.ScanCleared := by
  refine h.invariant ⟨rfl, fun left hleft => by cases hleft⟩ fun w a w' hw _ hstep => ?_
  cases a with
  | irq dsp =>
      simp only [step] at hstep
      split_ifs at hstep
      exact Option.some.inj hstep ▸ scanCleared_irq hw
  | call call =>
      simp only [step] at hstep
      split_ifs at hstep
      exact Option.some.inj hstep ▸ scanCleared_startCall call hw
  | main ok =>
      change mainStep board ok w = some w' at hstep
      unfold mainStep at hstep
      cases htask : w.task with
      | idle => rw [htask] at hstep; cases hstep
      | trxInit pc =>
          rw [htask] at hstep
          exact Option.some.inj hstep ▸ scanCleared_trxInit board ok hw htask
      | scan capacity pc =>
          rw [htask] at hstep
          exact Option.some.inj hstep ▸ scanCleared_scanChannels board ok capacity hw htask
      | search c pc =>
          rw [htask] at hstep
          exact Option.some.inj hstep ▸ scanCleared_searchFcch board ok c hw
      | decode c fcch pc =>
          rw [htask] at hstep
          exact Option.some.inj hstep ▸ scanCleared_decodeSch ok c fcch hw

/-- **The candidates of a scan.** For any results in which nothing is excluded and any capacity the
selection lists audible channels, strongest first and in scan order where they are equal, none of them a
weaker neighbour of an earlier one, and with room left it misses none but weaker neighbours of listed ones.
In every run the results it starts from are such, over all channels of the ranges. -/
theorem scanChannels_candidates (board : Board) :
    (∀ frequencyHz capacity scan, Scan.Unexcluded scan →
      CandidateList scan capacity (selectFcchCandidates frequencyHz capacity scan).1) ∧
    ∀ w capacity, Reachable (step board) (fun _ _ => True) basebandReady w →
      w.task = .scan capacity .select →
      w.l1.scan.scanChannels = gsmScanRanges.flatMap
          (fun range => List.range' range.tableFirst range.channelCount) ∧
        ∀ ok, ∃ w' candidates, step board (.main ok) w = some w' ∧
          w'.task = .scan capacity (.clearFcch candidates) ∧
          CandidateList w.l1.scan capacity candidates := by
  refine ⟨fun frequencyHz capacity scan h => candidateList_selectFcchCandidates frequencyHz capacity h,
    fun w capacity hreachable htask => ?_⟩
  have hcleared := scanCleared_reachable hreachable
  have hunexcluded : w.l1.scan.Unexcluded := fun channel hchannel =>
    hcleared.cleared [] (by rw [htask]; rfl) channel hchannel List.not_mem_nil
  refine ⟨hcleared.channels, fun ok => ⟨scanChannelsStep board ok capacity w .select, _, ?_, rfl,
    candidateList_selectFcchCandidates w.l1.frequencyCorrectionHz capacity hunexcluded⟩⟩
  change mainStep board ok w = _
  rw [mainStep, htask]

/-- Results with two equal levels, at the channels 20 and 30, and a weaker neighbour of one of them. -/
def measuredScan : Scan :=
  { basebandReady.l1.scan with
    receiverScanState := .complete
    scanChannels := [10, 20, 30, 31]
    scanResults := fun channel =>
      { levelDbmX16 := if channel = 10 then -1200 else if channel = 31 then -1400 else -960
        measurements := 8
        gainState := 0
        fcchExcluded := false } }

/-- The equal levels come in scan order, in front of the weaker one, and the neighbour is left out. -/
theorem scanChannels_candidates_measured :
    CandidateList measuredScan 4 (selectFcchCandidates 0 4 measuredScan).1 ∧
      (selectFcchCandidates 0 4 measuredScan).1.map Candidate.channelIndex = [20, 30, 10] ∧
      WeakerNeighbor measuredScan.scanResults 30 31 :=
  ⟨(scanChannels_candidates plainBoard).1 0 4 measuredScan fun _ _ => rfl, by decide +kernel, by decide⟩

end Pmb887x.GsmL1
