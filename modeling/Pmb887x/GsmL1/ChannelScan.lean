import Pmb887x.GsmL1.Attempts
import Mathlib.Data.List.GetD
import Mathlib.Tactic

set_option autoImplicit false

/-! # The channel scan

The scan runs over the channels in passes. A pass starts at one of eight alignments and asks for windows
of four positions at a distance of eight, so that a position is in every second window alignment.
`schedule` lists the windows of all passes; `scanRun_scanFrames` says that the handler works off this
list, two frames for each window, whatever the DSP reports. -/

namespace Pmb887x.GsmL1

open Library

/-! ## The windows -/

/-- The first window of a pass. -/
def passStart (pass : Nat) : Int :=
  let phase : Int := ↑(pass % scanWindowStride)
  if phase > gsmTrxMonitorCount then phase - scanWindowStride else phase

/-- The windows behind those before `start` in a pass, and those of the later passes. -/
def laterStarts (channelCount pass : Nat) (start : Int) : List Int :=
  if start ≥ channelCount then
    if pass + 1 ≥ scanPassCount then []
    else passStart (pass + 1) ::
      laterStarts channelCount (pass + 1) (passStart (pass + 1) + scanWindowStride)
  else start :: laterStarts channelCount pass (start + scanWindowStride)
termination_by (scanPassCount - pass, ((channelCount : Int) - start).toNat)
decreasing_by
  · exact Prod.Lex.left _ _ (by omega)
  · have hstride : scanWindowStride = 8 := rfl
    exact Prod.Lex.right _ (by omega)

/-- The windows of a scan. -/
def schedule (channelCount : Nat) : List Int := laterStarts channelCount 0 (passStart 0)

/-- The window at `start` has the position. -/
def covers (position : Nat) (start : Int) : Bool :=
  decide (start ≤ position ∧ (position : Int) < start + gsmTrxMonitorCount)

/-- The alignment of a pass has the position. -/
def aligned (position pass : Nat) : Bool :=
  decide (((position : Int) - pass) % scanWindowStride < gsmTrxMonitorCount)

/-- A window of four at a distance of eight, among those from `start` on. -/
theorem window_add (position start : Int) :
    (if start + 8 ≤ position ∧ (position - (start + 8)) % 8 < 4 then 1 else 0)
      + (if start ≤ position ∧ position < start + 4 then 1 else 0)
      = if start ≤ position ∧ (position - start) % 8 < 4 then 1 else 0 := by
  split_ifs <;> omega

/-- From a window on, a pass has the position once or not at all. -/
theorem covers_add_aligned (position : Nat) (start : Int) :
    (if start + scanWindowStride ≤ position ∧
        ((position : Int) - (start + scanWindowStride)) % scanWindowStride < gsmTrxMonitorCount
      then 1 else 0) + (if covers position start = true then 1 else 0)
      = if start ≤ position ∧
          ((position : Int) - start) % scanWindowStride < gsmTrxMonitorCount then 1 else 0 := by
  simp only [covers, decide_eq_true_eq]
  exact window_add position start

/-- A whole pass has the position if its alignment has. -/
theorem passStart_aligned (position pass : Nat) :
    (passStart pass ≤ position ∧
        ((position : Int) - passStart pass) % scanWindowStride < gsmTrxMonitorCount)
      ↔ aligned position pass = true := by
  simp only [aligned, passStart, decide_eq_true_eq]
  simp only [scanWindowStride, gsmTrxMonitorCount]
  split_ifs <;> omega

theorem countP_laterStarts {channelCount position : Nat} (hposition : position < channelCount)
    (pass : Nat) (start : Int) (hpass : pass < scanPassCount) :
    (laterStarts channelCount pass start).countP (covers position)
      = (if start ≤ position ∧
          ((position : Int) - start) % scanWindowStride < gsmTrxMonitorCount then 1 else 0)
        + (List.range' (pass + 1) (scanPassCount - (pass + 1))).countP (aligned position) := by
  induction pass, start using laterStarts.induct (channelCount) with
  | case1 pass start hstart hlast =>
      have hout : ¬ start ≤ position := by omega
      have hnone : scanPassCount - (pass + 1) = 0 := by omega
      rw [laterStarts, if_pos hstart, if_pos hlast, if_neg fun h => hout h.1, hnone]
      rfl
  | case2 pass start hstart hmore ih =>
      have hout : ¬ (start ≤ position ∧
          ((position : Int) - start) % scanWindowStride < gsmTrxMonitorCount) := by omega
      have hcount : scanPassCount - (pass + 1) = scanPassCount - (pass + 1 + 1) + 1 := by omega
      rw [laterStarts, if_pos hstart, if_neg hmore, List.countP_cons, ih (by omega), if_neg hout,
        hcount, List.range'_succ, List.countP_cons, Nat.zero_add, Nat.add_right_comm,
        covers_add_aligned, Nat.add_comm]
      congr 1
      exact if_congr (passStart_aligned position (pass + 1)) rfl rfl
  | case3 pass start hstart ih =>
      rw [laterStarts, if_neg hstart, List.countP_cons, ih hpass, Nat.add_right_comm,
        covers_add_aligned]

/-- Of sixteen passes, two for each alignment, eight have the position. -/
theorem countP_aligned (position : Nat) :
    (List.range' 0 scanPassCount).countP (aligned position) = 8 := by
  have hresidue : ∀ residue < 8, (List.range' 0 scanPassCount).countP (aligned residue) = 8 := by
    decide
  rw [← hresidue (position % 8) (Nat.mod_lt _ (by decide))]
  refine List.countP_congr fun pass _ => ?_
  simp only [aligned, decide_eq_true_eq]
  simp only [scanWindowStride, gsmTrxMonitorCount]
  omega

/-- **Coverage.** Every position is in eight windows. -/
theorem countP_schedule {channelCount position : Nat} (hposition : position < channelCount) :
    (schedule channelCount).countP (covers position) = 8 := by
  have hpasses : List.range' 0 scanPassCount
      = 0 :: List.range' (0 + 1) (scanPassCount - (0 + 1)) := rfl
  rw [schedule, countP_laterStarts hposition 0 _ (by decide), ← countP_aligned position, hpasses,
    List.countP_cons, Nat.add_comm]
  congr 1
  exact if_congr (passStart_aligned position 0) rfl rfl

/-! ## Frames -/

/-- The request for the window at `start`. -/
def requestAt (channels : List Nat) (start : Int) : List Nat :=
  (List.range gsmTrxMonitorCount).map (fun (i : Nat) =>
    let position := start + i
    if position ≥ 0 ∧ position < channels.length then channels.getD position.toNat gsmChannelNone
    else gsmChannelNone)

/-- What `publish_next_search_frame` does to the scan: the scan behind the frame, whether a request is
    published, and what is collected. -/
def scanFrame (board : Board) (dsp : DspInput) (scan : Scan) : Scan × Bool × List Event :=
  let advanced := channelScanAdvance board dsp scan
  (if advanced.2.1 then configureMonitoringFrame board advanced.1 else advanced.1, advanced.2)

theorem publishNextSearchFrame_scanFrame (board : Board) (dsp : DspInput) (s : L1) :
    (publishNextSearchFrame board dsp s).scan = (scanFrame board dsp s.scan).1 ∧
      (publishNextSearchFrame board dsp s).log = (scanFrame board dsp s.scan).2.2 ++ s.log := by
  unfold publishNextSearchFrame scanFrame
  dsimp only
  split_ifs <;> exact ⟨rfl, rfl⟩

/-- The scan before the frame `n`. -/
def scanBefore (board : Board) (dsp : Nat → DspInput) (scan : Scan) : Nat → Scan
  | 0 => scan
  | n + 1 => (scanFrame board (dsp n) (scanBefore board dsp scan n)).1

/-- The frame `n` of a scan. -/
def scanFrames (board : Board) (dsp : Nat → DspInput) (scan : Scan) (n : Nat) :
    Scan × Bool × List Event :=
  scanFrame board (dsp n) (scanBefore board dsp scan n)

/-- The request of a window has been published, and the windows `rest` are left. -/
structure Scan.Publishing (board : Board) (channels : List Nat) (start : Int) (rest : List Int)
    (repeated : Bool) (scan : Scan) : Prop where
  active : scan.receiverScanState = .active
  isRepeated : scan.scanRequestRepeated = repeated
  isChannels : scan.scanChannels = channels
  request : scan.scanRequestChannels = requestAt channels start
  gainStates : configureMonitoringFrame board scan = scan
  pass : scan.scanPass < scanPassCount
  left : laterStarts channels.length scan.scanPass scan.scanWindowStart = rest

/-- A scan in which everything has been collected. -/
def Scan.Finished (scan : Scan) : Prop := scan.receiverScanState = .complete

/-- Collecting results changes nothing but the results. -/
theorem collectMonitorResults_eq (board : Board) (dsp : DspInput) (scan : Scan) :
    ∃ results, collectMonitorResults board dsp scan = { scan with scanResults := results } := by
  unfold collectMonitorResults
  induction List.range gsmTrxMonitorCount generalizing scan with
  | nil => exact ⟨scan.scanResults, rfl⟩
  | cons i rest ih =>
      simp only [List.foldl_cons]
      split_ifs
      · exact ih scan
      · obtain ⟨results, hresults⟩ := ih _
        exact ⟨results, hresults⟩

/-- The request for the next window, or the end of the scan. -/
theorem channelScanNext_cases (board : Board) {channels : List Nat} (scan : Scan)
    (hactive : scan.receiverScanState = .active) (hrepeated : scan.scanRequestRepeated = false)
    (hchannels : scan.scanChannels = channels) (hpass : scan.scanPass < scanPassCount) :
    (laterStarts channels.length scan.scanPass scan.scanWindowStart = [] ∧
      (channelScanNext scan).2 = false ∧ (channelScanNext scan).1.Finished) ∨
    ∃ start rest, laterStarts channels.length scan.scanPass scan.scanWindowStart = start :: rest ∧
      (channelScanNext scan).2 = true ∧
      (configureMonitoringFrame board (channelScanNext scan).1).Publishing board channels start rest
        false := by
  subst hchannels
  rw [laterStarts]
  unfold channelScanNext
  dsimp only
  split_ifs with hstart hlast hcomplete hcomplete
  · exact .inl ⟨rfl, rfl, rfl⟩
  · exact absurd (Nat.le_antisymm hpass hlast) hcomplete
  · exact absurd hcomplete.ge hlast
  · exact .inr ⟨_, _, rfl, rfl, hactive, hrepeated, rfl, rfl, rfl, Nat.lt_of_not_le hlast, rfl⟩
  · exact .inr ⟨_, _, rfl, rfl, hactive, hrepeated, rfl, rfl, rfl, hpass, rfl⟩

theorem channelScanAdvance_requested (board : Board) (dsp : DspInput) {scan : Scan}
    (h : scan.receiverScanState = .requested) :
    channelScanAdvance board dsp scan
      = ((channelScanNext (channelScanStartPass { scan with
          receiverScanState := .active
          scanPass := 0
          scanRequestRepeated := false })).1,
        (channelScanNext (channelScanStartPass { scan with
          receiverScanState := .active
          scanPass := 0
          scanRequestRepeated := false })).2, []) := by
  simp [channelScanAdvance, h]

theorem channelScanAdvance_again (board : Board) (dsp : DspInput) {scan : Scan}
    (h : scan.receiverScanState = .active) (hrepeated : scan.scanRequestRepeated = false) :
    channelScanAdvance board dsp scan = ({ scan with scanRequestRepeated := true }, true, []) := by
  simp [channelScanAdvance, h, hrepeated]

theorem channelScanAdvance_collect (board : Board) (dsp : DspInput) {scan : Scan}
    (h : scan.receiverScanState = .active) (hrepeated : scan.scanRequestRepeated = true) :
    channelScanAdvance board dsp scan
      = ((channelScanNext { collectMonitorResults board dsp scan with
          scanRequestRepeated := false }).1,
        (channelScanNext { collectMonitorResults board dsp scan with
          scanRequestRepeated := false }).2,
        [.monitorCollected scan.scanRequestChannels scan.scanRequestGainStates]) := by
  simp [channelScanAdvance, h, hrepeated]

/-- A frame that publishes. -/
theorem scanFrame_of_advance {board : Board} {dsp : DspInput} {scan scan' : Scan}
    {events : List Event} (h : channelScanAdvance board dsp scan = (scan', true, events)) :
    scanFrame board dsp scan = (configureMonitoringFrame board scan', true, events) := by
  simp [scanFrame, h]

/-- The first frame publishes the first window. -/
theorem scanFrame_requested (board : Board) (dsp : DspInput) {scan : Scan}
    (h : scan.receiverScanState = .requested) :
    ∃ start rest, schedule scan.scanChannels.length = start :: rest ∧
      (scanFrame board dsp scan).2 = (true, []) ∧
      (scanFrame board dsp scan).1.Publishing board scan.scanChannels start rest false := by
  have hadvance := channelScanAdvance_requested board dsp h
  rcases channelScanNext_cases board (channelScanStartPass { scan with
      receiverScanState := .active
      scanPass := 0
      scanRequestRepeated := false }) rfl rfl rfl (by decide : 0 < scanPassCount)
    with ⟨hrest, -, -⟩ | ⟨start, rest, hrest, hflag, hnext⟩
  · rw [laterStarts] at hrest
    split_ifs at hrest with hstart hlast
    exact absurd hlast (by decide : ¬ 0 + 1 ≥ scanPassCount)
  · rw [hflag] at hadvance
    rw [scanFrame_of_advance hadvance]
    exact ⟨start, rest, hrest, rfl, hnext⟩

/-- The second frame of a window publishes it again, with the same gain states. -/
theorem scanFrame_publishing (board : Board) (dsp : DspInput) {channels : List Nat} {start : Int}
    {rest : List Int} {scan : Scan} (h : scan.Publishing board channels start rest false) :
    (scanFrame board dsp scan).2 = (true, []) ∧
      (scanFrame board dsp scan).1.Publishing board channels start rest true ∧
      (scanFrame board dsp scan).1.scanRequestGainStates = scan.scanRequestGainStates := by
  have hgains : configureMonitoringFrame board { scan with scanRequestRepeated := true }
      = { scan with scanRequestRepeated := true } :=
    congrArg (fun scan : Scan => { scan with scanRequestRepeated := true }) h.gainStates
  rw [scanFrame_of_advance (channelScanAdvance_again board dsp h.active h.isRepeated), hgains]
  exact ⟨rfl, ⟨h.active, rfl, h.isChannels, h.request, hgains, h.pass, h.left⟩, rfl⟩

/-- The frame behind the second one collects the window. -/
theorem scanFrame_repeated (board : Board) (dsp : DspInput) {channels : List Nat} {start : Int}
    {rest : List Int} {scan : Scan} (h : scan.Publishing board channels start rest true) :
    (scanFrame board dsp scan).2.2
        = [.monitorCollected scan.scanRequestChannels scan.scanRequestGainStates] ∧
      ((rest = [] ∧ (scanFrame board dsp scan).2.1 = false ∧
          (scanFrame board dsp scan).1.Finished) ∨
        ∃ start' rest', rest = start' :: rest' ∧ (scanFrame board dsp scan).2.1 = true ∧
          (scanFrame board dsp scan).1.Publishing board channels start' rest' false) := by
  obtain ⟨results, hresults⟩ := collectMonitorResults_eq board dsp scan
  have hadvance := channelScanAdvance_collect board dsp h.active h.isRepeated
  rw [hresults] at hadvance
  rcases channelScanNext_cases board { scan with
      scanResults := results, scanRequestRepeated := false }
    h.active rfl h.isChannels h.pass with ⟨hrest, hflag, hfinished⟩ | ⟨start', rest', hrest, hflag, hnext⟩
  · have hframe : scanFrame board dsp scan = ((channelScanNext { scan with
        scanResults := results, scanRequestRepeated := false }).1, false,
        [.monitorCollected scan.scanRequestChannels scan.scanRequestGainStates]) := by
      simp [scanFrame, hadvance, hflag]
    rw [hframe]
    exact ⟨rfl, .inl ⟨h.left.symm.trans hrest, rfl, hfinished⟩⟩
  · rw [hflag] at hadvance
    rw [scanFrame_of_advance hadvance]
    exact ⟨rfl, .inr ⟨start', rest', h.left.symm.trans hrest, rfl, hnext⟩⟩

/-- Nothing happens behind the end. -/
theorem scanFrame_finished (board : Board) (dsp : DspInput) {scan : Scan} (h : scan.Finished) :
    scanFrame board dsp scan = (scan, false, []) := by
  unfold Scan.Finished at h
  simp [scanFrame, channelScanAdvance, h]

/-! ## The run -/

/-- The frames `frame` work off the windows `starts` of a list of channels. -/
structure ScanRun (frame : Nat → Scan × Bool × List Event) (channels : List Nat)
    (starts : List Int) : Prop where
  /-- A request has channels of the list only, or none. -/
  inside : ∀ start ∈ starts, ∀ channel ∈ requestAt channels start,
    channel ∈ channels ∨ channel = gsmChannelNone
  /-- A window is published in two frames, one behind the other, with the same gain states. -/
  published : ∀ i start, starts[i]? = some start →
    (frame (2 * i)).2.1 = true ∧ (frame (2 * i + 1)).2.1 = true ∧
      (frame (2 * i)).1.scanRequestChannels = requestAt channels start ∧
      (frame (2 * i + 1)).1.scanRequestChannels = requestAt channels start ∧
      (frame (2 * i + 1)).1.scanRequestGainStates = (frame (2 * i)).1.scanRequestGainStates
  /-- It is collected in the frame behind them, with these gain states. -/
  collected : ∀ i start, starts[i]? = some start →
    (frame (2 * i + 2)).2.2 =
      [.monitorCollected (requestAt channels start) (frame (2 * i)).1.scanRequestGainStates]
  /-- Nothing else is collected. -/
  once : ∀ n, (∀ i < starts.length, n ≠ 2 * i + 2) → (frame n).2.2 = []
  /-- The scan is complete with the last collection and stays so. -/
  complete : ∀ n, (frame (2 * starts.length + n)).1.receiverScanState = .complete ∧
    (frame (2 * starts.length + n)).2.1 = false
  /-- The request of a window has the channels at its positions. -/
  placed : ∀ start ∈ starts, ∀ position < channels.length, covers position start = true →
    (requestAt channels start)[((position : Int) - start).toNat]? = channels[position]?
  /-- Every position is in eight of the windows. -/
  covered : ∀ position < channels.length, starts.countP (covers position) = 8

theorem mem_requestAt {channels : List Nat} {start : Int} {channel : Nat}
    (h : channel ∈ requestAt channels start) : channel ∈ channels ∨ channel = gsmChannelNone := by
  obtain ⟨i, -, rfl⟩ := List.mem_map.mp h
  dsimp only
  split_ifs with hinside
  · left
    have hlt : (start + i).toNat < channels.length := by omega
    rw [List.getD_eq_getElem _ _ hlt]
    exact List.getElem_mem hlt
  · exact .inr rfl

/-- A position of a request is one of its window. -/
theorem getElem?_requestAt {channels : List Nat} {start : Int} {position : Nat}
    (h : covers position start = true) (hposition : position < channels.length) :
    (requestAt channels start)[((position : Int) - start).toNat]? = channels[position]? := by
  have hcovers : start ≤ position ∧ (position : Int) < start + 4 := of_decide_eq_true h
  have hindex : ((position : Int) - start).toNat < gsmTrxMonitorCount := by
    unfold gsmTrxMonitorCount
    omega
  have hsum : start + (((position : Int) - start).toNat : Int) = position := by omega
  simp only [requestAt, List.getElem?_map, List.getElem?_range hindex, Option.map_some, hsum]
  rw [if_pos ⟨by omega, by omega⟩]
  simp [hposition]

/-- Behind the first frame of a window, with the windows that are left. -/
theorem publishing_scanBefore (board : Board) (dsp : Nat → DspInput) {scan : Scan}
    (h : scan.receiverScanState = .requested) (i : Nat) :
    ∀ start, (schedule scan.scanChannels.length)[i]? = some start →
      (scanBefore board dsp scan (2 * i + 1)).Publishing board scan.scanChannels start
          ((schedule scan.scanChannels.length).drop (i + 1)) false ∧
        (scanFrames board dsp scan (2 * i)).2.1 = true := by
  induction i with
  | zero =>
      intro start hstart
      obtain ⟨start', rest, hschedule, hflag, hnext⟩ := scanFrame_requested board (dsp 0) h
      rw [hschedule] at hstart ⊢
      obtain rfl : start' = start := Option.some.inj hstart
      exact ⟨hnext, congrArg Prod.fst hflag⟩
  | succ i ih =>
      intro start hstart
      have hlt : i < (schedule scan.scanChannels.length).length :=
        Nat.lt_of_succ_lt (List.getElem?_eq_some_iff.mp hstart).1
      obtain ⟨hpublishing, -⟩ := ih _ (List.getElem?_eq_getElem hlt)
      obtain ⟨-, hagain, -⟩ := scanFrame_publishing board (dsp (2 * i + 1)) hpublishing
      obtain ⟨-, hnext⟩ := scanFrame_repeated board (dsp (2 * i + 2)) hagain
      have hdrop : (schedule scan.scanChannels.length).drop (i + 1)
          = start :: (schedule scan.scanChannels.length).drop (i + 1 + 1) := by
        obtain ⟨hlt', rfl⟩ := List.getElem?_eq_some_iff.mp hstart
        exact (List.getElem_cons_drop hlt').symm
      rcases hnext with ⟨hrest, -⟩ | ⟨start', rest', hrest, hflag, hpublishing'⟩
      · cases hrest.symm.trans hdrop
      · obtain ⟨rfl, rfl⟩ := List.cons.inj (hrest.symm.trans hdrop)
        exact ⟨hpublishing', hflag⟩

/-- Behind the second frame of a window. -/
theorem repeated_scanBefore (board : Board) (dsp : Nat → DspInput) {scan : Scan}
    (h : scan.receiverScanState = .requested) (i : Nat) (start : Int)
    (hstart : (schedule scan.scanChannels.length)[i]? = some start) :
    (scanBefore board dsp scan (2 * i + 2)).Publishing board scan.scanChannels start
        ((schedule scan.scanChannels.length).drop (i + 1)) true ∧
      (scanFrames board dsp scan (2 * i + 1)).2 = (true, []) ∧
      (scanBefore board dsp scan (2 * i + 2)).scanRequestGainStates
        = (scanBefore board dsp scan (2 * i + 1)).scanRequestGainStates := by
  obtain ⟨hpublishing, -⟩ := publishing_scanBefore board dsp h i start hstart
  obtain ⟨hflag, hagain, hgains⟩ := scanFrame_publishing board (dsp (2 * i + 1)) hpublishing
  exact ⟨hagain, hflag, hgains⟩

/-- The frame behind the last window ends the scan. -/
theorem finished_scanBefore (board : Board) (dsp : Nat → DspInput) {scan : Scan}
    (h : scan.receiverScanState = .requested) (n : Nat) :
    (scanBefore board dsp scan (2 * (schedule scan.scanChannels.length).length + n + 1)).Finished ∧
      (scanFrames board dsp scan (2 * (schedule scan.scanChannels.length).length + n)).2.1
        = false := by
  induction n with
  | zero =>
      obtain ⟨first, rest, hschedule, -⟩ := scanFrame_requested board (dsp 0) h
      have hlast : rest.length < (schedule scan.scanChannels.length).length := by simp [hschedule]
      obtain ⟨hagain, -, -⟩ := repeated_scanBefore board dsp h rest.length _
        (List.getElem?_eq_getElem hlast)
      obtain ⟨-, hnext⟩ := scanFrame_repeated board (dsp (2 * rest.length + 2)) hagain
      have hlength : 2 * (schedule scan.scanChannels.length).length = 2 * rest.length + 2 := by
        simp [hschedule, Nat.mul_add]
      rw [Nat.add_zero, hlength]
      rcases hnext with ⟨-, hflag, hfinished⟩ | ⟨start', rest', hrest, -⟩
      · exact ⟨hfinished, hflag⟩
      · simp [hschedule] at hrest
  | succ n ih =>
      obtain ⟨hfinished, -⟩ := ih
      have hframe := scanFrame_finished board
        (dsp (2 * (schedule scan.scanChannels.length).length + n + 1)) hfinished
      have hnext : scanBefore board dsp scan
          (2 * (schedule scan.scanChannels.length).length + (n + 1) + 1) = _ := congrArg Prod.fst hframe
      exact ⟨hnext ▸ hfinished, congrArg (fun frame => frame.2.1) hframe⟩

/-- **The scan.** From a request on, whatever the DSP reports, the frames work off the windows of the
    schedule. -/
theorem scanRun_scanFrames (board : Board) (dsp : Nat → DspInput) {scan : Scan}
    (h : scan.receiverScanState = .requested) :
    ScanRun (scanFrames board dsp scan) scan.scanChannels
      (schedule scan.scanChannels.length) where
  inside := fun start _ channel hchannel => mem_requestAt hchannel
  published := by
    intro i start hstart
    obtain ⟨hpublishing, hflag⟩ := publishing_scanBefore board dsp h i start hstart
    obtain ⟨hagain, hflag', hgains⟩ := repeated_scanBefore board dsp h i start hstart
    exact ⟨hflag, congrArg Prod.fst hflag', hpublishing.request, hagain.request, hgains⟩
  collected := by
    intro i start hstart
    obtain ⟨hagain, -, hgains⟩ := repeated_scanBefore board dsp h i start hstart
    obtain ⟨hcollected, -⟩ := scanFrame_repeated board (dsp (2 * i + 2)) hagain
    rw [hagain.request, hgains] at hcollected
    exact hcollected
  once := by
    intro n hn
    obtain ⟨first, rest, hschedule, hflag, -⟩ := scanFrame_requested board (dsp 0) h
    by_cases hend : 2 * (schedule scan.scanChannels.length).length < n
    · obtain ⟨m, rfl⟩ := Nat.exists_eq_add_of_lt hend
      obtain ⟨hfinished, -⟩ := finished_scanBefore board dsp h m
      exact congrArg (fun frame => frame.2.2) (scanFrame_finished board _ hfinished)
    · obtain ⟨i, hi | hi⟩ : ∃ i, n = 2 * i ∨ n = 2 * i + 1 := ⟨n / 2, by omega⟩
      · cases i with
        | zero =>
            subst hi
            exact congrArg Prod.snd hflag
        | succ i => exact absurd hi (hn i (by omega))
      · have hlt : i < (schedule scan.scanChannels.length).length := by omega
        obtain ⟨-, hagain, -⟩ :=
          repeated_scanBefore board dsp h i _ (List.getElem?_eq_getElem hlt)
        subst hi
        exact congrArg Prod.snd hagain
  complete := fun n => finished_scanBefore board dsp h n
  placed := fun start _ position hposition hcovers => getElem?_requestAt hcovers hposition
  covered := fun position hposition => countP_schedule hposition

/-- The scan over the bands of the layer, with a DSP that reports level 0. -/
theorem scanRun_scanFrames_bands :
    basebandReady.l1.scan.scanChannels.length = 971 ∧
      ScanRun (scanFrames plainBoard (fun _ => ⟨0, 0, [], [], [0, 0, 0, 0]⟩)
          { basebandReady.l1.scan with receiverScanState := .requested })
        basebandReady.l1.scan.scanChannels (schedule basebandReady.l1.scan.scanChannels.length) :=
  ⟨by decide +kernel, scanRun_scanFrames plainBoard _ rfl⟩

end Pmb887x.GsmL1
