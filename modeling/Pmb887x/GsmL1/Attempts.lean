import Pmb887x.GsmL1.Calls
import Pmb887x.GsmL1.Transitions

set_option autoImplicit false

/-! # The attempt limits

An acquisition decodes the synchronisation burst at most `schAttemptLimit` times. Before each attempt
the handler refines the position of the burst until a result is accepted, and all refinements of one
candidate share a counter, which is compared with its limit for equality and only when a result is
rejected. `Bounded` is the invariant from which both limits follow as long as the counter is not past
its limit when a result is rejected. -/

namespace Pmb887x.GsmL1

open Library

/-- The rejected refinement results since a result has been accepted or a candidate has been started,
    in a log with the newest event first. -/
def consecutiveRejections : List Event → Nat
  | [] => 0
  | .candidateStarted :: _ => 0
  | .refinementCollected result :: log =>
      if isFcchResultValid result then 0 else consecutiveRejections log + 1
  | .called _ :: log => consecutiveRejections log
  | .returned _ :: log => consecutiveRejections log
  | .basebandOff :: log => consecutiveRejections log
  | .fcInit _ :: log => consecutiveRejections log
  | .fcchCollected _ _ :: log => consecutiveRejections log
  | .schCollected _ :: log => consecutiveRejections log
  | .correction _ :: log => consecutiveRejections log
  | .monitorCollected _ _ :: log => consecutiveRejections log

theorem consecutiveRejections_monitor (events log : List Event) (h : ∀ e ∈ events, e.IsMonitor) :
    consecutiveRejections (events ++ log) = consecutiveRejections log :=
  eq_of_monitor (fun _ _ _ => rfl) events log h

/-- The phases in which the next results belong to a refinement. -/
def FcchTpuPhase.Refining : FcchTpuPhase → Prop
  | .refinementPrepare => True
  | .refinementStart => True
  | .refinementWaitResult => True
  | _ => False

/-- The acquisition is not over: SCH results are still to come. -/
def L1.Acquiring (s : L1) : Prop :=
  s.schScanState = .active ∨ s.tpuLoopPhase = .sch ∨
    (s.tpuLoopPhase = .fcch ∧ s.fcchTpuPhase.Refining)

structure L1.Bounded (s : L1) : Prop where
  attempts : s.schAttemptCount ≤ schAttemptLimit
  acquiring : s.Acquiring → s.schAttemptCount < schAttemptLimit
  counted : consecutiveRejections s.log ≤ s.fcchRefinementAttemptCount
  rejections : consecutiveRejections s.log ≤ fcchRefinementAttemptLimit

/-- The interrupt does not reject a refinement result behind the limit of the counter. -/
def rejectsWithinLimit (w : World) : Action → Prop
  | .irq dsp =>
      w.l1.tpuLoopPhase = .fcch → w.l1.fcchTpuPhase = .refinementWaitResult →
        dsp.fcchReady = true → isFcchResultValid (readFcchResult dsp) = false →
          w.l1.fcchRefinementAttemptCount < fcchRefinementAttemptLimit
  | _ => True

instance (w : World) : (a : Action) → Decidable (rejectsWithinLimit w a)
  | .irq _ => inferInstanceAs (Decidable (_ → _))
  | .call _ => .isTrue trivial
  | .main _ => .isTrue trivial

/-! ## Steps of the main thread -/

/-- What no statement of the main thread touches, and where it may set the loop phase. -/
structure MainFrame (s s' : L1) : Prop where
  attempts : s'.schAttemptCount = s.schAttemptCount
  refinements : s'.fcchRefinementAttemptCount = s.fcchRefinementAttemptCount
  tpuPhase : s'.fcchTpuPhase = s.fcchTpuPhase
  rejections : consecutiveRejections s'.log = consecutiveRejections s.log
  sch : s'.schScanState = .active → s.schScanState = .active
  schPhase : s'.tpuLoopPhase = .sch → s.tpuLoopPhase = .sch
  fcchPhase : s'.tpuLoopPhase = .fcch → s.tpuLoopPhase = .fcch

theorem MainFrame.refl (s : L1) : MainFrame s s := ⟨rfl, rfl, rfl, rfl, id, id, id⟩

theorem mainFrame_frequency (board : Board) (frequencyHz : Int) (s : L1) :
    MainFrame s (gsmBoardSetFrequencyCorrectionHz board frequencyHz s) :=
  ⟨rfl, rfl, rfl, rfl, id, id, id⟩

theorem mainFrame_execute (ok : Bool) (s : L1) (pc : ExecutePc) :
    MainFrame s (executeRequestedFcchCommand ok s pc).1 := by
  cases pc <;> exact ⟨rfl, rfl, rfl, rfl, id, id, id⟩

theorem mainFrame_returned {s s' : L1} (h : MainFrame s s') (result : Return) :
    MainFrame s (s'.event (.returned result)) :=
  { h with rejections := h.rejections }

theorem mainFrame_trxInit (board : Board) (ok : Bool) (w : World) (pc : TrxPc) :
    MainFrame w.l1 (trxInitStep board ok w pc).l1 := by
  cases pc with
  | loopStart =>
      exact ⟨rfl, rfl, rfl, rfl, id, (by intro h; cases h), (by intro h; cases h)⟩
  | setFrequency => exact mainFrame_frequency board _ w.l1
  | setInitialized => exact ⟨rfl, rfl, rfl, rfl, id, id, id⟩
  | _ =>
      simp only [trxInitStep]
      split_ifs
      all_goals first
        | exact .refl _
        | exact mainFrame_returned (.refl _) _

theorem mainFrame_scanChannels (board : Board) (ok : Bool) (capacity : Nat) (w : World)
    (pc : ScanPc) : MainFrame w.l1 (scanChannelsStep board ok capacity w pc).l1 := by
  cases pc with
  | clearSch => exact ⟨rfl, rfl, rfl, rfl, (by intro h; cases h), id, id⟩
  | clearResults channels =>
      cases channels <;> exact ⟨rfl, rfl, rfl, rfl, id, id, id⟩
  | request => exact ⟨rfl, rfl, rfl, rfl, id, id, id⟩
  | loop =>
      simp only [scanChannelsStep]
      split_ifs <;> exact .refl _
  | testMeasured =>
      simp only [scanChannelsStep]
      split_ifs
      · exact mainFrame_returned (.refl _) _
      · exact .refl _
  | select => exact ⟨rfl, rfl, rfl, rfl, id, id, id⟩
  | clearFcch candidates => exact ⟨rfl, rfl, rfl, rfl, id, id, id⟩

theorem mainFrame_searchFcch (board : Board) (ok : Bool) (c : Candidate) (w : World)
    (pc : SearchPc) : MainFrame w.l1 (searchFcchStep board ok c w pc).l1 := by
  cases pc with
  | setLoopPhase => exact ⟨rfl, rfl, rfl, rfl, id, (by intro h; cases h), (by intro h; cases h)⟩
  | execute pc =>
      have hexecute := mainFrame_execute ok w.l1 pc
      simp only [searchFcchStep]
      split
      · exact hexecute
      · exact hexecute
      · exact mainFrame_returned hexecute _
  | reportResult fields => cases fields <;> exact ⟨rfl, rfl, rfl, rfl, id, id, id⟩
  | loop =>
      simp only [searchFcchStep]
      split_ifs <;> exact .refl _
  | testComplete =>
      simp only [searchFcchStep]
      split_ifs
      · exact mainFrame_returned (.refl _) _
      · exact .refl _
  | testWindow =>
      simp only [searchFcchStep]
      split_ifs
      · exact mainFrame_returned (.refl _) _
      · exact .refl _
  | _ => exact ⟨rfl, rfl, rfl, rfl, id, id, id⟩

theorem mainFrame_decodeSch (ok : Bool) (c : Candidate) (fcch : FcchReport) (w : World)
    (pc : DecodePc) : MainFrame w.l1 (decodeSchStep ok c fcch w pc).l1 := by
  cases pc with
  | request => exact ⟨rfl, rfl, rfl, rfl, (by intro h; cases h), id, id⟩
  | setLoopPhase => exact ⟨rfl, rfl, rfl, rfl, id, (by intro h; cases h), (by intro h; cases h)⟩
  | execute pc =>
      have hexecute := mainFrame_execute ok w.l1 pc
      simp only [decodeSchStep]
      split
      · exact hexecute
      · exact hexecute
      · exact mainFrame_returned hexecute _
  | loop =>
      simp only [decodeSchStep]
      split_ifs <;> exact .refl _
  | testComplete =>
      simp only [decodeSchStep]
      split_ifs
      · exact mainFrame_returned (.refl _) _
      · exact .refl _
  | _ => exact ⟨rfl, rfl, rfl, rfl, id, id, id⟩

theorem mainFrame_startCall (call : Call) (w : World) :
    MainFrame w.l1 (startCall call w).l1 := by
  have hcalled : MainFrame w.l1 (w.l1.event (.called call)) := ⟨rfl, rfl, rfl, rfl, id, id, id⟩
  cases call with
  | trxInit => exact hcalled
  | _ =>
      simp only [startCall]
      split_ifs
      · exact mainFrame_returned hcalled _
      · exact hcalled

theorem mainFrame_mainStep (board : Board) (ok : Bool) {w w' : World}
    (h : mainStep board ok w = some w') : MainFrame w.l1 w'.l1 := by
  unfold mainStep at h
  cases htask : w.task with
  | idle => rw [htask] at h; cases h
  | trxInit pc =>
      rw [htask] at h
      exact Option.some.inj h ▸ mainFrame_trxInit board ok w pc
  | scan capacity pc =>
      rw [htask] at h
      exact Option.some.inj h ▸ mainFrame_scanChannels board ok capacity w pc
  | search c pc =>
      rw [htask] at h
      exact Option.some.inj h ▸ mainFrame_searchFcch board ok c w pc
  | decode c fcch pc =>
      rw [htask] at h
      exact Option.some.inj h ▸ mainFrame_decodeSch ok c fcch w pc

/-- A step that collects nothing, and behind which results are to come only if they were before. -/
theorem L1.Bounded.frame {s s' : L1} (hs : s.Bounded)
    (hattempts : s'.schAttemptCount = s.schAttemptCount)
    (hrefinements : s'.fcchRefinementAttemptCount = s.fcchRefinementAttemptCount)
    (hrejections : consecutiveRejections s'.log = consecutiveRejections s.log)
    (hsch : s'.schScanState = .active → s.schScanState = .active)
    (hphase : s'.tpuLoopPhase = .sch → s.tpuLoopPhase = .sch)
    (hfcch : s'.tpuLoopPhase = .fcch → s'.fcchTpuPhase.Refining → s.Acquiring) : s'.Bounded where
  attempts := hattempts ▸ hs.attempts
  acquiring := by
    intro hacquiring
    rw [hattempts]
    apply hs.acquiring
    rcases hacquiring with hactive | hloop | ⟨hloop, hrefining⟩
    · exact .inl (hsch hactive)
    · exact .inr (.inl (hphase hloop))
    · exact hfcch hloop hrefining
  counted := by
    rw [hrejections, hrefinements]
    exact hs.counted
  rejections := hrejections ▸ hs.rejections

theorem L1.Bounded.mainFrame {s s' : L1} (hs : s.Bounded) (h : MainFrame s s') : s'.Bounded :=
  hs.frame h.attempts h.refinements h.rejections h.sch h.schPhase fun hphase hrefining =>
    .inr (.inr ⟨h.fcchPhase hphase, h.tpuPhase ▸ hrefining⟩)

/-! ## Interrupts -/

theorem consecutiveRejections_refinementTaken (dsp : DspInput) (s : L1)
    (h : isFcchResultValid (readFcchResult dsp) = false) :
    consecutiveRejections (refinementTaken dsp s).log = consecutiveRejections s.log + 1 := by
  simp [refinementTaken, L1.event, consecutiveRejections, h]

theorem consecutiveRejections_refinementAccepted (board : Board) (dsp : DspInput) (s : L1)
    (h : isFcchResultValid (readFcchResult dsp) = true) :
    consecutiveRejections (refinementAccepted board dsp s).log = 0 := by
  simp [refinementAccepted, schScanStart, publishSchFrame, setTpuCorrection, refinementTaken,
    gsmBoardSetFrequencyCorrectionHz, L1.event, consecutiveRejections, h]

/-- The counter has not wrapped below its limit. -/
theorem wrap32_limit {n : Nat} (h : n < 12) : wrap32 (n + 1) = n + 1 := by
  unfold wrap32
  omega

/-- A rejected result: the counter and the rejections go up together. -/
theorem L1.Bounded.rejected {s : L1} (hs : s.Bounded) {dsp : DspInput}
    (hvalid : isFcchResultValid (readFcchResult dsp) = false)
    (hlimit : s.fcchRefinementAttemptCount < fcchRefinementAttemptLimit) :
    consecutiveRejections (refinementTaken dsp s).log ≤
        (refinementTaken dsp s).fcchRefinementAttemptCount ∧
      (refinementTaken dsp s).fcchRefinementAttemptCount ≤ fcchRefinementAttemptLimit := by
  have hcount : (refinementTaken dsp s).fcchRefinementAttemptCount
      = s.fcchRefinementAttemptCount + 1 := wrap32_limit hlimit
  rw [consecutiveRejections_refinementTaken dsp s hvalid, hcount]
  exact ⟨Nat.succ_le_succ hs.counted, hlimit⟩

/-- An SCH result: the attempts stay below the limit as long as the decoding goes on. -/
theorem collectSchResult_attempts (dsp : DspInput) (s : L1)
    (h : s.schAttemptCount < schAttemptLimit) :
    (collectSchResult dsp s).1.schAttemptCount ≤ schAttemptLimit ∧
      ((collectSchResult dsp s).2 = false →
        (collectSchResult dsp s).1.schAttemptCount < schAttemptLimit) := by
  have hwrap : wrap32 (s.schAttemptCount + 1) = s.schAttemptCount + 1 := wrap32_limit h
  have hcount : (collectSchResult dsp s).1.schAttemptCount = s.schAttemptCount + 1 := by
    simp only [collectSchResult]
    split_ifs <;> exact hwrap
  rw [hcount]
  refine ⟨h, fun hmore => ?_⟩
  have hlast : s.schAttemptCount + 1 ≠ schAttemptLimit := by
    simp only [collectSchResult] at hmore
    split_ifs at hmore
    simpa [L1.event, hwrap] using hmore
  exact Nat.lt_of_le_of_ne h hlast

theorem collectSchResult_frame (dsp : DspInput) (s : L1) :
    (collectSchResult dsp s).1.fcchRefinementAttemptCount = s.fcchRefinementAttemptCount ∧
      consecutiveRejections (collectSchResult dsp s).1.log = consecutiveRejections s.log := by
  simp only [collectSchResult]
  split_ifs <;> exact ⟨rfl, rfl⟩

/-- A phase change begins a refinement only where the SCH is looked for. -/
theorem acquiring_of_move {s : L1} {phase : FcchTpuPhase} (h : s.tpuLoopPhase = .fcch) (hmove : FcchMove s phase)
    (hrefining : phase.Refining) : s.Acquiring := by
  cases hmove with
  | refine htpu hsch => exact .inl hsch
  | refinementStart htpu => exact .inr (.inr ⟨h, by rw [htpu]; trivial⟩)
  | refinementWait htpu => exact .inr (.inr ⟨h, by rw [htpu]; trivial⟩)
  | _ => exact hrefining.elim

/-- An acquisition that is over. -/
theorem L1.Bounded.complete {s : L1} (hattempts : s.schAttemptCount ≤ schAttemptLimit)
    (hcounted : consecutiveRejections s.log ≤ s.fcchRefinementAttemptCount)
    (hrejections : consecutiveRejections s.log ≤ fcchRefinementAttemptLimit)
    (hsch : s.schScanState = .complete) (hphase : s.tpuLoopPhase = .complete) : s.Bounded where
  attempts := hattempts
  acquiring := by
    rintro (hactive | hloop | ⟨hloop, -⟩)
    · rw [hsch] at hactive
      cases hactive
    · rw [hphase] at hloop
      cases hloop
    · rw [hphase] at hloop
      cases hloop
  counted := hcounted
  rejections := hrejections

/-- One interrupt keeps the invariant. -/
theorem L1.Bounded.transition {board : Board} {dsp : DspInput} {s s' : L1} (hs : s.Bounded)
    (h : Transition board dsp s s')
    (hlimit : s.tpuLoopPhase = .fcch → s.fcchTpuPhase = .refinementWaitResult →
      dsp.fcchReady = true → isFcchResultValid (readFcchResult dsp) = false →
        s.fcchRefinementAttemptCount < fcchRefinementAttemptLimit) : s'.Bounded := by
  cases h with
  | hold => exact hs
  | scan f hf =>
      have hlog := consecutiveRejections_monitor f.events s.log hf.events
      exact hs.frame rfl rfl hlog id (fun hphase => absurd hphase hf.after.2.1)
        fun hphase _ => absurd hphase hf.after.1
  | searchStart f hf =>
      have hlog := consecutiveRejections_monitor f.events s.log hf.events
      exact hs.frame rfl rfl hlog id nofun fun _ hrefining => hrefining.elim
  | move h phase hmove => exact hs.frame rfl rfl rfl id id fun _ => acquiring_of_move h hmove
  | prepare => exact hs.frame rfl rfl rfl id id fun _ hrefining => hrefining.elim
  | found => exact hs.frame rfl rfl rfl id nofun nofun
  | notFound => exact hs.frame rfl rfl rfl id nofun nofun
  | nextWindow => exact hs.frame rfl rfl rfl id id fun _ hrefining => hrefining.elim
  | restart => exact hs.frame rfl rfl rfl id id fun _ hrefining => hrefining.elim
  | accepted h hphase hready hvalid =>
      have hopen := hs.acquiring (.inr (.inr ⟨h, by rw [hphase]; trivial⟩))
      have hlog := consecutiveRejections_refinementAccepted board dsp s hvalid
      exact ⟨hs.attempts, fun _ => hopen, hlog ▸ Nat.zero_le _, hlog ▸ Nat.zero_le _⟩
  | gaveUp h hphase hready hvalid =>
      obtain ⟨hcounted, hcount⟩ := hs.rejected hvalid (hlimit h hphase hready hvalid)
      exact .complete hs.attempts hcounted (hcounted.trans hcount) rfl rfl
  | rejected h hphase hready hvalid =>
      have hopen := hs.acquiring (.inr (.inr ⟨h, by rw [hphase]; trivial⟩))
      obtain ⟨hcounted, hcount⟩ := hs.rejected hvalid (hlimit h hphase hready hvalid)
      exact ⟨hs.attempts, fun _ => hopen, hcounted, hcounted.trans hcount⟩
  | received h =>
      exact ⟨hs.attempts, fun _ => hs.acquiring (.inr (.inl h)), hs.counted, hs.rejections⟩
  | schRetry h hphase hmore =>
      obtain ⟨hattempts, hopen⟩ :=
        collectSchResult_attempts dsp s (hs.acquiring (.inr (.inl h)))
      obtain ⟨hcount, hlog⟩ := collectSchResult_frame dsp s
      exact ⟨hattempts, fun _ => hopen hmore, hlog.trans_le (hs.counted.trans_eq hcount.symm),
        hlog.trans_le hs.rejections⟩
  | schDone h hphase hdone =>
      obtain ⟨hattempts, -⟩ :=
        collectSchResult_attempts dsp s (hs.acquiring (.inr (.inl h)))
      obtain ⟨hcount, hlog⟩ := collectSchResult_frame dsp s
      exact .complete hattempts (hlog.trans_le (hs.counted.trans_eq hcount.symm)) (hlog.trans_le hs.rejections)
        rfl rfl
  | refineAgain h =>
      exact ⟨hs.attempts, fun _ => hs.acquiring (.inr (.inl h)), hs.counted, hs.rejections⟩
  | candidate =>
      exact ⟨Nat.zero_le _, fun _ => Nat.succ_pos _, Nat.zero_le _, Nat.zero_le _⟩

theorem bounded_step (board : Board) (w : World) (a : Action) (w' : World) (hw : w.l1.Bounded)
    (ha : rejectsWithinLimit w a) (hstep : step board a w = some w') : w'.l1.Bounded := by
  cases a with
  | irq dsp =>
      simp only [step] at hstep
      split_ifs at hstep
      cases hstep
      exact hw.transition (transition_irq board dsp w.l1) ha
  | call call =>
      simp only [step] at hstep
      split_ifs at hstep
      cases hstep
      exact hw.mainFrame (mainFrame_startCall call w)
  | main ok => exact hw.mainFrame (mainFrame_mainStep board ok hstep)

theorem bounded_reachable {board : Board} {w : World}
    (h : Reachable (step board) rejectsWithinLimit basebandReady w) : w.l1.Bounded := by
  refine h.invariant ?_ fun w a w' hw ha hstep => bounded_step board w a w' hw ha hstep
  refine ⟨Nat.zero_le _, fun _ => Nat.succ_pos _, Nat.zero_le _, Nat.zero_le _⟩

/-! ## The limits -/

/-- A step that brings the rejections to their limit. -/
theorem L1.Bounded.gaveUp {board : Board} {dsp : DspInput} {s s' : L1} (hs : s.Bounded)
    (h : Transition board dsp s s')
    (hbelow : consecutiveRejections s.log < fcchRefinementAttemptLimit)
    (hlast : consecutiveRejections s'.log = fcchRefinementAttemptLimit)
    (hlimit : s.tpuLoopPhase = .fcch → s.fcchTpuPhase = .refinementWaitResult →
      dsp.fcchReady = true → isFcchResultValid (readFcchResult dsp) = false →
        s.fcchRefinementAttemptCount < fcchRefinementAttemptLimit) :
    s'.fcchScanState = .refinementFailed ∧ s'.schScanState = .complete ∧
      s'.tpuLoopPhase = .complete := by
  -- A step that adds no rejection cannot reach the limit.
  have hsame : consecutiveRejections s'.log ≠ consecutiveRejections s.log := by omega
  cases h with
  | gaveUp => exact ⟨rfl, rfl, rfl⟩
  | rejected h hphase hready hvalid hmore =>
      have hcount := hlimit h hphase hready hvalid
      have hcounted := hs.counted
      have hlog : consecutiveRejections s.log + 1 = fcchRefinementAttemptLimit :=
        (consecutiveRejections_refinementTaken dsp s hvalid).symm.trans hlast
      rw [wrap32_limit hcount] at hmore
      omega
  | accepted h hphase hready hvalid =>
      rw [consecutiveRejections_refinementAccepted board dsp s hvalid] at hlast
      cases hlast
  | scan f hf => exact absurd (consecutiveRejections_monitor f.events s.log hf.events) hsame
  | searchStart f hf =>
      exact absurd (consecutiveRejections_monitor f.events s.log hf.events) hsame
  | schRetry => exact absurd (collectSchResult_frame dsp s).2 hsame
  | schDone => exact absurd (collectSchResult_frame dsp s).2 hsame
  | candidate => cases hlast
  | _ => exact absurd rfl hsame

/-- **The attempt limits.** In every run in which no refinement result is rejected behind the limit of
    its counter, the attempts to decode stay within their limit, and so do the rejections in a row; the
    one that reaches the limit ends the acquisition. -/
theorem acquisition_bounded (board : Board) {w : World}
    (h : Reachable (step board) rejectsWithinLimit basebandReady w) :
    w.l1.schAttemptCount ≤ schAttemptLimit ∧
      consecutiveRejections w.l1.log ≤ fcchRefinementAttemptLimit ∧
      ∀ a w', rejectsWithinLimit w a → step board a w = some w' →
        consecutiveRejections w.l1.log < fcchRefinementAttemptLimit →
        consecutiveRejections w'.l1.log = fcchRefinementAttemptLimit →
          w'.l1.fcchScanState = .refinementFailed ∧ w'.l1.schScanState = .complete ∧
            w'.l1.tpuLoopPhase = .complete := by
  have hbounded := bounded_reachable h
  refine ⟨hbounded.attempts, hbounded.rejections, ?_⟩
  intro a w' ha hstep hbelow hlast
  cases a with
  | irq dsp =>
      simp only [step] at hstep
      split_ifs at hstep
      cases hstep
      exact hbounded.gaveUp (transition_irq board dsp w.l1) hbelow hlast ha
  | call call =>
      simp only [step] at hstep
      split_ifs at hstep
      cases hstep
      exact absurd ((mainFrame_startCall call w).rejections.symm.trans hlast) hbelow.ne
  | main ok =>
      exact absurd ((mainFrame_mainStep board ok hstep).rejections.symm.trans hlast) hbelow.ne

/-! ### Runs -/

/-- A board without calibration. -/
def plainBoard : Board where
  initialGainState := 0
  nextGainState := fun _ _ gainState _ => gainState
  rxLevelDbmX16 := fun _ _ _ raw => raw.toNat
  minimumFrequency := -10000
  maximumFrequency := 10000

/-- All flags are clear; the results of the FCCH and the SCH have the given status. -/
def frameWith (fcchStatus schStatus : UInt16) : Action :=
  .irq ⟨0, 0, [fcchStatus, 0, 0, 0, 0], [0, schStatus, 0, 0, 0], []⟩

def statements (count : Nat) : List Action := List.replicate count (.main true)

def frames (count : Nat) : List Action := List.replicate count (frameWith 1 1)

/-- `gsm_l1_trx_init` -/
def initRun : List Action := .call .trxInit :: statements 2 ++ frames 2 ++ statements 5

/-- The candidate of the runs. -/
def plainCandidate : Candidate := ⟨.gsm900, 0, 0, 0, 0, 0⟩

/-- The report of a burst at the start of the window, in the first window. -/
def plainReport : FcchReport :=
  { emptyFcchReport with detected := true, attemptCount := 1, status := 2, phaseTick := 9928 }

/-- `gsm_l1_decode_sch` up to its first command, and the frames before the first result. -/
def decodeRun : List Action :=
  .call (.decodeSch plainCandidate plainReport) :: statements 5 ++ frames 1 ++ statements 6
    ++ frames 3

/-- A rejected refinement, and the next command. -/
def rejectionRun : List Action := frames 3 ++ statements 4

/-- An accepted refinement and the SCH attempt behind it, which fails. -/
def attemptRun : List Action := frames 2 ++ [frameWith 2 1] ++ frames 3 ++ statements 4

def Action.repeated (count : Nat) (actions : List Action) : List Action :=
  (List.replicate count actions).flatten

/-- The theorem at the end of a run in which every refinement is rejected. -/
theorem acquisition_bounded_rejected :
    ∃ w, Reachable (step plainBoard) rejectsWithinLimit basebandReady w ∧
      consecutiveRejections w.l1.log = 12 ∧ w.l1.schAttemptCount ≤ schAttemptLimit := by
  have hrun : ∃ w, Reachable (step plainBoard) rejectsWithinLimit basebandReady w ∧
      consecutiveRejections w.l1.log = 12 :=
    exists_reachable_of_run (initRun ++ decodeRun ++ Action.repeated 11 rejectionRun ++ frames 3)
      (by decide +kernel)
  obtain ⟨w, h, hrejections⟩ := hrun
  exact ⟨w, h, hrejections, (acquisition_bounded plainBoard h).1⟩

/-- One rejected refinement and eleven accepted ones, each with an SCH attempt that fails, bring the
    counter to its limit; then nothing stops the rejections. -/
theorem acquisition_unbounded :
    ∃ w, Reachable (step plainBoard) (fun _ _ => True) basebandReady w ∧
      consecutiveRejections w.l1.log = 13 ∧
      w.l1.fcchScanState = .refinementCommandRequested ∧ w.l1.schScanState = .active :=
  exists_reachable_of_run
    (initRun ++ decodeRun ++ rejectionRun ++ Action.repeated 11 attemptRun
      ++ Action.repeated 12 rejectionRun ++ frames 3) (by decide +kernel)

end Pmb887x.GsmL1
