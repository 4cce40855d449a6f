import Pmb887x.GsmL1.Tpu

set_option autoImplicit false

/-! # What one interrupt does

`Transition board dsp s s'` lists the ways in which the interrupt handler can go on from `s`, one
constructor for each kind of frame, with the guards of its branch. `transition_irq` proves the list
complete; every invariant of the layer is then proved along the list. -/

namespace Pmb887x.GsmL1

open Library

/-- Neither acquisition is on and the loop is not complete: the radio is started, or channels are
    scanned. -/
def TpuLoopPhase.Scanning (p : TpuLoopPhase) : Prop := p ≠ .fcch ∧ p ≠ .sch ∧ p ≠ .complete

instance (p : TpuLoopPhase) : Decidable p.Scanning := by
  unfold TpuLoopPhase.Scanning
  infer_instance

/-- An event of the channel scan. -/
def Event.IsMonitor : Event → Prop
  | .monitorCollected _ _ => True
  | _ => False

/-- What does not read the events of the channel scan is not changed by them. -/
theorem eq_of_monitor {α : Type} {f : List Event → α}
    (hf : ∀ channels gainStates log, f (.monitorCollected channels gainStates :: log) = f log)
    (events log : List Event) (h : ∀ e ∈ events, e.IsMonitor) : f (events ++ log) = f log := by
  induction events with
  | nil => rfl
  | cons e rest ih =>
      have hrest := ih fun e' he' => h e' (List.mem_cons_of_mem _ he')
      cases e with
      | monitorCollected channels gainStates => exact (hf channels gainStates _).trans hrest
      | _ => exact absurd (h _ List.mem_cons_self) id

/-- Changes of the radio start and the channel scan. -/
structure ScanFrame where
  phase : TpuLoopPhase
  complete : Bool
  frame : Nat
  scan : Scan
  events : List Event

def ScanFrame.apply (f : ScanFrame) (s : L1) : L1 :=
  { s with
    tpuLoopPhase := f.phase
    rfInitializationComplete := f.complete
    tpuRfTransitionFrame := f.frame
    scan := f.scan
    log := f.events ++ s.log }

/-- The frame belongs to a loop phase of the scan, and stays in `TPU_LOOP_SEARCH`. -/
structure ScanFrame.Fits (f : ScanFrame) (s : L1) : Prop where
  before : s.tpuLoopPhase.Scanning
  after : f.phase.Scanning
  search : s.tpuLoopPhase = .search → f.phase = .search
  events : ∀ e ∈ f.events, e.IsMonitor

/-- The result of a refinement that the handler takes. -/
def refinementTaken (dsp : DspInput) (s : L1) : L1 :=
  ({ s with
    fcchRefinementResult := readFcchResult dsp
    fcchRefinementAttemptCount := wrap32 (s.fcchRefinementAttemptCount + 1) }).event
      (.refinementCollected (readFcchResult dsp))

/-- The result of a search window that the handler takes. -/
def fcchTaken (dsp : DspInput) (s : L1) : L1 :=
  ({ s with
    fcchResult := readFcchResult dsp
    fcchWindow := wrap32 (s.fcchWindow + 1) }).event
      (.fcchCollected (readFcchResult dsp) s.currentCandidate)

/-- A search window that found a burst. -/
def fcchFound (dsp : DspInput) (s : L1) : L1 :=
  { fcchTaken dsp s with
    fcchDetected := true
    fcchCorrectionTick := fcchStartToTpuPhaseTick (readFcchResult dsp).start
    fcchResultAfcFrequencyHz := s.fcchReferenceAfcFrequencyHz + (readFcchResult dsp).frequency }

/-- A refinement that has been accepted, with the SCH frame behind it. -/
def refinementAccepted (board : Board) (dsp : DspInput) (s : L1) : L1 :=
  let s := gsmBoardSetFrequencyCorrectionHz board
    (s.frequencyCorrectionHz + (readFcchResult dsp).frequency) (refinementTaken dsp s)
  let s := { s with fcchCorrectionTick := fcchStartToTpuPhaseTick (readFcchResult dsp).start }
  schScanStart { setTpuCorrection s.fcchCorrectionTick s with fcchScanState := .refinementComplete }

/-- Phase changes of the acquisition that change nothing else. -/
inductive FcchMove (s : L1) : FcchTpuPhase → Prop where
  | quietFirst (h : s.fcchTpuPhase = .rfQuietFirst) (hoff : s.fcchScanState ≠ .bbOffRequested)
      (hrefine : s.fcchScanState ≠ .refinementBbOffRequested) : FcchMove s .rfQuietSecond
  | quietSecond (h : s.fcchTpuPhase = .rfQuietSecond) : FcchMove s .rfInitialization
  | refine (h : s.fcchTpuPhase = .rfInitialization) (hsch : s.schScanState = .active) :
      FcchMove s .refinementPrepare
  | search (h : s.fcchTpuPhase = .rfInitialization) (hsch : s.schScanState ≠ .active) :
      FcchMove s .prepareFirst
  | start (h : s.fcchTpuPhase = .prepareSecond) (hcommand : s.fcchScanState ≠ .commandRequested) :
      FcchMove s .start
  | holdFirst (h : s.fcchTpuPhase = .start) : FcchMove s .holdFirst
  | holdSecond (h : s.fcchTpuPhase = .holdFirst) : FcchMove s .holdSecond
  | finish (h : s.fcchTpuPhase = .holdSecond) : FcchMove s .finish
  | refinementStart (h : s.fcchTpuPhase = .refinementPrepare)
      (hcommand : s.fcchScanState ≠ .refinementCommandRequested) : FcchMove s .refinementStart
  | refinementWait (h : s.fcchTpuPhase = .refinementStart) : FcchMove s .refinementWaitResult

/-- One frame. -/
inductive Transition (board : Board) (dsp : DspInput) (s : L1) : L1 → Prop where
  | hold (hscan : ¬ s.tpuLoopPhase.Scanning) : Transition board dsp s s
  | scan (f : ScanFrame) (hf : f.Fits s) : Transition board dsp s (f.apply s)
  | searchStart (f : ScanFrame) (hf : f.Fits s) (hrequest : s.fcchScanState = .requested) :
      Transition board dsp s (fcchScanStart (f.apply s))
  | move (h : s.tpuLoopPhase = .fcch) (phase : FcchTpuPhase) (hmove : FcchMove s phase) :
      Transition board dsp s { s with fcchTpuPhase := phase }
  | prepare (h : s.tpuLoopPhase = .fcch)
      (hphase : s.fcchTpuPhase = .prepareFirst ∨ s.fcchTpuPhase = .retryDelay) :
      Transition board dsp s
        { s with fcchTpuPhase := .prepareSecond, fcchScanState := .commandRequested }
  | found (h : s.tpuLoopPhase = .fcch) (hphase : s.fcchTpuPhase = .finish)
      (hready : dsp.fcchReady = true) (hvalid : isFcchResultValid (readFcchResult dsp) = true) :
      Transition board dsp s
        { fcchFound dsp s with fcchScanState := .complete, tpuLoopPhase := .complete }
  | notFound (h : s.tpuLoopPhase = .fcch) (hphase : s.fcchTpuPhase = .finish)
      (hready : dsp.fcchReady = true) (hvalid : isFcchResultValid (readFcchResult dsp) = false)
      (hlast : wrap32 (s.fcchWindow + 1) = fcchSearchWindowCount ∨ s.fcchScanState = .complete) :
      Transition board dsp s
        { fcchTaken dsp s with fcchScanState := .complete, tpuLoopPhase := .complete }
  | nextWindow (h : s.tpuLoopPhase = .fcch) (hphase : s.fcchTpuPhase = .finish)
      (hready : dsp.fcchReady = true) (hvalid : isFcchResultValid (readFcchResult dsp) = false)
      (hmore : wrap32 (s.fcchWindow + 1) ≠ fcchSearchWindowCount)
      (hstate : s.fcchScanState ≠ .bbOffRequested) (hcomplete : s.fcchScanState ≠ .complete) :
      Transition board dsp s { fcchTaken dsp s with fcchTpuPhase := .retryDelay }
  | restart (h : s.tpuLoopPhase = .fcch) (hphase : s.fcchTpuPhase = .finish)
      (hready : dsp.fcchReady = true) (hvalid : isFcchResultValid (readFcchResult dsp) = false)
      (hmore : wrap32 (s.fcchWindow + 1) ≠ fcchSearchWindowCount)
      (hstate : s.fcchScanState = .bbOffRequested) :
      Transition board dsp s { fcchTaken dsp s with fcchTpuPhase := .rfQuietFirst }
  | accepted (h : s.tpuLoopPhase = .fcch) (hphase : s.fcchTpuPhase = .refinementWaitResult)
      (hready : dsp.fcchReady = true) (hvalid : isFcchResultValid (readFcchResult dsp) = true) :
      Transition board dsp s (refinementAccepted board dsp s)
  | gaveUp (h : s.tpuLoopPhase = .fcch) (hphase : s.fcchTpuPhase = .refinementWaitResult)
      (hready : dsp.fcchReady = true) (hvalid : isFcchResultValid (readFcchResult dsp) = false)
      (hlast : wrap32 (s.fcchRefinementAttemptCount + 1) = fcchRefinementAttemptLimit) :
      Transition board dsp s
        (schScanComplete { refinementTaken dsp s with fcchScanState := .refinementFailed })
  | rejected (h : s.tpuLoopPhase = .fcch) (hphase : s.fcchTpuPhase = .refinementWaitResult)
      (hready : dsp.fcchReady = true) (hvalid : isFcchResultValid (readFcchResult dsp) = false)
      (hmore : wrap32 (s.fcchRefinementAttemptCount + 1) ≠ fcchRefinementAttemptLimit) :
      Transition board dsp s
        { refinementTaken dsp s with
          fcchScanState := .refinementCommandRequested
          fcchTpuPhase := .refinementPrepare }
  | received (h : s.tpuLoopPhase = .sch) (hphase : s.schTpuPhase = .receive)
      (hready : dsp.schReady = true) :
      Transition board dsp s
        { setTpuCorrection tpuSchResultBoundaryTick s with schTpuPhase := .resultBoundary }
  | schRetry (h : s.tpuLoopPhase = .sch) (hphase : s.schTpuPhase = .resultBoundary)
      (hmore : (collectSchResult dsp s).2 = false) :
      Transition board dsp s { (collectSchResult dsp s).1 with schTpuPhase := .retryDelay }
  | schDone (h : s.tpuLoopPhase = .sch) (hphase : s.schTpuPhase = .resultBoundary)
      (hdone : (collectSchResult dsp s).2 = true) :
      Transition board dsp s (schScanComplete (collectSchResult dsp s).1)
  | refineAgain (h : s.tpuLoopPhase = .sch) (hphase : s.schTpuPhase = .retryDelay) :
      Transition board dsp s
        { s with
          tpuLoopPhase := .fcch
          fcchScanState := .refinementCommandRequested
          fcchTpuPhase := .refinementPrepare }
  | candidate (h : s.tpuLoopPhase = .complete) (hrequest : s.schScanState = .requested) :
      Transition board dsp s (schCandidateStart board s)

/-! ## The list is complete -/

theorem isMonitor_channelScanAdvance (board : Board) (dsp : DspInput) (scan : Scan) :
    ∀ e ∈ (channelScanAdvance board dsp scan).2.2, e.IsMonitor := by
  intro e he
  unfold channelScanAdvance at he
  split at he
  · split_ifs at he
    · simp at he
    · simp only [List.mem_singleton] at he
      rw [he]
      trivial
  all_goals simp at he

/-- A frame of the scan, in `TPU_LOOP_SEARCH` or on the way there. -/
theorem transition_search (board : Board) (dsp : DspInput) (s : L1) (complete : Bool) (frame : Nat)
    (hphase : s.tpuLoopPhase.Scanning) :
    Transition board dsp s (publishNextSearchFrame board dsp
      { s with
        tpuLoopPhase := .search
        rfInitializationComplete := complete
        tpuRfTransitionFrame := frame }) := by
  let advanced := channelScanAdvance board dsp s.scan
  have hfits : ∀ scan, (⟨.search, complete, frame, scan, advanced.2.2⟩ : ScanFrame).Fits s :=
    fun scan =>
      { before := hphase
        after := (by decide : TpuLoopPhase.search.Scanning)
        search := fun _ => rfl
        events := isMonitor_channelScanAdvance board dsp s.scan }
  unfold publishNextSearchFrame
  dsimp only
  split_ifs with hnext hstart
  · exact .scan ⟨.search, complete, frame, configureMonitoringFrame board advanced.1,
      advanced.2.2⟩ (hfits _)
  · exact .searchStart ⟨.search, complete, frame, advanced.1, advanced.2.2⟩ (hfits _) hstart.2
  · exact .scan ⟨.search, complete, frame, advanced.1, advanced.2.2⟩ (hfits _)

theorem transition_finishRefinement (board : Board) (dsp : DspInput) (s : L1)
    (h : s.tpuLoopPhase = .fcch) (hphase : s.fcchTpuPhase = .refinementWaitResult)
    (hready : dsp.fcchReady = true) :
    Transition board dsp s (finishRefinement board dsp s) := by
  unfold finishRefinement collectFcchRefinementResult
  dsimp only
  cases hvalid : isFcchResultValid (readFcchResult dsp) with
  | true => exact .accepted h hphase hready hvalid
  | false =>
      rw [if_neg (by simp)]
      split_ifs with hlast
      · exact .gaveUp h hphase hready hvalid hlast
      · exact .rejected h hphase hready hvalid hlast

theorem collectFcchResult_eq (dsp : DspInput) (s : L1) :
    collectFcchResult dsp s =
      if isFcchResultValid (readFcchResult dsp) then
        { fcchFound dsp s with fcchScanState := .complete }
      else if wrap32 (s.fcchWindow + 1) ≠ fcchSearchWindowCount then fcchTaken dsp s
      else { fcchTaken dsp s with fcchScanState := .complete } := rfl

theorem transition_finishSearchWindow (board : Board) (dsp : DspInput) (s : L1)
    (h : s.tpuLoopPhase = .fcch) (hphase : s.fcchTpuPhase = .finish)
    (hready : dsp.fcchReady = true) :
    Transition board dsp s (finishSearchWindow dsp s) := by
  unfold finishSearchWindow
  rw [collectFcchResult_eq]
  cases hvalid : isFcchResultValid (readFcchResult dsp) with
  | true => exact .found h hphase hready hvalid
  | false =>
      rw [if_neg (by simp)]
      by_cases hlast : wrap32 (s.fcchWindow + 1) = fcchSearchWindowCount
      · rw [if_neg (not_not.mpr hlast)]
        exact .notFound h hphase hready hvalid (.inl hlast)
      · rw [if_pos hlast]
        dsimp only
        split
        · next hstate =>
            have hcomplete : ({ fcchTaken dsp s with tpuLoopPhase := .complete } : L1)
                = { fcchTaken dsp s with fcchScanState := .complete, tpuLoopPhase := .complete } := by
              rw [← hstate]
            rw [hcomplete]
            exact .notFound h hphase hready hvalid (.inr hstate)
        · next hstate => exact .restart h hphase hready hvalid hlast hstate
        · next hcomplete hstate =>
            exact .nextWindow h hphase hready hvalid hlast (fun hs => hstate hs)
              (fun hs => hcomplete hs)

theorem transition_publishNextFcchFrame (board : Board) (dsp : DspInput) (s : L1)
    (h : s.tpuLoopPhase = .fcch) : Transition board dsp s (publishNextFcchFrame board dsp s) := by
  have hhold : Transition board dsp s s := .hold (by rw [h]; decide)
  unfold publishNextFcchFrame
  cases hphase : s.fcchTpuPhase with
  | refinementPrepare =>
      dsimp only
      split_ifs with hcommand
      · exact hhold
      · exact .move h _ (.refinementStart hphase hcommand)
  | refinementStart => exact .move h _ (.refinementWait hphase)
  | refinementWaitResult =>
      dsimp only
      cases hready : dsp.fcchReady with
      | false => exact hhold
      | true => exact transition_finishRefinement board dsp s h hphase hready
  | rfQuietFirst =>
      dsimp only
      split_ifs with hoff
      · exact hhold
      · exact .move h _ (.quietFirst hphase (fun hs => hoff (.inl hs)) (fun hs => hoff (.inr hs)))
  | rfQuietSecond => exact .move h _ (.quietSecond hphase)
  | rfInitialization =>
      dsimp only
      split_ifs with hsch
      · exact .move h _ (.refine hphase hsch)
      · exact .move h _ (.search hphase hsch)
  | prepareFirst => exact .prepare h (.inl hphase)
  | prepareSecond =>
      dsimp only
      split_ifs with hcommand
      · exact hhold
      · exact .move h _ (.start hphase hcommand)
  | start => exact .move h _ (.holdFirst hphase)
  | holdFirst => exact .move h _ (.holdSecond hphase)
  | holdSecond => exact .move h _ (.finish hphase)
  | finish =>
      dsimp only
      cases hready : dsp.fcchReady with
      | false => exact hhold
      | true => exact transition_finishSearchWindow board dsp s h hphase hready
  | retryDelay => exact .prepare h (.inr hphase)

theorem transition_publishNextSchFrame (board : Board) (dsp : DspInput) (s : L1)
    (h : s.tpuLoopPhase = .sch) : Transition board dsp s (publishNextSchFrame dsp s) := by
  unfold publishNextSchFrame
  split
  · next hphase =>
      cases hready : dsp.schReady with
      | false => exact .hold (by rw [h]; decide)
      | true => exact .received h hphase hready
  · next hphase =>
      dsimp only
      cases hdone : (collectSchResult dsp s).2 with
      | false => exact .schRetry h hphase hdone
      | true => exact .schDone h hphase hdone
  · next hphase => exact .refineAgain h hphase

/-- In the start-up of the radio. -/
theorem transition_ready (board : Board) (dsp : DspInput) (s : L1) (complete : Bool)
    (hphase : s.tpuLoopPhase.Scanning) (hsearch : s.tpuLoopPhase ≠ .search) :
    Transition board dsp s (publishNextTpuFrame board dsp
      { s with tpuLoopPhase := .ready, rfInitializationComplete := complete }) := by
  have hfits : ∀ frame, (⟨.ready, complete, frame, s.scan, []⟩ : ScanFrame).Fits s := fun frame =>
    { before := hphase
      after := (by decide : TpuLoopPhase.ready.Scanning)
      search := fun h => absurd h hsearch
      events := by simp }
  unfold publishNextTpuFrame
  dsimp only
  split_ifs with hframe hrequest
  · exact .scan ⟨.ready, complete, s.tpuRfTransitionFrame + 1, s.scan, []⟩ (hfits _)
  · exact transition_search board dsp s complete s.tpuRfTransitionFrame hphase
  · exact .scan ⟨.ready, complete, s.tpuRfTransitionFrame, s.scan, []⟩ (hfits _)

/-- **One interrupt.** What the handler does in a frame is in the list. -/
theorem transition_irq (board : Board) (dsp : DspInput) (s : L1) :
    Transition board dsp s (gsmL1TpuIrq board dsp s) := by
  unfold gsmL1TpuIrq
  split_ifs with hinit
  · exact transition_ready board dsp s true (by rw [hinit]; decide) (by rw [hinit]; decide)
  · cases hphase : s.tpuLoopPhase with
    | rfPowerUp =>
        have hfits : (⟨.rfInitialization, s.rfInitializationComplete, s.tpuRfTransitionFrame, s.scan,
            []⟩ : ScanFrame).Fits s :=
          { before := by rw [hphase]; decide
            after := (by decide : TpuLoopPhase.rfInitialization.Scanning)
            search := fun h => by rw [hphase] at h; cases h
            events := by simp }
        simp only [publishNextTpuFrame, hphase]
        exact .scan _ hfits
    | rfInitialization => exact absurd hphase hinit
    | ready =>
        have hs : s = { s with tpuLoopPhase := .ready } := by rw [← hphase]
        have hframe := transition_ready board dsp s s.rfInitializationComplete
          (by rw [hphase]; decide) (by rw [hphase]; decide)
        rwa [← hs] at hframe
    | search =>
        have hs : s = { s with tpuLoopPhase := .search } := by rw [← hphase]
        have hframe := transition_search board dsp s s.rfInitializationComplete
          s.tpuRfTransitionFrame (by rw [hphase]; decide)
        rw [← hs] at hframe
        simpa only [publishNextTpuFrame, hphase] using hframe
    | fcch =>
        simpa only [publishNextTpuFrame, hphase] using
          transition_publishNextFcchFrame board dsp s hphase
    | sch =>
        simpa only [publishNextTpuFrame, hphase] using
          transition_publishNextSchFrame board dsp s hphase
    | complete =>
        simp only [publishNextTpuFrame, hphase]
        split_ifs with hrequest
        · exact .candidate hphase hrequest
        · exact .hold (by rw [hphase]; decide)

end Pmb887x.GsmL1
