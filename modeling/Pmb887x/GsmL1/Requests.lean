import Pmb887x.GsmL1.Alternation

set_option autoImplicit false

/-! # The requests of a sequence of searches and decodings

A call that runs out of time leaves the handler in the middle of its phases, and the next search places
its request while the handler goes on. `Undisturbed` excludes the interrupts and the states in which the
rest of an abandoned call gets into the search; in all other runs a search reports a result of its own,
and its request is taken by nobody else. -/

namespace Pmb887x.GsmL1

open Library

/-! ## Reports -/

def currentCall : List Event → Option Call
  | [] => none
  | e :: log =>
      match e with
      | .called call => some call
      | _ => currentCall log

/-- The last result of a search window that the current call has collected behind a command of its own,
    with the candidate of the window. -/
def collectedInCall : List Event → Option (FcchResult × Candidate)
  | [] => none
  | e :: log =>
      match e with
      | .called _ => none
      | .fcchCollected result candidate =>
          if inFlight log = 0 then none else some (result, candidate)
      | _ => collectedInCall log

/-- The report shows the result. -/
structure FcchReport.Shows (r : FcchReport) (result : FcchResult) : Prop where
  detected : r.detected = isFcchResultValid result
  status : r.status = result.status
  start : r.start = result.start
  quality : r.quality = result.quality
  rms : r.rms = result.rms
  frequency : r.frequency = result.frequency
  communicationFlags : r.communicationFlags = result.communicationFlags
  phaseTick : isFcchResultValid result = true →
    r.phaseTick = fcchStartToTpuPhaseTick result.start

/-- The report of a search, at the end of its log, shows a result of that search. -/
def OwnResult (log : List Event) (r : FcchReport) : Prop :=
  ∃ result candidate, currentCall log = some (.searchFcch candidate) ∧
    collectedInCall log = some (result, candidate) ∧ r.Shows result

/-- Since the last scan every search that has reported a result has reported a result of its own. -/
def ReportsOwn : List Event → Prop
  | [] => True
  | e :: log =>
      match e with
      | .returned (.candidates _) => True
      | .returned (.fcch r) => (r.attemptCount ≠ 0 → OwnResult log r) ∧ ReportsOwn log
      | _ => ReportsOwn log

/-! ## What disturbs a search -/

/-- The interrupt takes a result that shows a burst. -/
def L1.FindsBurst (s : L1) (dsp : DspInput) : Prop :=
  s.tpuLoopPhase = .fcch ∧ s.fcchTpuPhase = .finish ∧ dsp.fcchReady = true ∧
    isFcchResultValid (readFcchResult dsp) = true

instance (s : L1) (dsp : DspInput) : Decidable (s.FindsBurst dsp) :=
  inferInstanceAs (Decidable (_ ∧ _))

/-- The handler is in a phase in which it sets `fcch_scan_state`. -/
def L1.SetsScanState (s : L1) (dsp : DspInput) : Prop :=
  (s.tpuLoopPhase = .fcch ∧
    (s.fcchTpuPhase = .prepareFirst ∨ s.fcchTpuPhase = .retryDelay ∨
      (s.fcchTpuPhase = .refinementWaitResult ∧ dsp.fcchReady = true) ∨
      (s.fcchTpuPhase = .finish ∧ dsp.fcchReady = true ∧
        (isFcchResultValid (readFcchResult dsp) = true ∨
          wrap32 (s.fcchWindow + 1) = fcchSearchWindowCount)))) ∨
  (s.tpuLoopPhase = .sch ∧ s.schTpuPhase = .retryDelay) ∨
  (s.tpuLoopPhase = .complete ∧ s.schScanState = .requested)

instance (s : L1) (dsp : DspInput) : Decidable (s.SetsScanState dsp) :=
  inferInstanceAs (Decidable (_ ∨ _))

/-- What is left of an abandoned call does not disturb the search: no burst is found between the
    statement that clears `fcch_detected` and the one that sets the loop phase, the handler does not
    set `fcch_scan_state` once the request is placed, and no decoding is requested or active when
    the loop phase is set. -/
def Undisturbed (w : World) : Action → Prop
  | .irq dsp =>
      match w.task with
      | .search _ .clearWindow => ¬ w.l1.FindsBurst dsp
      | .search _ .clearAfcFrequency => ¬ w.l1.FindsBurst dsp
      | .search _ .request => ¬ w.l1.FindsBurst dsp
      | .search _ .setLoopPhase => ¬ w.l1.SetsScanState dsp
      | _ => True
  | .call (.searchFcch _) => True
  | .call (.decodeSch _ _) => True
  | .call _ => False
  | .main _ =>
      match w.task with
      | .search _ .setLoopPhase =>
          w.l1.schScanState ≠ .requested ∧ w.l1.schScanState ≠ .active
      | _ => True

/-- A scan is complete and no call is on. -/
structure AfterScan (w : World) : Prop where
  task : w.task = .idle
  phase : w.l1.tpuLoopPhase = .search
  receiver : w.l1.scan.receiverScanState = .complete
  fcch : w.l1.fcchScanState = .idle
  sch : w.l1.schScanState = .idle
  log : ∃ candidates log, w.l1.log = .returned (.candidates candidates) :: log

/-! ## Before the request -/

/-- What an interrupt does to a search that has not set the loop phase. -/
structure L1.Outside (s s' : L1) : Prop where
  call : currentCall s'.log = currentCall s.log
  reports : ReportsOwn s.log → ReportsOwn s'.log
  flight : inFlight s.log = 0 → inFlight s'.log = 0
  candidate : s'.currentCandidate = s.currentCandidate

theorem L1.Outside.refl (s : L1) : s.Outside s := ⟨rfl, id, id, rfl⟩

theorem ScanFrame.outside {f : ScanFrame} {s : L1} (hf : f.Fits s) : s.Outside (f.apply s) where
  call := eq_of_monitor (fun _ _ _ => rfl) f.events s.log hf.events
  reports := (eq_of_monitor (fun _ _ _ => rfl) f.events s.log hf.events).mpr
  flight := (sameCommands_monitor f.events s.log hf.events).inFlight.trans
  candidate := rfl

theorem outside_collectSchResult (dsp : DspInput) (s : L1) :
    s.Outside (collectSchResult dsp s).1 := by
  simp only [collectSchResult]
  split_ifs <;> exact ⟨rfl, id, id, rfl⟩

theorem outside_transition {board : Board} {dsp : DspInput} {s s' : L1}
    (h : Transition board dsp s s') : s.Outside s' := by
  cases h with
  | hold => exact .refl s
  | scan f hf => exact ScanFrame.outside hf
  | searchStart f hf =>
      have hscan := ScanFrame.outside hf
      exact ⟨hscan.call, hscan.reports, hscan.flight, hscan.candidate⟩
  | schRetry =>
      have hcollect := outside_collectSchResult dsp s
      exact ⟨hcollect.call, hcollect.reports, hcollect.flight, hcollect.candidate⟩
  | schDone =>
      have hcollect := outside_collectSchResult dsp s
      exact ⟨hcollect.call, hcollect.reports, hcollect.flight, hcollect.candidate⟩
  | found | notFound | nextWindow | restart | accepted | gaveUp | rejected =>
      exact ⟨rfl, id, fun _ => rfl, rfl⟩
  | _ => exact ⟨rfl, id, id, rfl⟩

/-- A burst is found in one kind of frame only. -/
theorem fcchDetected_transition {board : Board} {dsp : DspInput} {s s' : L1}
    (h : Transition board dsp s s') (hburst : ¬ s.FindsBurst dsp) :
    s'.fcchDetected = s.fcchDetected := by
  cases h with
  | found h hphase hready hvalid => exact absurd ⟨h, hphase, hready, hvalid⟩ hburst
  | schRetry =>
      simp only [collectSchResult]
      split_ifs <;> rfl
  | schDone =>
      simp only [collectSchResult]
      split_ifs <;> rfl
  | _ => rfl

theorem not_findsBurst_of_not_setsScanState {s : L1} {dsp : DspInput}
    (h : ¬ s.SetsScanState dsp) : ¬ s.FindsBurst dsp := fun ⟨hphase, htpu, hready, hvalid⟩ =>
  h (.inl ⟨hphase, .inr (.inr (.inr ⟨htpu, hready, .inl hvalid⟩))⟩)

/-- The request of the search, which may have been taken already. -/
def L1.Placed (s : L1) : Prop :=
  s.fcchScanState = .requested ∨
    (s.tpuLoopPhase = .fcch ∧ s.fcchTpuPhase = .rfQuietFirst ∧ s.fcchScanState = .bbOffRequested)

theorem L1.Placed.transition {board : Board} {dsp : DspInput} {s s' : L1} (hs : s.Placed)
    (h : Transition board dsp s s') (hsets : ¬ s.SetsScanState dsp) :
    s'.Placed ∧ (s'.fcchScanState = s.fcchScanState ∨
      (s.fcchScanState = .requested ∧ s'.fcchScanState = .bbOffRequested)) := by
  cases h with
  | hold => exact ⟨hs, .inl rfl⟩
  | scan f hf =>
      refine ⟨?_, .inl rfl⟩
      rcases hs with hrequest | ⟨hphase, -⟩
      · exact .inl hrequest
      · exact absurd hphase hf.before.1
  | searchStart f hf hrequest => exact ⟨.inr ⟨rfl, rfl, rfl⟩, .inr ⟨hrequest, rfl⟩⟩
  | move h phase hmove =>
      refine ⟨?_, .inl rfl⟩
      rcases hs with hrequest | ⟨-, htpu, hstate⟩
      · exact .inl hrequest
      · cases hmove with
        | quietFirst h hoff => exact absurd hstate hoff
        | _ => simp_all
  | prepare h hphase =>
      exact absurd (.inl ⟨h, hphase.imp_right .inl⟩) hsets
  | found h hphase hready hvalid =>
      exact absurd (.inl ⟨h, .inr (.inr (.inr ⟨hphase, hready, .inl hvalid⟩))⟩) hsets
  | notFound h hphase hready hvalid hlast =>
      rcases hlast with hlast | hcomplete
      · exact absurd (.inl ⟨h, .inr (.inr (.inr ⟨hphase, hready, .inr hlast⟩))⟩) hsets
      · rcases hs with hrequest | ⟨-, -, hstate⟩
        · cases hrequest.symm.trans hcomplete
        · cases hstate.symm.trans hcomplete
  | nextWindow h hphase hready hvalid hmore hstate =>
      refine ⟨.inl ?_, .inl rfl⟩
      rcases hs with hrequest | ⟨-, htpu, -⟩
      · exact hrequest
      · cases htpu.symm.trans hphase
  | restart h hphase hready hvalid hmore hstate =>
      rcases hs with hrequest | ⟨-, htpu, -⟩
      · cases hrequest.symm.trans hstate
      · cases htpu.symm.trans hphase
  | accepted h hphase hready | gaveUp h hphase hready | rejected h hphase hready =>
      exact absurd (.inl ⟨h, .inr (.inr (.inl ⟨hphase, hready⟩))⟩) hsets
  | received h =>
      refine ⟨.inl ?_, .inl rfl⟩
      rcases hs with hrequest | ⟨hphase, -⟩
      · exact hrequest
      · cases hphase.symm.trans h
  | schRetry h =>
      obtain ⟨hstate, -⟩ := collectSchResult_handshake dsp s
      refine ⟨.inl (hstate.trans ?_), .inl hstate⟩
      rcases hs with hrequest | ⟨hphase, -⟩
      · exact hrequest
      · cases hphase.symm.trans h
  | schDone h =>
      obtain ⟨hstate, -⟩ := collectSchResult_handshake dsp s
      refine ⟨.inl (hstate.trans ?_), .inl hstate⟩
      rcases hs with hrequest | ⟨hphase, -⟩
      · exact hrequest
      · cases hphase.symm.trans h
  | refineAgain h hphase => exact absurd (.inr (.inl ⟨h, hphase⟩)) hsets
  | candidate h hrequest => exact absurd (.inr (.inr ⟨h, hrequest⟩)) hsets

/-! ## The search -/

/-- A step from one state of a request to the next. -/
def RequestKept (state state' : FcchScanState) : Prop :=
  state' = state ∨ (state = .requested ∧ state' = .bbOffRequested) ∨
    (state = .active ∧ (state' = .commandRequested ∨ state' = .complete))

/-- What the search has found is the last result it has collected. -/
structure L1.Found (s : L1) (c : Candidate) : Prop where
  collected : collectedInCall s.log = some (s.fcchResult, c)
  detected : s.fcchDetected = isFcchResultValid s.fcchResult
  tick : isFcchResultValid s.fcchResult = true →
    s.fcchCorrectionTick = fcchStartToTpuPhaseTick s.fcchResult.start

/-- The request of the call and what has become of it, once the loop phase is set. -/
structure L1.Own (s : L1) (c : Candidate) : Prop where
  call : currentCall s.log = some (.searchFcch c)
  candidate : s.currentCandidate = c
  requested : s.schScanState ≠ .requested
  active : s.schScanState ≠ .active
  state : (s.tpuLoopPhase = .search ∧ s.fcchDetected = false ∧
      (s.fcchScanState = .requested ∨ s.fcchScanState = .bbOffRequested ∨
        s.fcchScanState = .active)) ∨
    (s.tpuLoopPhase = .fcch ∧ s.fcchDetected = false) ∨
    (s.tpuLoopPhase = .complete ∧ s.fcchScanState = .complete ∧ s.Found c)

/-- The handler sets `fcch_scan_state` and collects results only behind the commands of a search. -/
structure L1.FramesFit (s : L1) : Prop where
  finish : s.fcchTpuPhase = .finish → s.fcchScanState = .active ∧ inFlight s.log ≠ 0
  prepare : s.fcchTpuPhase = .prepareFirst ∨ s.fcchTpuPhase = .retryDelay →
    s.fcchScanState = .active
  refine : s.fcchTpuPhase ≠ .refinementWaitResult

theorem L1.Shape.framesFit {s : L1} (hs : s.Shape) (h : s.tpuLoopPhase = .fcch)
    (hsch : s.schScanState ≠ .active) : s.FramesFit := by
  obtain ⟨hsearching, -⟩ := (hs.fcch h).resolve_right fun hrefining => hsch hrefining.2
  cases hsearching with
  | off htpu => constructor <;> simp_all
  | before htpu hstate =>
      refine ⟨fun hphase => ?_, fun _ => hstate, fun hphase => ?_⟩
      · rw [hphase] at htpu; exact htpu.elim
      · rw [hphase] at htpu; exact htpu.elim
  | command htpu => constructor <;> simp_all
  | after htpu hstate harmed hflight =>
      refine ⟨fun _ => ⟨hstate, by simp [hflight]⟩, fun _ => hstate, fun hphase => ?_⟩
      rw [hphase] at htpu; exact htpu.elim

theorem L1.Held.framesFit {s : L1} {state : FcchScanState} (hs : s.Held state)
    (hcommanded : state.Commanded) (h : s.tpuLoopPhase = .fcch)
    (hsch : s.schScanState ≠ .active) : s.FramesFit := by
  have hwaits := hs.waits h
  cases state with
  | bbOffRequested | commandRequested =>
      obtain ⟨htpu, -⟩ := hwaits
      constructor <;> simp_all
  | refinementBbOffRequested | refinementCommandRequested => exact absurd hwaits.2 hsch
  | _ => exact hcommanded.elim

theorem ExecutePc.Holds.framesFit {s : L1} {pc : ExecutePc} (hs : pc.Holds s)
    (h : s.tpuLoopPhase = .fcch) (hsch : s.schScanState ≠ .active) : s.FramesFit := by
  cases pc with
  | switch => exact L1.Shape.framesFit hs h hsch
  | basebandOff refinement => exact hs.1.framesFit (commanded_offRequest refinement) h hsch
  | awaitBasebandOff refinement => exact hs.1.framesFit (commanded_offRequest refinement) h hsch
  | fcInit refinement =>
      obtain ⟨state, hmem, hheld, -⟩ := hs
      exact hheld.framesFit (commanded_initRequests hmem) h hsch
  | lower refinement =>
      rcases hs with ⟨-, hheld, -⟩ | ⟨state, hmem, hheld, -⟩
      · exact hheld.framesFit trivial h hsch
      · exact hheld.framesFit (commanded_initRequests hmem) h hsch

/-- The interrupt goes on with the request of the call. -/
theorem L1.Own.transition {board : Board} {dsp : DspInput} {s s' : L1} {c : Candidate}
    (hs : s.Own c) (h : Transition board dsp s s')
    (hfit : s.tpuLoopPhase = .fcch → s.FramesFit) :
    s'.Own c ∧ RequestKept s.fcchScanState s'.fcchScanState := by
  have houtside := outside_transition h
  have hcall := houtside.call.trans hs.call
  have hcandidate := houtside.candidate.trans hs.candidate
  -- The handler is not in `TPU_LOOP_SCH`, and it does not leave `TPU_LOOP_COMPLETE`.
  have hundetected : s.tpuLoopPhase = .fcch → s.fcchDetected = false := by
    intro h
    rcases hs.state with ⟨hphase, -⟩ | ⟨-, hdetected⟩ | ⟨hphase, -⟩
    · cases hphase.symm.trans h
    · exact hdetected
    · cases hphase.symm.trans h
  have hnosch : s.tpuLoopPhase ≠ .sch := by
    intro h
    rcases hs.state with ⟨hphase, -⟩ | ⟨hphase, -⟩ | ⟨hphase, -⟩ <;> cases hphase.symm.trans h
  have hcollected : s.fcchTpuPhase = .finish → s.tpuLoopPhase = .fcch →
      collectedInCall (fcchTaken dsp s).log = some (readFcchResult dsp, c) := by
    intro hphase h
    simp [fcchTaken, L1.event, collectedInCall, ((hfit h).finish hphase).2, hs.candidate]
  cases h with
  | hold => exact ⟨hs, .inl rfl⟩
  | scan f hf =>
      rcases hs.state with ⟨hphase, hstate⟩ | ⟨hphase, -⟩ | ⟨hphase, -⟩
      · exact ⟨⟨hcall, hcandidate, hs.requested, hs.active, .inl ⟨hf.search hphase, hstate⟩⟩,
          .inl rfl⟩
      · exact absurd hphase hf.before.1
      · exact absurd hphase hf.before.2.2
  | searchStart f hf hrequest =>
      rcases hs.state with ⟨-, hdetected, -⟩ | ⟨hphase, -⟩ | ⟨hphase, -⟩
      · exact ⟨⟨hcall, hcandidate, hs.requested, hs.active, .inr (.inl ⟨rfl, hdetected⟩)⟩,
          .inr (.inl ⟨hrequest, rfl⟩)⟩
      · exact absurd hphase hf.before.1
      · exact absurd hphase hf.before.2.2
  | move h phase hmove =>
      exact ⟨⟨hcall, hcandidate, hs.requested, hs.active, .inr (.inl ⟨h, hundetected h⟩)⟩, .inl rfl⟩
  | prepare h hphase =>
      exact ⟨⟨hcall, hcandidate, hs.requested, hs.active, .inr (.inl ⟨h, hundetected h⟩)⟩,
        .inr (.inr ⟨(hfit h).prepare hphase, .inl rfl⟩)⟩
  | found h hphase hready hvalid =>
      exact ⟨⟨hcall, hcandidate, hs.requested, hs.active,
        .inr (.inr ⟨rfl, rfl, hcollected hphase h, hvalid.symm, fun _ => rfl⟩)⟩,
        .inr (.inr ⟨((hfit h).finish hphase).1, .inr rfl⟩)⟩
  | notFound h hphase hready hvalid =>
      exact ⟨⟨hcall, hcandidate, hs.requested, hs.active,
        .inr (.inr ⟨rfl, rfl, hcollected hphase h, (hundetected h).trans hvalid.symm,
          fun hfound => by cases hvalid.symm.trans hfound⟩)⟩,
        .inr (.inr ⟨((hfit h).finish hphase).1, .inr rfl⟩)⟩
  | nextWindow h hphase =>
      exact ⟨⟨hcall, hcandidate, hs.requested, hs.active, .inr (.inl ⟨h, hundetected h⟩)⟩, .inl rfl⟩
  | restart h hphase =>
      exact ⟨⟨hcall, hcandidate, hs.requested, hs.active, .inr (.inl ⟨h, hundetected h⟩)⟩, .inl rfl⟩
  | accepted h hphase | gaveUp h hphase | rejected h hphase =>
      exact absurd hphase (hfit h).refine
  | received h | schRetry h | schDone h | refineAgain h => exact absurd h hnosch
  | candidate h hrequest => exact absurd hrequest hs.requested

/-- A complete search has found its result, and the handler rests. -/
structure L1.Done (s : L1) (c : Candidate) : Prop where
  call : currentCall s.log = some (.searchFcch c)
  requested : s.schScanState ≠ .requested
  phase : s.tpuLoopPhase = .complete
  found : s.Found c

theorem L1.Own.done {s : L1} {c : Candidate} (hs : s.Own c) (hshape : s.Shape)
    (hstate : s.fcchScanState = .complete) : s.Done c := by
  rcases hs.state with ⟨-, -, hrest⟩ | ⟨hphase, -⟩ | ⟨hphase, -, hfound⟩
  · rw [hstate] at hrest
    simp at hrest
  · obtain ⟨hsearching, -⟩ := (hshape.fcch hphase).resolve_right fun h => hs.active h.2
    cases hsearching <;> simp_all
  · exact ⟨hs.call, hs.requested, hphase, hfound⟩

theorem L1.Done.transition {board : Board} {dsp : DspInput} {s s' : L1} {c : Candidate}
    (hs : s.Done c) (h : Transition board dsp s s') : s' = s := by
  have hphase := hs.phase
  cases h with
  | hold => rfl
  | scan f hf => exact absurd hphase hf.before.2.2
  | searchStart f hf => exact absurd hphase hf.before.2.2
  | candidate h hrequest => exact absurd hrequest hs.requested
  | move h | prepare h | found h | notFound h | nextWindow h | restart h | accepted h | gaveUp h
  | rejected h | received h | schRetry h | schDone h | refineAgain h => cases hphase.symm.trans h

/-- A statement of the execution leaves the request to the call. -/
theorem L1.Own.main {s : L1} {c : Candidate} {pc : ExecutePc} (hs : s.Own c) (hpc : pc.Holds s)
    (ok : Bool) : (executeRequestedFcchCommand ok s pc).1.Own c := by
  -- The state that is lowered is a request of a search, in `TPU_LOOP_SEARCH` or `TPU_LOOP_FCCH`.
  have hlower : ∀ state : FcchScanState, state.Commanded → s.Held state →
      (s.tpuLoopPhase = .search ∧ s.fcchDetected = false) ∨
        (s.tpuLoopPhase = .fcch ∧ s.fcchDetected = false) := by
    intro state hcommanded hheld
    rcases hs.state with ⟨hphase, hdetected, -⟩ | ⟨hphase, hdetected⟩ | ⟨-, hstate, -⟩
    · exact .inl ⟨hphase, hdetected⟩
    · exact .inr ⟨hphase, hdetected⟩
    · rw [← hheld.stays, hstate] at hcommanded
      exact hcommanded.elim
  have hrefine : ∀ state ∈ initRequests true, ¬ s.Held state := by
    intro state hmem hheld
    have hstate : state = .refinementBbOffRequested ∨ state = .refinementCommandRequested := by
      simpa [initRequests] using hmem
    have hstays := hheld.stays
    rcases hs.state with ⟨-, -, hrest⟩ | ⟨hphase, -⟩ | ⟨-, hcomplete, -⟩
    · rcases hstate with rfl | rfl <;> simp [hstays] at hrest
    · have hwaits := hheld.waits hphase
      rcases hstate with rfl | rfl
      · exact hs.active hwaits.2
      · exact hs.active hwaits.2
    · rcases hstate with rfl | rfl <;> simp [hstays] at hcomplete
  cases pc with
  | switch => exact hs
  | basebandOff refinement => exact ⟨hs.call, hs.candidate, hs.requested, hs.active,
      hs.state.imp_right (.imp_right (And.imp_right (And.imp_right fun hfound =>
        ⟨hfound.collected, hfound.detected, hfound.tick⟩)))⟩
  | awaitBasebandOff refinement => exact hs
  | fcInit refinement => exact ⟨hs.call, hs.candidate, hs.requested, hs.active,
      hs.state.imp_right (.imp_right (And.imp_right (And.imp_right fun hfound =>
        ⟨hfound.collected, hfound.detected, hfound.tick⟩)))⟩
  | lower refinement =>
      have hactive : refinement = false ∧ ∃ state : FcchScanState, state.Commanded ∧ s.Held state := by
        rcases hpc with ⟨hsearch, hheld, -⟩ | ⟨state, hmem, hheld, -⟩
        · exact ⟨hsearch, .bbOffRequested, trivial, hheld⟩
        · cases refinement with
          | false => exact ⟨rfl, state, commanded_initRequests hmem, hheld⟩
          | true => exact absurd hheld (hrefine state hmem)
      obtain ⟨rfl, state, hcommanded, hheld⟩ := hactive
      refine ⟨hs.call, hs.candidate, hs.requested, hs.active, ?_⟩
      rcases hlower state hcommanded hheld with ⟨hphase, hdetected⟩ | ⟨hphase, hdetected⟩
      · exact .inl ⟨hphase, hdetected, .inr (.inr rfl)⟩
      · exact .inr (.inl ⟨hphase, hdetected⟩)

/-! ## Runs -/

/-- A search that has not set the loop phase. -/
structure L1.Began (s : L1) (c : Candidate) : Prop where
  call : currentCall s.log = some (.searchFcch c)
  flight : inFlight s.log = 0

theorem L1.Began.transition {board : Board} {dsp : DspInput} {s s' : L1} {c : Candidate}
    (hs : s.Began c) (h : Transition board dsp s s') : s'.Began c := by
  have houtside := outside_transition h
  exact ⟨houtside.call.trans hs.call, houtside.flight hs.flight⟩

/-- What holds at each statement of a search. -/
def SearchPc.Own (s : L1) (r : FcchReport) (c : Candidate) : SearchPc → Prop
  | .setCandidate => s.Began c
  | .clearDetected => s.Began c ∧ s.currentCandidate = c
  | .clearWindow => s.Began c ∧ s.currentCandidate = c ∧ s.fcchDetected = false
  | .clearAfcFrequency => s.Began c ∧ s.currentCandidate = c ∧ s.fcchDetected = false
  | .request => s.Began c ∧ s.currentCandidate = c ∧ s.fcchDetected = false
  | .setLoopPhase => s.Began c ∧ s.currentCandidate = c ∧ s.fcchDetected = false ∧ s.Placed
  | .setFrequency => s.Own c ∧ s.Shape
  | .loop => s.Own c ∧ s.Shape
  | .execute pc => s.Own c ∧ pc.Holds s
  | .testComplete => s.Own c ∧ s.Shape
  | .reportDetected => s.Done c
  | .reportAttemptCount => s.Done c ∧ r.detected = s.fcchDetected
  | .testWindow => s.Done c ∧ r.detected = s.fcchDetected ∧ r.attemptCount = s.fcchWindow
  | .reportResult fields => s.Done c ∧ (fields.foldl (reportField s) r).Shows s.fcchResult

def Task.Own (s : L1) (r : FcchReport) : Task → Prop
  | .idle => True
  | .search c pc => pc.Own s r c
  | .decode _ _ _ => True
  | _ => False

structure World.Own (w : World) : Prop where
  reports : ReportsOwn w.l1.log
  task : w.task.Own w.l1 w.fcchReport

theorem World.Own.returns {w : World} (hreports : ReportsOwn w.l1.log) :
    (w.returns .failed).Own := ⟨hreports, trivial⟩

theorem reportsOwn_execute {s : L1} (hreports : ReportsOwn s.log) (ok : Bool) (pc : ExecutePc) :
    ReportsOwn (executeRequestedFcchCommand ok s pc).1.log := by
  cases pc <;> exact hreports

/-- The report of a complete search. -/
theorem L1.Done.returns {w : World} {c : Candidate} (hs : w.l1.Done c)
    (hreports : ReportsOwn w.l1.log)
    (hshows : w.fcchReport.attemptCount ≠ 0 → w.fcchReport.Shows w.l1.fcchResult) :
    (w.returns (.fcch w.fcchReport)).Own :=
  ⟨⟨fun hcount => ⟨w.l1.fcchResult, c, hs.call, hs.found.collected, hshows hcount⟩, hreports⟩,
    trivial⟩

/-- The next statement of a search. -/
theorem own_searchFcch (board : Board) (ok : Bool) (c : Candidate) {w : World} {pc : SearchPc}
    (hreports : ReportsOwn w.l1.log) (hpc : pc.Own w.l1 w.fcchReport c)
    (hundisturbed : pc = .setLoopPhase →
      w.l1.schScanState ≠ .requested ∧ w.l1.schScanState ≠ .active) :
    (searchFcchStep board ok c w pc).Own := by
  cases pc with
  | setCandidate => exact ⟨hreports, ⟨hpc.call, hpc.flight⟩, rfl⟩
  | clearDetected => exact ⟨hreports, ⟨hpc.1.call, hpc.1.flight⟩, hpc.2, rfl⟩
  | clearWindow | clearAfcFrequency =>
      exact ⟨hreports, ⟨hpc.1.call, hpc.1.flight⟩, hpc.2.1, hpc.2.2⟩
  | request => exact ⟨hreports, ⟨hpc.1.call, hpc.1.flight⟩, hpc.2.1, hpc.2.2, .inl rfl⟩
  | setLoopPhase =>
      obtain ⟨hbegan, hcandidate, hdetected, hplaced⟩ := hpc
      obtain ⟨hrequested, hactive⟩ := hundisturbed rfl
      refine ⟨hreports, ⟨hbegan.call, hcandidate, hrequested, hactive, .inl ⟨rfl, hdetected, ?_⟩⟩,
        ⟨fun _ => hbegan.flight, fun _ => ⟨hbegan.flight, hactive⟩⟩⟩
      rcases hplaced with hrequest | ⟨-, -, hstate⟩
      · exact .inl hrequest
      · exact .inr (.inl hstate)
  | setFrequency =>
      obtain ⟨hown, hshape⟩ := hpc
      have hfrequency : (gsmBoardSetFrequencyCorrectionHz board c.afcFrequencyHz w.l1).Own c :=
        ⟨hown.call, hown.candidate, hown.requested, hown.active,
          hown.state.imp_right (.imp_right (And.imp_right (And.imp_right fun hfound =>
            ⟨hfound.collected, hfound.detected, hfound.tick⟩)))⟩
      exact ⟨hreports, hfrequency, hshape.same (.frequency board _ _)⟩
  | execute pc =>
      obtain ⟨hown, hholds⟩ := hpc
      have hmain := hholds.main ok
      have hnext := hown.main hholds ok
      have hlog := reportsOwn_execute hreports ok pc
      simp only [searchFcchStep]
      split
      · next hrunning => rw [hrunning] at hmain; exact ⟨hlog, hnext, hmain⟩
      · next hdone => rw [hdone] at hmain; exact ⟨hlog, hnext, hmain⟩
      · exact .returns hlog
  | loop =>
      simp only [searchFcchStep]
      split_ifs
      · exact ⟨hreports, hpc⟩
      · exact ⟨hreports, hpc⟩
  | testComplete =>
      simp only [searchFcchStep]
      split_ifs with hstate
      · exact .returns hreports
      · exact ⟨hreports, hpc.1.done hpc.2 (not_not.mp hstate)⟩
  | reportDetected => exact ⟨hreports, hpc, rfl⟩
  | reportAttemptCount => exact ⟨hreports, hpc.1, hpc.2, rfl⟩
  | testWindow =>
      obtain ⟨hdone, hdetected, hcount⟩ := hpc
      simp only [searchFcchStep]
      split_ifs with hwindow
      · exact hdone.returns hreports fun hattempts => absurd (hcount.trans hwindow) hattempts
      · refine ⟨hreports, hdone, ?_⟩
        have hfound := hdone.found
        exact ⟨hdetected.trans hfound.detected, rfl, rfl, rfl, rfl, rfl, rfl, hfound.tick⟩
  | reportResult fields =>
      cases fields with
      | nil => exact hpc.1.returns hreports fun _ => hpc.2
      | cons field rest => exact ⟨hreports, hpc⟩

theorem reportsOwn_decodeSch (ok : Bool) (c : Candidate) (fcch : FcchReport) {w : World}
    (hreports : ReportsOwn w.l1.log) (pc : DecodePc) :
    ReportsOwn (decodeSchStep ok c fcch w pc).l1.log := by
  cases pc with
  | execute pc =>
      have hlog := reportsOwn_execute hreports ok pc
      simp only [decodeSchStep]
      split <;> exact hlog
  | loop | testComplete =>
      simp only [decodeSchStep]
      split_ifs <;> exact hreports
  | _ => exact hreports

theorem own_decodeSch (ok : Bool) (c : Candidate) (fcch : FcchReport) {w : World}
    (hreports : ReportsOwn w.l1.log) (pc : DecodePc) : (decodeSchStep ok c fcch w pc).Own := by
  have htask : (decodeSchStep ok c fcch w pc).task = .idle ∨
      ∃ pc', (decodeSchStep ok c fcch w pc).task = .decode c fcch pc' := by
    cases pc with
    | execute pc =>
        simp only [decodeSchStep]
        split <;> simp [World.returns]
    | loop | testComplete =>
        simp only [decodeSchStep]
        split_ifs <;> simp [World.returns]
    | _ => simp [decodeSchStep, World.returns]
  refine ⟨reportsOwn_decodeSch ok c fcch hreports pc, ?_⟩
  rcases htask with htask | ⟨pc', htask⟩ <;> rw [htask] <;> trivial

/-- An interrupt that does not disturb keeps what holds, and it takes the request only for the call. -/
theorem SearchPc.Own.transition {board : Board} {dsp : DspInput} {w : World} {s' : L1}
    {c : Candidate} {pc : SearchPc} (hpc : pc.Own w.l1 w.fcchReport c)
    (htask : w.task = .search c pc) (hallowed : Undisturbed w (.irq dsp))
    (h : Transition board dsp w.l1 s') : pc.Own s' w.fcchReport c := by
  have houtside := outside_transition h
  simp only [Undisturbed, htask] at hallowed
  have hdone : ∀ hs : w.l1.Done c, s' = w.l1 := fun hs => hs.transition h
  cases pc with
  | setCandidate => exact L1.Began.transition hpc h
  | clearDetected => exact ⟨hpc.1.transition h, houtside.candidate.trans hpc.2⟩
  | clearWindow | clearAfcFrequency | request =>
      exact ⟨hpc.1.transition h, houtside.candidate.trans hpc.2.1,
        (fcchDetected_transition h hallowed).trans hpc.2.2⟩
  | setLoopPhase =>
      obtain ⟨hbegan, hcandidate, hdetected, hplaced⟩ := hpc
      have hburst := not_findsBurst_of_not_setsScanState hallowed
      exact ⟨hbegan.transition h, houtside.candidate.trans hcandidate,
        (fcchDetected_transition h hburst).trans hdetected, (hplaced.transition h hallowed).1⟩
  | setFrequency | loop | testComplete =>
      obtain ⟨hown, hshape⟩ := hpc
      exact ⟨(hown.transition h fun hfcch => hshape.framesFit hfcch hown.active).1,
        hshape.transition h⟩
  | execute pc =>
      obtain ⟨hown, hholds⟩ := hpc
      exact ⟨(hown.transition h fun hfcch => hholds.framesFit hfcch hown.active).1,
        hholds.transition h⟩
  | reportDetected => rw [hdone hpc]; exact hpc
  | reportAttemptCount | testWindow | reportResult => rw [hdone hpc.1]; exact hpc

theorem own_step (board : Board) (w : World) (a : Action) (w' : World) (hw : w.Own)
    (ha : Undisturbed w a) (hstep : step board a w = some w') : w'.Own := by
  obtain ⟨hreports, htask⟩ := hw
  cases a with
  | irq dsp =>
      simp only [step] at hstep
      split_ifs at hstep
      cases hstep
      have h := transition_irq board dsp w.l1
      refine ⟨(outside_transition h).reports hreports, ?_⟩
      cases hpc : w.task with
      | idle => trivial
      | decode c fcch pc => trivial
      | search c pc =>
          rw [hpc] at htask
          exact SearchPc.Own.transition (w := w) htask hpc ha h
      | _ => rw [hpc] at htask; exact htask.elim
  | call call =>
      simp only [step] at hstep
      split_ifs at hstep
      cases hstep
      cases call with
      | trxInit => exact ha.elim
      | scanChannels capacity => exact ha.elim
      | searchFcch c =>
          simp only [startCall]
          split_ifs
          · exact .returns hreports
          · exact ⟨hreports, ⟨rfl, rfl⟩⟩
      | decodeSch c fcch =>
          simp only [startCall]
          split_ifs
          · exact .returns hreports
          · exact ⟨hreports, trivial⟩
  | main ok =>
      simp only [step, mainStep] at hstep
      cases hpc : w.task with
      | idle => rw [hpc] at hstep; cases hstep
      | search c pc =>
          rw [hpc] at hstep htask
          refine Option.some.inj hstep ▸ own_searchFcch board ok c hreports htask ?_
          rintro rfl
          simpa only [Undisturbed, hpc] using ha
      | decode c fcch pc =>
          rw [hpc] at hstep
          exact Option.some.inj hstep ▸ own_decodeSch ok c fcch hreports pc
      | _ => rw [hpc] at htask; exact htask.elim

/-- The statements of a search behind the one that places its request. -/
def SearchPc.Requested : SearchPc → Prop
  | .setCandidate => False
  | .clearDetected => False
  | .clearWindow => False
  | .clearAfcFrequency => False
  | .request => False
  | _ => True

/-- The request of the call stays with the call. -/
theorem SearchPc.Own.requestKept {board : Board} {dsp : DspInput} {w : World} {s' : L1}
    {c : Candidate} {pc : SearchPc} (hpc : pc.Own w.l1 w.fcchReport c)
    (htask : w.task = .search c pc) (hplaced : pc.Requested)
    (hallowed : Undisturbed w (.irq dsp)) (h : Transition board dsp w.l1 s') :
    RequestKept w.l1.fcchScanState s'.fcchScanState := by
  simp only [Undisturbed, htask] at hallowed
  have hdone : ∀ hs : w.l1.Done c, s' = w.l1 := fun hs => hs.transition h
  cases pc with
  | setLoopPhase =>
      obtain ⟨-, -, -, hs⟩ := hpc
      exact (hs.transition h hallowed).2.imp_right .inl
  | setFrequency | loop | testComplete =>
      obtain ⟨hown, hshape⟩ := hpc
      exact (hown.transition h fun hfcch => hshape.framesFit hfcch hown.active).2
  | execute pc =>
      obtain ⟨hown, hholds⟩ := hpc
      exact (hown.transition h fun hfcch => hholds.framesFit hfcch hown.active).2
  | reportDetected => exact .inl (by rw [hdone hpc])
  | reportAttemptCount | testWindow | reportResult => exact .inl (by rw [hdone hpc.1])
  | _ => exact hplaced.elim

/-- **Searches report their own results.** In every run of searches and decodings behind a scan, finished
    or abandoned, that nothing left of an abandoned call disturbs, each search that has reported a result
    has collected it behind a command of its own and for its candidate, and once its request is placed,
    interrupts change it only as the search goes on. -/
theorem searches_report_own (board : Board) {w₀ w : World} (hstart : AfterScan w₀)
    (h : Reachable (step board) Undisturbed w₀ w) :
    ReportsOwn w.l1.log ∧
      ∀ dsp w' c pc, w.task = .search c pc → pc.Requested → Undisturbed w (.irq dsp) →
        step board (.irq dsp) w = some w' →
          RequestKept w.l1.fcchScanState w'.l1.fcchScanState := by
  have hw : w.Own := by
    refine h.invariant ?_ fun w a w' hw ha hstep => own_step board w a w' hw ha hstep
    obtain ⟨candidates, log, hlog⟩ := hstart.log
    refine ⟨?_, ?_⟩
    · rw [hlog]; trivial
    · rw [hstart.task]; trivial
  refine ⟨hw.reports, ?_⟩
  intro dsp w' c pc htask hplaced hallowed hstep
  simp only [step] at hstep
  split_ifs at hstep
  cases hstep
  have hpc := hw.task
  rw [htask] at hpc
  exact SearchPc.Own.requestKept hpc htask hplaced hallowed (transition_irq board dsp w.l1)

/-! ### Two runs -/

instance (w : World) (a : Action) : Decidable (Undisturbed w a) := by
  unfold Undisturbed
  split
  · split <;> infer_instance
  · exact .isTrue trivial
  · exact .isTrue trivial
  · exact .isFalse id
  · split <;> infer_instance

/-- Only searches and decodings are called. -/
def SearchesAndDecodings (_ : World) : Action → Prop
  | .call .trxInit => False
  | .call (.scanChannels _) => False
  | _ => True

instance (w : World) (a : Action) : Decidable (SearchesAndDecodings w a) := by
  unfold SearchesAndDecodings
  split <;> infer_instance

theorem afterScan_scannedWorld : AfterScan scannedWorld where
  task := rfl
  phase := rfl
  receiver := rfl
  fcch := rfl
  sch := rfl
  log := ⟨_, _, rfl⟩

/-- The theorem in a search that finds a burst and follows one that was abandoned behind its request, with
    interrupts during the first one and between the two. -/
theorem searches_report_own_second :
    ∃ w : World, w.l1.log.head? = some (.returned (.fcch plainReport)) ∧ ReportsOwn w.l1.log := by
  have hrun : ∃ w, Reachable (step plainBoard) Undisturbed scannedWorld w ∧
      w.l1.log.head? = some (.returned (.fcch plainReport)) :=
    exists_reachable_of_run
      (.call (.searchFcch plainCandidate) :: statements 7 ++ frames 1 ++ statements 5 ++ frames 4
        ++ .main false :: statements 1 ++ frames 2
        ++ .call (.searchFcch plainCandidate) :: searchRun 2 ++ statements 14) (by decide +kernel)
  obtain ⟨w, h, hlast⟩ := hrun
  exact ⟨w, hlast, (searches_report_own plainBoard afterScan_scannedWorld h).1⟩

/-- A search is abandoned while its result is awaited. The next one has placed its request and not set
    the loop phase when the result comes: it reports the burst, and has not sent a command. -/
theorem search_reports_abandoned :
    AfterScan scannedWorld ∧
      ∃ w, Reachable (step plainBoard) SearchesAndDecodings scannedWorld w ∧
        w.l1.log.head? = some (.returned (.fcch plainReport)) ∧ ¬ ReportsOwn w.l1.log := by
  have hrun : ∃ w, Reachable (step plainBoard) SearchesAndDecodings scannedWorld w ∧
      w.l1.log.head? = some (.returned (.fcch plainReport)) ∧
        collectedInCall w.l1.log.tail = none :=
    exists_reachable_of_run
      (.call (.searchFcch plainCandidate) :: statements 7 ++ frames 1 ++ statements 5 ++ frames 4
        ++ statements 4 ++ frames 4 ++ .main false :: statements 1
        ++ .call (.searchFcch plainCandidate) :: statements 5 ++ [frameWith 2 1] ++ statements 16)
      (by decide +kernel)
  obtain ⟨w, h, hlast, hcollected⟩ := hrun
  refine ⟨afterScan_scannedWorld, w, h, hlast, fun hreports => ?_⟩
  cases hlog : w.l1.log with
  | nil => rw [hlog] at hlast; cases hlast
  | cons e log =>
      rw [hlog] at hlast hreports hcollected
      obtain rfl : e = .returned (.fcch plainReport) := Option.some.inj hlast
      obtain ⟨result, candidate, -, hown, -⟩ := hreports.1 (by decide)
      cases hcollected.symm.trans hown

end Pmb887x.GsmL1
