import Pmb887x.GsmL1.Attempts

set_option autoImplicit false

/-! # The values of `TPU_CORRECTION`

The counter of a frame is corrected by writing its position to `TPU_CORRECTION`: the phase tick of the
burst, less one. A phase tick is computed from the 16-bit start word of a result and kept in
`fcch_correction_tick` or in a report. All of them lie in the frame, so the only value that does not is
that of the phase tick 0. -/

namespace Pmb887x.GsmL1

open Library

/-- `TPU_OVERFLOW` -/
def tpuOverflow : Nat := tpuFrameTicks - 1

/-- The bit `CTRL` of `TPU_CORRECTION`, over its 15 bits of `VALUE`. -/
def tpuCorrectionCtrl : Nat := 15

/-- A tick that `fcch_start_to_tpu_phase_tick` can return. -/
def IsPhaseTick (tick : Nat) : Prop := tick < tpuFrameTicks ∧ tick % tpuTicksPerGsmBit = 0

instance (tick : Nat) : Decidable (IsPhaseTick tick) := inferInstanceAs (Decidable (_ ∧ _))

/-- The start words, modulo a frame, whose phase tick is 0. -/
def zeroTickStart : Nat := 9

theorem isPhaseTick_fcchStart (start : UInt16) : IsPhaseTick (fcchStartToTpuPhaseTick start) := by
  unfold IsPhaseTick fcchStartToTpuPhaseTick gsmBitsPerFrame tpuTicksPerGsmBit fcchPhaseAdvanceTicks
    tpuFrameTicks
  dsimp only
  split_ifs <;> omega

theorem fcchStartToTpuPhaseTick_eq_zero (start : UInt16) :
    fcchStartToTpuPhaseTick start = 0 ↔ start.toNat % gsmBitsPerFrame = zeroTickStart := by
  unfold fcchStartToTpuPhaseTick gsmBitsPerFrame tpuTicksPerGsmBit fcchPhaseAdvanceTicks
    tpuFrameTicks zeroTickStart
  dsimp only
  split_ifs <;> omega

/-- The value is a position of the counter. -/
structure IsPosition (value : Nat) : Prop where
  frame : value < tpuFrameTicks
  overflow : value ≤ tpuOverflow
  ctrl : value.testBit tpuCorrectionCtrl = false

theorem isPosition_of_lt {value : Nat} (h : value < tpuFrameTicks) : IsPosition value where
  frame := h
  overflow := Nat.le_pred_of_lt h
  ctrl := Nat.testBit_lt_two_pow (h.trans (by decide))

theorem isPosition_correction {tick : Nat} (h : IsPhaseTick tick) (hpos : tick ≠ 0) :
    IsPosition (sub32 tick 1) := by
  refine isPosition_of_lt ?_
  have hlt := h.1
  unfold tpuFrameTicks at hlt ⊢
  unfold sub32
  omega

/-- Behind a result that is accepted, or before a candidate that is started, the phase tick is not 0. A
    decoding is called with a phase tick that the layer computes. -/
def CorrectsWithinFrame (w : World) : Action → Prop
  | .irq dsp =>
      (w.l1.tpuLoopPhase = .fcch → w.l1.fcchTpuPhase = .refinementWaitResult →
        dsp.fcchReady = true → isFcchResultValid (readFcchResult dsp) = true →
          (readFcchResult dsp).start.toNat % gsmBitsPerFrame ≠ zeroTickStart) ∧
      (w.l1.tpuLoopPhase = .complete → w.l1.schScanState = .requested →
        w.l1.fcchCorrectionTick ≠ 0)
  | .call (.decodeSch _ fcch) => IsPhaseTick fcch.phaseTick
  | _ => True

/-- A decoding is called with a phase tick that the layer computes. -/
def CallsWithPhaseTick (_ : World) : Action → Prop
  | .call (.decodeSch _ fcch) => IsPhaseTick fcch.phaseTick
  | _ => True

/-- The events that carry a tick. -/
def Event.TickFits : Event → Prop
  | .correction value => IsPosition value
  | .returned (.fcch report) => IsPhaseTick report.phaseTick
  | _ => True

structure L1.TicksFit (s : L1) : Prop where
  tick : IsPhaseTick s.fcchCorrectionTick
  events : ∀ e ∈ s.log, e.TickFits

theorem L1.TicksFit.event {s : L1} (hs : s.TicksFit) {e : Event} (he : e.TickFits) :
    (s.event e).TicksFit :=
  ⟨hs.tick, List.forall_mem_cons.mpr ⟨he, hs.events⟩⟩

theorem Event.IsMonitor.tickFits {e : Event} (h : e.IsMonitor) : e.TickFits := by
  cases e with
  | monitorCollected channels gainStates => trivial
  | _ => exact h.elim

theorem ScanFrame.ticksFit {f : ScanFrame} {s : L1} (hf : f.Fits s) (hs : s.TicksFit) :
    (f.apply s).TicksFit :=
  ⟨hs.tick, fun e he => (List.mem_append.mp he).elim (fun hm => (hf.events e hm).tickFits)
    (hs.events e)⟩

/-- A statement of the handler that keeps the tick and adds events that fit. -/
theorem L1.TicksFit.setTpuCorrection {s : L1} (hs : s.TicksFit) {tick : Nat}
    (htick : IsPhaseTick tick) (hpos : tick ≠ 0) : (setTpuCorrection tick s).TicksFit :=
  hs.event (isPosition_correction htick hpos)

theorem ticksFit_collectSchResult {s : L1} (hs : s.TicksFit) (dsp : DspInput) :
    (collectSchResult dsp s).1.TicksFit := by
  have htaken : ∀ e : Event, e.TickFits → ∀ e' ∈ e :: s.log, e'.TickFits := fun e he =>
    List.forall_mem_cons.mpr ⟨he, hs.events⟩
  simp only [collectSchResult]
  split_ifs <;> exact ⟨hs.tick, htaken _ trivial⟩

/-- One interrupt. -/
theorem L1.TicksFit.transition {board : Board} {dsp : DspInput} {s s' : L1} (hs : s.TicksFit)
    (h : Transition board dsp s s')
    (haccepted : s.tpuLoopPhase = .fcch → s.fcchTpuPhase = .refinementWaitResult →
      dsp.fcchReady = true → isFcchResultValid (readFcchResult dsp) = true →
        (readFcchResult dsp).start.toNat % gsmBitsPerFrame ≠ zeroTickStart)
    (hcandidate : s.tpuLoopPhase = .complete → s.schScanState = .requested →
      s.fcchCorrectionTick ≠ 0) : s'.TicksFit := by
  have hevents : ∀ e : Event, e.TickFits → ∀ e' ∈ e :: s.log, e'.TickFits := fun e he =>
    List.forall_mem_cons.mpr ⟨he, hs.events⟩
  have hstart := isPhaseTick_fcchStart (readFcchResult dsp).start
  cases h with
  | hold => exact hs
  | scan f hf => exact ScanFrame.ticksFit hf hs
  | searchStart f hf =>
      exact ⟨(by decide : IsPhaseTick 0), (ScanFrame.ticksFit hf hs).events⟩
  | found => exact ⟨hstart, hevents _ trivial⟩
  | notFound | nextWindow | restart | gaveUp | rejected => exact ⟨hs.tick, hevents _ trivial⟩
  | accepted h hphase hready hvalid =>
      have hpos : fcchStartToTpuPhaseTick (readFcchResult dsp).start ≠ 0 := fun hzero =>
        haccepted h hphase hready hvalid ((fcchStartToTpuPhaseTick_eq_zero _).mp hzero)
      have hposition := isPosition_correction hstart hpos
      refine ⟨hstart, ?_⟩
      -- The correction is written when the result is taken and again for the SCH frame.
      exact List.forall_mem_cons.mpr ⟨hposition, List.forall_mem_cons.mpr ⟨hposition,
        hevents (.refinementCollected (readFcchResult dsp)) trivial⟩⟩
  | received h =>
      have hboundary : Event.TickFits (.correction (sub32 tpuSchResultBoundaryTick 1)) :=
        isPosition_of_lt (by decide)
      exact ⟨hs.tick, hevents _ hboundary⟩
  | schRetry =>
      have hcollected := ticksFit_collectSchResult hs dsp
      exact ⟨hcollected.tick, hcollected.events⟩
  | schDone =>
      have hcollected := ticksFit_collectSchResult hs dsp
      exact ⟨hcollected.tick, hcollected.events⟩
  | candidate h hrequest =>
      refine ⟨hs.tick, List.forall_mem_cons.mpr
        ⟨isPosition_correction hs.tick (hcandidate h hrequest), hevents .candidateStarted trivial⟩⟩
  | _ => exact ⟨hs.tick, hs.events⟩

/-! ## The main thread -/

def Task.TickFits : Task → Prop
  | .decode _ fcch _ => IsPhaseTick fcch.phaseTick
  | _ => True

structure World.TicksFit (w : World) : Prop where
  l1 : w.l1.TicksFit
  task : w.task.TickFits
  report : IsPhaseTick w.fcchReport.phaseTick

theorem World.TicksFit.returns {w : World} (result : Return) (hl1 : w.l1.TicksFit)
    (hreport : IsPhaseTick w.fcchReport.phaseTick) (hresult : Event.TickFits (.returned result)) :
    (w.returns result).TicksFit :=
  ⟨hl1.event hresult, trivial, hreport⟩

theorem ticksFit_execute {s : L1} (hs : s.TicksFit) (ok : Bool) (pc : ExecutePc) :
    (executeRequestedFcchCommand ok s pc).1.TicksFit := by
  cases pc with
  | basebandOff refinement => exact hs.event trivial
  | fcInit refinement => exact hs.event trivial
  | _ => exact ⟨hs.tick, hs.events⟩

theorem ticksFit_trxInit (board : Board) (ok : Bool) {w : World} (hw : w.TicksFit) (pc : TrxPc) :
    (trxInitStep board ok w pc).TicksFit := by
  obtain ⟨hl1, htask, hreport⟩ := hw
  cases pc with
  | loopStart | setFrequency => exact ⟨⟨hl1.tick, hl1.events⟩, trivial, hreport⟩
  | setInitialized => exact .returns .initialized ⟨hl1.tick, hl1.events⟩ hreport trivial
  | loop =>
      simp only [trxInitStep]
      split_ifs
      · exact ⟨hl1, htask, hreport⟩
      · exact ⟨hl1, trivial, hreport⟩
  | testComplete | testIdle =>
      simp only [trxInitStep]
      split_ifs
      · exact .returns .failed hl1 hreport trivial
      · exact ⟨hl1, trivial, hreport⟩

theorem ticksFit_scanChannels (board : Board) (ok : Bool) (capacity : Nat) {w : World}
    (hw : w.TicksFit) (pc : ScanPc) : (scanChannelsStep board ok capacity w pc).TicksFit := by
  obtain ⟨hl1, htask, hreport⟩ := hw
  cases pc with
  | clearSch | request | select => exact ⟨⟨hl1.tick, hl1.events⟩, trivial, hreport⟩
  | clearResults channels => cases channels <;> exact ⟨⟨hl1.tick, hl1.events⟩, trivial, hreport⟩
  | loop =>
      simp only [scanChannelsStep]
      split_ifs
      · exact ⟨hl1, htask, hreport⟩
      · exact ⟨hl1, trivial, hreport⟩
  | testMeasured =>
      simp only [scanChannelsStep]
      split_ifs
      · exact .returns .failed hl1 hreport trivial
      · exact ⟨hl1, trivial, hreport⟩
  | clearFcch candidates =>
      exact .returns (.candidates candidates) ⟨hl1.tick, hl1.events⟩ hreport trivial

theorem isPhaseTick_reportField {s : L1} {r : FcchReport} (hs : IsPhaseTick s.fcchCorrectionTick)
    (hr : IsPhaseTick r.phaseTick) (field : ReportField) :
    IsPhaseTick (reportField s r field).phaseTick := by
  cases field <;> first | exact hr | exact hs

theorem ticksFit_searchFcch (board : Board) (ok : Bool) (c : Candidate) {w : World}
    (hw : w.TicksFit) (pc : SearchPc) : (searchFcchStep board ok c w pc).TicksFit := by
  obtain ⟨hl1, -, hreport⟩ := hw
  cases pc with
  | execute pc =>
      have hexecute := ticksFit_execute hl1 ok pc
      simp only [searchFcchStep]
      split
      · exact ⟨hexecute, trivial, hreport⟩
      · exact ⟨hexecute, trivial, hreport⟩
      · exact .returns .failed hexecute hreport trivial
  | reportResult fields =>
      cases fields with
      | nil => exact .returns (.fcch w.fcchReport) hl1 hreport hreport
      | cons field rest => exact ⟨hl1, trivial, isPhaseTick_reportField hl1.tick hreport field⟩
  | testWindow =>
      simp only [searchFcchStep]
      split_ifs
      · exact .returns (.fcch w.fcchReport) hl1 hreport hreport
      · exact ⟨hl1, trivial, hreport⟩
  | testComplete =>
      simp only [searchFcchStep]
      split_ifs
      · exact .returns .failed hl1 hreport trivial
      · exact ⟨hl1, trivial, hreport⟩
  | loop =>
      simp only [searchFcchStep]
      split_ifs <;> exact ⟨hl1, trivial, hreport⟩
  | _ => exact ⟨⟨hl1.tick, hl1.events⟩, trivial, hreport⟩

theorem ticksFit_decodeSch (ok : Bool) (c : Candidate) (fcch : FcchReport) {w : World}
    (hl1 : w.l1.TicksFit) (htick : IsPhaseTick fcch.phaseTick)
    (hreport : IsPhaseTick w.fcchReport.phaseTick) (pc : DecodePc) :
    (decodeSchStep ok c fcch w pc).TicksFit := by
  cases pc with
  | setCorrectionTick => exact ⟨⟨htick, hl1.events⟩, htick, hreport⟩
  | execute pc =>
      have hexecute := ticksFit_execute hl1 ok pc
      simp only [decodeSchStep]
      split
      · exact ⟨hexecute, htick, hreport⟩
      · exact ⟨hexecute, htick, hreport⟩
      · exact .returns .failed hexecute hreport trivial
  | testComplete =>
      simp only [decodeSchStep]
      split_ifs
      · exact .returns .failed hl1 hreport trivial
      · exact ⟨hl1, htick, hreport⟩
  | loop =>
      simp only [decodeSchStep]
      split_ifs <;> exact ⟨hl1, htick, hreport⟩
  | report => exact .returns (.sch (schReport w.l1)) hl1 hreport trivial
  | _ => exact ⟨⟨hl1.tick, hl1.events⟩, htick, hreport⟩

theorem ticksFit_startCall {w : World} (hw : w.TicksFit) {call : Call}
    (hcall : CallsWithPhaseTick w (.call call)) : (startCall call w).TicksFit := by
  obtain ⟨hl1, -, hreport⟩ := hw
  have hcalled : (w.l1.event (.called call)).TicksFit := hl1.event trivial
  cases call with
  | trxInit => exact ⟨hcalled, trivial, hreport⟩
  | scanChannels capacity =>
      simp only [startCall]
      split_ifs
      · exact .returns .failed hcalled hreport trivial
      · exact ⟨hcalled, trivial, hreport⟩
  | searchFcch c =>
      simp only [startCall]
      split_ifs
      · exact .returns .failed hcalled hreport trivial
      · exact ⟨hcalled, trivial, (by decide : IsPhaseTick 0)⟩
  | decodeSch c fcch =>
      simp only [startCall]
      split_ifs
      · exact .returns .failed hcalled hreport trivial
      · exact ⟨hcalled, hcall, hreport⟩

theorem ticksFit_step (board : Board) (w : World) (a : Action) (w' : World) (hw : w.TicksFit)
    (ha : CorrectsWithinFrame w a) (hstep : step board a w = some w') : w'.TicksFit := by
  cases a with
  | irq dsp =>
      simp only [step] at hstep
      split_ifs at hstep
      cases hstep
      exact ⟨hw.l1.transition (transition_irq board dsp w.l1) ha.1 ha.2, hw.task, hw.report⟩
  | call call =>
      simp only [step] at hstep
      split_ifs at hstep
      cases hstep
      refine ticksFit_startCall hw ?_
      cases call with
      | decodeSch c fcch => exact ha
      | _ => trivial
  | main ok =>
      simp only [step, mainStep] at hstep
      cases htask : w.task with
      | idle => rw [htask] at hstep; cases hstep
      | trxInit pc => rw [htask] at hstep; exact Option.some.inj hstep ▸ ticksFit_trxInit board ok hw pc
      | scan capacity pc =>
          rw [htask] at hstep
          exact Option.some.inj hstep ▸ ticksFit_scanChannels board ok capacity hw pc
      | search c pc =>
          rw [htask] at hstep
          exact Option.some.inj hstep ▸ ticksFit_searchFcch board ok c hw pc
      | decode c fcch pc =>
          rw [htask] at hstep
          have htick := hw.task
          rw [htask] at htick
          exact Option.some.inj hstep ▸ ticksFit_decodeSch ok c fcch hw.l1 htick hw.report pc

/-! ## Runs -/

theorem ticksFit_reachable {board : Board} {w : World}
    (h : Reachable (step board) CorrectsWithinFrame basebandReady w) : w.TicksFit := by
  refine h.invariant ?_ fun w a w' hw ha hstep => ticksFit_step board w a w' hw ha hstep
  exact ⟨⟨by decide, by simp [basebandReady]⟩, trivial, by decide⟩

/-- A search reports a phase tick with which a decoding can be called. -/
theorem isPhaseTick_returned {board : Board} {w : World} {report : FcchReport}
    (h : Reachable (step board) CorrectsWithinFrame basebandReady w)
    (hreturned : .returned (.fcch report) ∈ w.l1.log) : IsPhaseTick report.phaseTick :=
  (ticksFit_reachable h).l1.events _ hreturned

/-- **Corrections are positions.** In every run in which the layer does not correct by the phase tick 0,
    every value written to `TPU_CORRECTION` is a position of the counter. -/
theorem corrections_within_frame (board : Board) {w : World}
    (h : Reachable (step board) CorrectsWithinFrame basebandReady w) :
    ∀ value, .correction value ∈ w.l1.log → IsPosition value :=
  fun value hvalue => (ticksFit_reachable h).l1.events (.correction value) hvalue

instance (w : World) : (a : Action) → Decidable (CorrectsWithinFrame w a)
  | .irq _ => inferInstanceAs (Decidable (_ ∧ _))
  | .call (.decodeSch _ fcch) => inferInstanceAs (Decidable (IsPhaseTick fcch.phaseTick))
  | .call .trxInit => .isTrue trivial
  | .call (.scanChannels _) => .isTrue trivial
  | .call (.searchFcch _) => .isTrue trivial
  | .main _ => .isTrue trivial

instance (w : World) : (a : Action) → Decidable (CallsWithPhaseTick w a)
  | .call (.decodeSch _ fcch) => inferInstanceAs (Decidable (IsPhaseTick fcch.phaseTick))
  | .call .trxInit => .isTrue trivial
  | .call (.scanChannels _) => .isTrue trivial
  | .call (.searchFcch _) => .isTrue trivial
  | .irq _ => .isTrue trivial
  | .main _ => .isTrue trivial

/-- A refinement is accepted with the start word given. -/
def refinedAt (start : UInt16) : Action := .irq ⟨0, 0, [2, start, 0, 0, 0], [0, 1, 0, 0, 0], []⟩

/-- The theorem behind a refinement that is accepted in the middle of a frame. -/
theorem corrections_within_frame_refined :
    ∃ w : World, .correction 4927 ∈ w.l1.log ∧
      ∀ value, .correction value ∈ w.l1.log → IsPosition value := by
  have hrun : ∃ w, Reachable (step plainBoard) CorrectsWithinFrame basebandReady w ∧
      .correction 4927 ∈ w.l1.log :=
    exists_reachable_of_run (initRun ++ decodeRun ++ frames 2 ++ [refinedAt 625])
      (by decide +kernel)
  obtain ⟨w, h, hwritten⟩ := hrun
  exact ⟨w, hwritten, corrections_within_frame plainBoard h⟩

/-- A refinement that is accepted with the start word 9 has the phase tick 0. -/
theorem correction_beyond_frame :
    ∃ w, Reachable (step plainBoard) CallsWithPhaseTick basebandReady w ∧
      .correction 0xFFFFFFFF ∈ w.l1.log ∧ ¬ IsPosition 0xFFFFFFFF := by
  have hrun : ∃ w, Reachable (step plainBoard) CallsWithPhaseTick basebandReady w ∧
      .correction 0xFFFFFFFF ∈ w.l1.log :=
    exists_reachable_of_run (initRun ++ decodeRun ++ frames 2 ++ [refinedAt 9]) (by decide +kernel)
  obtain ⟨w, h, hwritten⟩ := hrun
  exact ⟨w, h, hwritten, fun hposition => absurd hposition.frame (by decide)⟩

end Pmb887x.GsmL1
