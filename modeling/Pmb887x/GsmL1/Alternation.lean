import Pmb887x.GsmL1.Handshake
import Pmb887x.GsmL1.Attempts

set_option autoImplicit false

/-! # Commands and results alternate within a call

A call of `gsm_l1_search_fcch` or `gsm_l1_decode_sch` places its request and the loop phase in two
statements, and interrupts come between them. `SearchPc.Holds` and `DecodePc.Holds` say what holds at
each statement of the calls when nothing of an abandoned call is left, `QuietStart`. -/

namespace Pmb887x.GsmL1

open Library

/-- No abandoned call has left anything that the call would run into. -/
def QuietStart (s : L1) : Call → Prop
  | .searchFcch _ =>
      s.schScanState ≠ .active ∧ (s.tpuLoopPhase = .complete → s.schScanState ≠ .requested)
  | .decodeSch _ _ =>
      ¬ s.fcchScanState.Commanded ∧ (s.tpuLoopPhase = .search → s.fcchScanState ≠ .requested) ∧
        (s.tpuLoopPhase = .complete → s.schScanState ≠ .requested)
  | _ => False

/-- Within the call: no other call is started. -/
def withinCall (_ : World) : Action → Prop
  | .call _ => False
  | _ => True

/-! ## Before the request -/

/-- A search has not placed its request. -/
structure L1.SearchIdle (s : L1) : Prop where
  flight : inFlight s.log = 0
  sch : s.schScanState ≠ .active
  phase : s.tpuLoopPhase = .search ∨
    (s.tpuLoopPhase = .complete ∧ s.schScanState ≠ .requested) ∨
    (s.tpuLoopPhase = .fcch ∧ s.fcchTpuPhase = .rfQuietFirst ∧
      s.fcchScanState = .bbOffRequested ∧ s.fcchWindow < fcchSearchWindowCount)

/-- The request of a search is placed, and the loop phase is not. A handler that takes an older request
    in between goes on with this one. -/
structure L1.SearchRequested (s : L1) : Prop where
  flight : inFlight s.log = 0
  sch : s.schScanState ≠ .active
  phase : (s.tpuLoopPhase = .search ∧ s.fcchScanState = .requested) ∨
    (s.tpuLoopPhase = .complete ∧ s.schScanState ≠ .requested) ∨
    (s.tpuLoopPhase = .fcch ∧
      ((s.fcchScanState = .requested ∧ s.fcchTpuPhase.BeforeCommand) ∨
        (s.fcchScanState = .commandRequested ∧ s.fcchTpuPhase = .prepareSecond) ∨
        (s.fcchScanState = .bbOffRequested ∧ s.fcchTpuPhase = .rfQuietFirst)))

/-- A decoding has not placed its request. -/
structure L1.DecodeIdle (s : L1) : Prop where
  flight : inFlight s.log = 0
  command : ¬ s.fcchScanState.Commanded
  phase : (s.tpuLoopPhase = .search ∧ s.fcchScanState ≠ .requested) ∨
    (s.tpuLoopPhase = .complete ∧ s.schScanState ≠ .requested)

/-- The request of a decoding is placed, and the loop phase is not. -/
structure L1.DecodeRequested (s : L1) : Prop where
  flight : inFlight s.log = 0
  phase : ((s.tpuLoopPhase = .search ∨ s.tpuLoopPhase = .complete) ∧
      s.schScanState = .requested ∧ ¬ s.fcchScanState.Commanded ∧
      (s.tpuLoopPhase = .search → s.fcchScanState ≠ .requested)) ∨
    (s.tpuLoopPhase = .fcch ∧ s.fcchTpuPhase = .rfQuietFirst ∧
      s.fcchScanState = .refinementBbOffRequested ∧ s.schScanState = .active)

/-- An interrupt in which no command and no result is seen. -/
structure L1.Silent (s s' : L1) : Prop where
  commands : SameCommands s.log s'.log
  window : s'.fcchWindow ≤ s.fcchWindow

theorem L1.Silent.refl (s : L1) : s.Silent s := ⟨.refl _, le_rfl⟩

theorem ScanFrame.silent {f : ScanFrame} {s : L1} (hf : f.Fits s) : s.Silent (f.apply s) :=
  ⟨sameCommands_monitor f.events s.log hf.events, le_rfl⟩

theorem L1.SearchIdle.transition {board : Board} {dsp : DspInput} {s s' : L1} (hs : s.SearchIdle)
    (h : Transition board dsp s s') : s'.SearchIdle ∧ s.Silent s' := by
  -- The handler waits in the only phase of the acquisition that can be left over.
  have hfcch : s.tpuLoopPhase = .fcch →
      s.fcchTpuPhase = .rfQuietFirst ∧ s.fcchScanState = .bbOffRequested := by
    intro h
    rcases hs.phase with hphase | ⟨hphase, -⟩ | ⟨-, htpu, hstate, -⟩
    · rw [h] at hphase; cases hphase
    · rw [h] at hphase; cases hphase
    · exact ⟨htpu, hstate⟩
  have hnosch : s.tpuLoopPhase ≠ .sch := by
    intro h
    rcases hs.phase with hphase | ⟨hphase, -⟩ | ⟨hphase, -⟩ <;> rw [h] at hphase <;> cases hphase
  cases h with
  | hold => exact ⟨hs, .refl s⟩
  | scan f hf =>
      have hsearch : s.tpuLoopPhase = .search := by
        rcases hs.phase with h | ⟨h, -⟩ | ⟨h, -⟩
        · exact h
        · exact absurd h hf.before.2.2
        · exact absurd h hf.before.1
      have hsilent := ScanFrame.silent hf
      exact ⟨⟨hsilent.commands.inFlight.trans hs.flight, hs.sch, .inl (hf.search hsearch)⟩, hsilent⟩
  | searchStart f hf hrequest =>
      have hsilent := ScanFrame.silent hf
      exact ⟨⟨hsilent.commands.inFlight.trans hs.flight, hs.sch,
        .inr (.inr ⟨rfl, rfl, rfl, Nat.succ_pos _⟩)⟩, ⟨hsilent.commands, Nat.zero_le _⟩⟩
  | move h phase hmove =>
      obtain ⟨htpu, hstate⟩ := hfcch h
      cases hmove with
      | quietFirst h hoff => exact absurd hstate hoff
      | _ => simp_all
  | candidate h hrequest =>
      rcases hs.phase with hphase | ⟨-, hsch⟩ | ⟨hphase, -⟩
      · rw [h] at hphase; cases hphase
      · exact absurd hrequest hsch
      · rw [h] at hphase; cases hphase
  | received h | schRetry h | schDone h | refineAgain h => exact absurd h hnosch
  | prepare h hphase => rcases hphase with hphase | hphase <;> simp_all
  | found h hphase | notFound h hphase | nextWindow h hphase | restart h hphase | accepted h hphase
  | gaveUp h hphase | rejected h hphase =>
      rw [(hfcch h).1] at hphase
      cases hphase

theorem L1.SearchRequested.transition {board : Board} {dsp : DspInput} {s s' : L1}
    (hs : s.SearchRequested) (h : Transition board dsp s s') :
    s'.SearchRequested ∧ s.Silent s' := by
  have hfcch : s.tpuLoopPhase = .fcch →
      (s.fcchScanState = .requested ∧ s.fcchTpuPhase.BeforeCommand) ∨
        (s.fcchScanState = .commandRequested ∧ s.fcchTpuPhase = .prepareSecond) ∨
        (s.fcchScanState = .bbOffRequested ∧ s.fcchTpuPhase = .rfQuietFirst) := by
    intro h
    rcases hs.phase with ⟨hphase, -⟩ | ⟨hphase, -⟩ | ⟨-, hstate⟩
    · rw [h] at hphase; cases hphase
    · rw [h] at hphase; cases hphase
    · exact hstate
  have hnosch : s.tpuLoopPhase ≠ .sch := by
    intro h
    rcases hs.phase with ⟨hphase, -⟩ | ⟨hphase, -⟩ | ⟨hphase, -⟩ <;> rw [h] at hphase <;>
      cases hphase
  cases h with
  | hold => exact ⟨hs, .refl s⟩
  | scan f hf =>
      have hsearch : s.tpuLoopPhase = .search ∧ s.fcchScanState = .requested := by
        rcases hs.phase with h | ⟨h, -⟩ | ⟨h, -⟩
        · exact h
        · exact absurd h hf.before.2.2
        · exact absurd h hf.before.1
      have hsilent := ScanFrame.silent hf
      exact ⟨⟨hsilent.commands.inFlight.trans hs.flight, hs.sch,
        .inl ⟨hf.search hsearch.1, hsearch.2⟩⟩, hsilent⟩
  | searchStart f hf hrequest =>
      have hsilent := ScanFrame.silent hf
      exact ⟨⟨hsilent.commands.inFlight.trans hs.flight, hs.sch,
        .inr (.inr ⟨rfl, .inr (.inr ⟨rfl, rfl⟩)⟩)⟩, ⟨hsilent.commands, Nat.zero_le _⟩⟩
  | move h phase hmove =>
      refine ⟨⟨hs.flight, hs.sch, .inr (.inr ⟨h, ?_⟩)⟩, ⟨.refl _, le_rfl⟩⟩
      rcases hfcch h with ⟨hstate, htpu⟩ | ⟨hstate, htpu⟩ | ⟨hstate, htpu⟩
      · refine .inl ⟨hstate, ?_⟩
        have hsch := hs.sch
        cases hmove <;> simp_all [FcchTpuPhase.BeforeCommand]
      · cases hmove <;> simp_all
      · cases hmove <;> simp_all
  | prepare h hphase =>
      refine ⟨⟨hs.flight, hs.sch, .inr (.inr ⟨h, .inr (.inl ⟨rfl, rfl⟩)⟩)⟩, ⟨.refl _, le_rfl⟩⟩
  | candidate h hrequest =>
      rcases hs.phase with ⟨hphase, -⟩ | ⟨-, hsch⟩ | ⟨hphase, -⟩
      · rw [h] at hphase; cases hphase
      · exact absurd hrequest hsch
      · rw [h] at hphase; cases hphase
  | received h | schRetry h | schDone h | refineAgain h => exact absurd h hnosch
  | found h hphase | notFound h hphase | nextWindow h hphase | restart h hphase | accepted h hphase
  | gaveUp h hphase | rejected h hphase =>
      rcases hfcch h with ⟨-, htpu⟩ | ⟨-, htpu⟩ | ⟨-, htpu⟩ <;> rw [hphase] at htpu
      · exact htpu.elim
      · cases htpu
      · cases htpu

theorem L1.DecodeIdle.transition {board : Board} {dsp : DspInput} {s s' : L1} (hs : s.DecodeIdle)
    (h : Transition board dsp s s') : s'.DecodeIdle ∧ s.Silent s' := by
  cases h with
  | hold => exact ⟨hs, .refl s⟩
  | scan f hf =>
      have hsearch : s.tpuLoopPhase = .search ∧ s.fcchScanState ≠ .requested := by
        rcases hs.phase with h | ⟨h, -⟩
        · exact h
        · exact absurd h hf.before.2.2
      have hsilent := ScanFrame.silent hf
      exact ⟨⟨hsilent.commands.inFlight.trans hs.flight, hs.command,
        .inl ⟨hf.search hsearch.1, hsearch.2⟩⟩, hsilent⟩
  | searchStart f hf hrequest =>
      rcases hs.phase with ⟨-, hstate⟩ | ⟨h, -⟩
      · exact absurd hrequest hstate
      · exact absurd h hf.before.2.2
  | candidate h hrequest =>
      rcases hs.phase with ⟨hphase, -⟩ | ⟨-, hsch⟩
      · rw [h] at hphase; cases hphase
      · exact absurd hrequest hsch
  | move h | prepare h | found h | notFound h | nextWindow h | restart h | accepted h | gaveUp h
  | rejected h | received h | schRetry h | schDone h | refineAgain h =>
      rcases hs.phase with ⟨hphase, -⟩ | ⟨hphase, -⟩ <;> rw [h] at hphase <;> cases hphase

theorem L1.DecodeRequested.transition {board : Board} {dsp : DspInput} {s s' : L1}
    (hs : s.DecodeRequested) (h : Transition board dsp s s') :
    s'.DecodeRequested ∧ s.Silent s' := by
  have hfcch : s.tpuLoopPhase = .fcch →
      s.fcchTpuPhase = .rfQuietFirst ∧ s.fcchScanState = .refinementBbOffRequested := by
    intro h
    rcases hs.phase with ⟨hphase, -⟩ | ⟨-, htpu, hstate, -⟩
    · rw [h] at hphase
      rcases hphase with hphase | hphase <;> cases hphase
    · exact ⟨htpu, hstate⟩
  have hnosch : s.tpuLoopPhase ≠ .sch := by
    intro h
    rcases hs.phase with ⟨hphase, -⟩ | ⟨hphase, -⟩ <;> rw [h] at hphase
    · rcases hphase with hphase | hphase <;> cases hphase
    · cases hphase
  cases h with
  | hold => exact ⟨hs, .refl s⟩
  | scan f hf =>
      have hsilent := ScanFrame.silent hf
      rcases hs.phase with ⟨hphase, hsch, hcommand, hrequest⟩ | ⟨h, -⟩
      · have hsearch := hphase.resolve_right hf.before.2.2
        exact ⟨⟨hsilent.commands.inFlight.trans hs.flight, .inl ⟨.inl (hf.search hsearch), hsch,
          hcommand, fun _ => hrequest hsearch⟩⟩, hsilent⟩
      · exact absurd h hf.before.1
  | searchStart f hf hrequest =>
      rcases hs.phase with ⟨hphase, hsch, hcommand, hstate⟩ | ⟨h, -⟩
      · exact absurd hrequest (hstate (hphase.resolve_right hf.before.2.2))
      · exact absurd h hf.before.1
  | candidate h hrequest => exact ⟨⟨hs.flight, .inr ⟨rfl, rfl, rfl, rfl⟩⟩, ⟨⟨rfl, rfl, rfl, rfl⟩, le_rfl⟩⟩
  | move h phase hmove =>
      obtain ⟨htpu, hstate⟩ := hfcch h
      cases hmove with
      | quietFirst h hoff hrefine => exact absurd hstate hrefine
      | _ => simp_all
  | prepare h hphase => rcases hphase with hphase | hphase <;> simp_all
  | received h | schRetry h | schDone h | refineAgain h => exact absurd h hnosch
  | found h hphase | notFound h hphase | nextWindow h hphase | restart h hphase | accepted h hphase
  | gaveUp h hphase | rejected h hphase =>
      rw [(hfcch h).1] at hphase
      cases hphase

/-! ## The calls -/

def SearchPc.Holds (s : L1) : SearchPc → Prop
  | .setCandidate => s.SearchIdle
  | .clearDetected => s.SearchIdle
  | .clearWindow => s.SearchIdle
  | .clearAfcFrequency => s.SearchIdle
  | .request => s.SearchIdle
  | .setLoopPhase => s.SearchRequested
  | .execute pc => pc.Holds s
  | _ => s.Shape

def DecodePc.Holds (s : L1) : DecodePc → Prop
  | .setCandidate => s.DecodeIdle
  | .setCorrectionTick => s.DecodeIdle
  | .setAfcFrequency => s.DecodeIdle
  | .request => s.DecodeIdle
  | .setLoopPhase => s.DecodeRequested
  | .execute pc => pc.Holds s
  | _ => s.Shape

def Task.Holds (s : L1) : Task → Prop
  | .idle => s.Shape
  | .search _ pc => pc.Holds s
  | .decode _ _ pc => pc.Holds s
  | _ => False

structure World.InTurn (w : World) : Prop where
  holds : w.task.Holds w.l1
  alternates : alternates w.l1.log = true
  window : w.l1.fcchWindow ≤ fcchSearchWindowCount

theorem L1.SearchIdle.shape {s : L1} (hs : s.SearchIdle) : s.Shape := by
  rcases hs.phase with h | ⟨h, hsch⟩ | ⟨h, htpu, hstate, hwindow⟩
  · simp only [L1.Shape, h]
    exact ⟨fun _ => hs.flight, fun _ => ⟨hs.flight, hs.sch⟩⟩
  · simp only [L1.Shape, h]
    exact ⟨fun _ => hs.flight, fun hrequest => absurd hrequest hsch⟩
  · simp only [L1.Shape, h]
    exact .inl ⟨.off htpu hstate hs.flight, hs.sch, hwindow⟩

theorem L1.DecodeIdle.shape {s : L1} (hs : s.DecodeIdle) : s.Shape := by
  rcases hs.phase with ⟨h, hstate⟩ | ⟨h, hsch⟩
  · simp only [L1.Shape, h]
    exact ⟨fun hcommanded => absurd hcommanded hs.command, fun hrequest => absurd hrequest hstate⟩
  · simp only [L1.Shape, h]
    exact ⟨fun hcommanded => absurd hcommanded hs.command, fun hrequest => absurd hrequest hsch⟩

theorem L1.SearchIdle.same {s s' : L1} (hs : s.SearchIdle) (h : s.Same s') : s'.SearchIdle where
  flight := h.commands.inFlight.trans hs.flight
  sch := h.sch ▸ hs.sch
  phase := by
    rw [h.loop, h.tpu, h.state, h.sch, h.window]
    exact hs.phase

theorem L1.DecodeIdle.same {s s' : L1} (hs : s.DecodeIdle) (h : s.Same s') : s'.DecodeIdle where
  flight := h.commands.inFlight.trans hs.flight
  command := h.state ▸ hs.command
  phase := by
    rw [h.loop, h.state, h.sch]
    exact hs.phase

theorem L1.Same.returned (s : L1) (result : Return) : s.Same (s.event (.returned result)) :=
  ⟨rfl, rfl, rfl, rfl, rfl, ⟨rfl, rfl, rfl, rfl⟩⟩

theorem L1.Same.frequency (board : Board) (frequencyHz : Int) (s : L1) :
    s.Same (gsmBoardSetFrequencyCorrectionHz board frequencyHz s) :=
  ⟨rfl, rfl, rfl, rfl, rfl, .refl _⟩

theorem World.InTurn.returns {w : World} (result : Return) (hshape : w.l1.Shape)
    (halternates : GsmL1.alternates w.l1.log = true)
    (hwindow : w.l1.fcchWindow ≤ fcchSearchWindowCount) : (w.returns result).InTurn :=
  ⟨hshape.same (.returned _ _), halternates, hwindow⟩

/-- The next statement of a search. -/
theorem inTurn_searchFcch (board : Board) (ok : Bool) (c : Candidate) {w : World} {pc : SearchPc}
    (hpc : pc.Holds w.l1) (halternates : alternates w.l1.log = true)
    (hwindow : w.l1.fcchWindow ≤ fcchSearchWindowCount) :
    (searchFcchStep board ok c w pc).InTurn := by
  cases pc with
  | setCandidate | clearDetected | clearAfcFrequency =>
      exact ⟨hpc.same ⟨rfl, rfl, rfl, rfl, rfl, .refl _⟩, halternates, hwindow⟩
  | clearWindow =>
      refine ⟨⟨hpc.flight, hpc.sch, ?_⟩, halternates, Nat.zero_le _⟩
      exact hpc.phase.imp_right (.imp_right fun ⟨h, htpu, hstate, _⟩ =>
        ⟨h, htpu, hstate, Nat.succ_pos _⟩)
  | request =>
      refine ⟨⟨hpc.flight, hpc.sch, ?_⟩, halternates, hwindow⟩
      rcases hpc.phase with h | ⟨h, hsch⟩ | ⟨h, htpu, -⟩
      · exact .inl ⟨h, rfl⟩
      · exact .inr (.inl ⟨h, hsch⟩)
      · have hbefore : w.l1.fcchTpuPhase.BeforeCommand := by rw [htpu]; trivial
        exact .inr (.inr ⟨h, .inl ⟨rfl, hbefore⟩⟩)
  | setLoopPhase => exact ⟨⟨fun _ => hpc.flight, fun _ => ⟨hpc.flight, hpc.sch⟩⟩, halternates, hwindow⟩
  | setFrequency => exact ⟨hpc.same (.frequency board _ _), halternates, hwindow⟩
  | execute pc =>
      have hmain := ExecutePc.Holds.main hpc ok
      have hsends := ExecutePc.Holds.sends hpc ok halternates
      have hcount := (executeRequestedFcchCommand_window ok w.l1 pc).trans_le hwindow
      simp only [searchFcchStep]
      split
      · next hnext => rw [hnext] at hmain; exact ⟨hmain, hsends, hcount⟩
      · next hnext => rw [hnext] at hmain; exact ⟨hmain, hsends, hcount⟩
      · next hnext => rw [hnext] at hmain; exact .returns _ hmain hsends hcount
  | reportResult fields =>
      cases fields with
      | nil => exact .returns _ hpc halternates hwindow
      | cons field rest => exact ⟨hpc, halternates, hwindow⟩
  | loop | testComplete | testWindow =>
      simp only [searchFcchStep]
      split_ifs
      all_goals first
        | exact .returns _ hpc halternates hwindow
        | exact ⟨hpc, halternates, hwindow⟩
  | reportDetected | reportAttemptCount => exact ⟨hpc, halternates, hwindow⟩

/-- The next statement of a decoding. -/
theorem inTurn_decodeSch (ok : Bool) (c : Candidate) (fcch : FcchReport) {w : World}
    {pc : DecodePc} (hpc : pc.Holds w.l1) (halternates : alternates w.l1.log = true)
    (hwindow : w.l1.fcchWindow ≤ fcchSearchWindowCount) :
    (decodeSchStep ok c fcch w pc).InTurn := by
  cases pc with
  | setCandidate | setCorrectionTick | setAfcFrequency =>
      exact ⟨hpc.same ⟨rfl, rfl, rfl, rfl, rfl, .refl _⟩, halternates, hwindow⟩
  | request =>
      refine ⟨⟨hpc.flight, .inl ⟨?_, rfl, hpc.command, fun h => ?_⟩⟩, halternates, hwindow⟩
      · exact hpc.phase.imp And.left And.left
      · rcases hpc.phase with ⟨-, hstate⟩ | ⟨hphase, -⟩
        · exact hstate
        · cases hphase.symm.trans h
  | setLoopPhase =>
      refine ⟨⟨fun _ => hpc.flight, fun hrequest => ⟨hpc.flight, ?_⟩⟩, halternates, hwindow⟩
      rcases hpc.phase with ⟨-, -, hcommand, -⟩ | ⟨-, -, -, hsch⟩
      · exact hcommand
      · cases hsch.symm.trans hrequest
  | execute pc =>
      have hmain := ExecutePc.Holds.main hpc ok
      have hsends := ExecutePc.Holds.sends hpc ok halternates
      have hcount := (executeRequestedFcchCommand_window ok w.l1 pc).trans_le hwindow
      simp only [decodeSchStep]
      split
      · next hnext => rw [hnext] at hmain; exact ⟨hmain, hsends, hcount⟩
      · next hnext => rw [hnext] at hmain; exact ⟨hmain, hsends, hcount⟩
      · next hnext => rw [hnext] at hmain; exact .returns _ hmain hsends hcount
  | loop | testComplete =>
      simp only [decodeSchStep]
      split_ifs
      all_goals first
        | exact .returns _ hpc halternates hwindow
        | exact ⟨hpc, halternates, hwindow⟩
  | report => exact .returns _ hpc halternates hwindow

/-- An interrupt within the call. -/
theorem Task.Holds.transition {board : Board} {dsp : DspInput} {s s' : L1} {task : Task}
    (hs : task.Holds s) (h : Transition board dsp s s') (halternates : alternates s.log = true)
    (hwindow : s.fcchWindow ≤ fcchSearchWindowCount) :
    task.Holds s' ∧ alternates s'.log = true ∧ s'.fcchWindow ≤ fcchSearchWindowCount := by
  have hsilent : s.Silent s' →
      alternates s'.log = true ∧ s'.fcchWindow ≤ fcchSearchWindowCount := fun hsilent =>
    ⟨hsilent.commands.alternates.trans halternates, hsilent.window.trans hwindow⟩
  have hshape : s.Shape →
      s'.Shape ∧ alternates s'.log = true ∧ s'.fcchWindow ≤ fcchSearchWindowCount := fun hs =>
    ⟨hs.transition h, hs.alternates h halternates, hs.window h hwindow⟩
  cases task with
  | idle => exact hshape hs
  | search c pc =>
      cases pc with
      | setCandidate | clearDetected | clearWindow | clearAfcFrequency | request =>
          exact (L1.SearchIdle.transition hs h).imp_right hsilent
      | setLoopPhase => exact (L1.SearchRequested.transition hs h).imp_right hsilent
      | execute pc =>
          exact ⟨ExecutePc.Holds.transition hs h,
            ExecutePc.Holds.collects hs h halternates hwindow⟩
      | _ => exact hshape hs
  | decode c fcch pc =>
      cases pc with
      | setCandidate | setCorrectionTick | setAfcFrequency | request =>
          exact (L1.DecodeIdle.transition hs h).imp_right hsilent
      | setLoopPhase => exact (L1.DecodeRequested.transition hs h).imp_right hsilent
      | execute pc =>
          exact ⟨ExecutePc.Holds.transition hs h,
            ExecutePc.Holds.collects hs h halternates hwindow⟩
      | _ => exact hshape hs
  | _ => exact hs.elim

/-- The start of a call. -/
theorem inTurn_startCall {w : World} {call : Call}
    (hphase : w.l1.tpuLoopPhase = .search ∨ w.l1.tpuLoopPhase = .complete)
    (hquiet : QuietStart w.l1 call) (hwindow : w.l1.fcchWindow ≤ fcchSearchWindowCount) :
    (startCall call w).InTurn := by
  cases call with
  | trxInit => exact hquiet.elim
  | scanChannels capacity => exact hquiet.elim
  | searchFcch c =>
      obtain ⟨hactive, hsch⟩ := hquiet
      have hidle : (w.l1.event (.called (.searchFcch c))).SearchIdle :=
        ⟨rfl, hactive, hphase.imp_right fun h => .inl ⟨h, hsch h⟩⟩
      simp only [startCall]
      split_ifs
      · exact .returns _ hidle.shape rfl hwindow
      · exact ⟨hidle, rfl, hwindow⟩
  | decodeSch c fcch =>
      obtain ⟨hcommand, hstate, hsch⟩ := hquiet
      have hidle : (w.l1.event (.called (.decodeSch c fcch))).DecodeIdle :=
        ⟨rfl, hcommand, hphase.imp (fun h => ⟨h, hstate h⟩) fun h => ⟨h, hsch h⟩⟩
      simp only [startCall]
      split_ifs
      · exact .returns _ hidle.shape rfl hwindow
      · exact ⟨hidle, rfl, hwindow⟩

theorem inTurn_step (board : Board) (w : World) (a : Action) (w' : World) (hw : w.InTurn)
    (ha : withinCall w a) (hstep : step board a w = some w') : w'.InTurn := by
  cases a with
  | irq dsp =>
      simp only [step] at hstep
      split_ifs at hstep
      cases hstep
      obtain ⟨hholds, halternates, hwindow⟩ :=
        hw.holds.transition (transition_irq board dsp w.l1) hw.alternates hw.window
      exact ⟨hholds, halternates, hwindow⟩
  | call call => exact ha.elim
  | main ok =>
      obtain ⟨hholds, halternates, hwindow⟩ := hw
      simp only [step, mainStep] at hstep
      cases htask : w.task with
      | idle => rw [htask] at hstep; cases hstep
      | search c pc =>
          rw [htask] at hstep hholds
          exact Option.some.inj hstep ▸ inTurn_searchFcch board ok c hholds halternates hwindow
      | decode c fcch pc =>
          rw [htask] at hstep hholds
          exact Option.some.inj hstep ▸ inTurn_decodeSch ok c fcch hholds halternates hwindow
      | _ => rw [htask] at hholds; exact hholds.elim

/-- **Commands and results alternate.** In every run of a search or a decoding that is started while the
    loop is idle and nothing of an abandoned call is left, a command is sent only when none is in flight,
    every result that is collected belongs to one command, which was sent after the baseband had been
    switched off, and the windows of the search stay within their limit. -/
theorem commands_alternate (board : Board) (call : Call) {w₀ w : World}
    (hphase : w₀.l1.tpuLoopPhase = .search ∨ w₀.l1.tpuLoopPhase = .complete)
    (hquiet : QuietStart w₀.l1 call) (hwindow : w₀.l1.fcchWindow ≤ fcchSearchWindowCount)
    (h : Reachable (step board) withinCall (startCall call w₀) w) :
    alternates w.l1.log = true ∧ w.l1.fcchWindow ≤ fcchSearchWindowCount := by
  have hw : w.InTurn := h.invariant (inTurn_startCall hphase hquiet hwindow)
    fun w a w' hw ha hstep => inTurn_step board w a w' hw ha hstep
  exact ⟨hw.alternates, hw.window⟩

/-! ### Runs -/

instance (w : World) : (a : Action) → Decidable (withinCall w a)
  | .irq _ => .isTrue trivial
  | .call _ => .isFalse id
  | .main _ => .isTrue trivial

/-- A world behind a scan. -/
def scannedWorld : World :=
  { basebandReady with
    l1 := { basebandReady.l1 with
      trxInitialized := true
      tpuLoopRunning := true
      tpuLoopPhase := .search
      scan := { basebandReady.l1.scan with receiverScanState := .complete }
      log := [.returned (.candidates [plainCandidate])] } }

/-- The statements of `gsm_l1_search_fcch` up to its first command, and the frames before the first
    result; the result has the status given. -/
def searchRun (status : UInt16) : List Action :=
  statements 7 ++ frames 1 ++ statements 5 ++ frames 4 ++ statements 4 ++ frames 4
    ++ [frameWith status 1]

/-- The theorem in a search that finds a burst in its first window. -/
theorem commands_alternate_found :
    ∃ w : World, (w.l1.fcchDetected = true ∧ w.l1.fcchWindow = 1) ∧
      alternates w.l1.log = true ∧ w.l1.fcchWindow ≤ fcchSearchWindowCount := by
  have hrun : ∃ w, Reachable (step plainBoard) withinCall
      (startCall (.searchFcch plainCandidate) scannedWorld) w ∧
        (w.l1.fcchDetected = true ∧ w.l1.fcchWindow = 1) :=
    exists_reachable_of_run (searchRun 2) (by decide +kernel)
  obtain ⟨w, h, hfound⟩ := hrun
  exact ⟨w, hfound, commands_alternate plainBoard (.searchFcch plainCandidate) (.inl rfl)
    ⟨by decide, by decide⟩ (by decide) h⟩

/-- A decoding that has run out of time at once leaves its request, with `TPU_LOOP_COMPLETE`. When an
    interrupt takes it between two statements of a search that follows, the handler collects the result
    of a refinement for which no command has been sent. -/
theorem commands_not_alternate :
    ∃ w₀, Reachable (step plainBoard) (fun _ _ => True) basebandReady w₀ ∧
      (w₀.task = .idle ∧ w₀.l1.tpuLoopPhase = .complete) ∧
      ∃ w, Reachable (step plainBoard) withinCall
        (startCall (.searchFcch plainCandidate) w₀) w ∧ alternates w.l1.log = false := by
  have hrun : ∃ w₀, Reachable (step plainBoard) (fun _ _ => True) basebandReady w₀ ∧
      (w₀.task = .idle ∧ w₀.l1.tpuLoopPhase = .complete) ∧
      (run (guarded (step plainBoard) withinCall)
        (statements 1 ++ frames 1 ++ statements 4 ++ frames 6)
        (startCall (.searchFcch plainCandidate) w₀)).any
          (fun w => decide (alternates w.l1.log = false)) = true :=
    exists_reachable_of_run
      (initRun ++ .call (.decodeSch plainCandidate plainReport) :: statements 5 ++ [.main false]
        ++ statements 1) (by decide +kernel)
  obtain ⟨w₀, h₀, hidle, hsearch⟩ := hrun
  exact ⟨w₀, h₀, hidle, exists_reachable_of_run _ hsearch⟩

end Pmb887x.GsmL1
