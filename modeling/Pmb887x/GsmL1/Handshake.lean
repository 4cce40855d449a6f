import Pmb887x.GsmL1.Calls
import Pmb887x.GsmL1.Transitions

set_option autoImplicit false

/-! # The commands of an acquisition

The interrupt handler asks for a command by raising `fcch_scan_state` to a request and holds its phase
until the main thread has executed the command and lowered the state again. `L1.Shape` says what the
states, the phases and the commands in flight have to do with each other while the main thread is
between two commands, `L1.Held` while it is in the middle of one. -/

namespace Pmb887x.GsmL1

open Library

/-! ## Commands in flight -/

/-- The `FC_INIT` commands of the current call whose results have not been collected. -/
def inFlight : List Event → Nat
  | [] => 0
  | e :: log =>
      match e with
      | .called _ => 0
      | .fcchCollected _ _ => 0
      | .refinementCollected _ => 0
      | .fcInit _ => inFlight log + 1
      | _ => inFlight log

/-- The current call has switched the baseband off. -/
def basebandOffIssued : List Event → Bool
  | [] => false
  | e :: log =>
      match e with
      | .called _ => false
      | .basebandOff => true
      | _ => basebandOffIssued log

/-- The last `FC_INIT` of the current call came after the baseband had been switched off. -/
def armed : List Event → Bool
  | [] => false
  | e :: log =>
      match e with
      | .called _ => false
      | .fcInit _ => basebandOffIssued log
      | _ => armed log

/-- In the current call a command is sent only when none is in flight, and a result is collected only
    when there is one command in flight that came after the baseband had been switched off. -/
def alternates : List Event → Bool
  | [] => true
  | e :: log =>
      match e with
      | .called _ => true
      | .fcInit _ => inFlight log == 0 && alternates log
      | .fcchCollected _ _ => inFlight log == 1 && armed log && alternates log
      | .refinementCollected _ => inFlight log == 1 && armed log && alternates log
      | _ => alternates log

theorem basebandOffIssued_of_armed (log : List Event) (h : armed log = true) :
    basebandOffIssued log = true := by
  induction log with
  | nil => exact h
  | cons e log ih =>
      cases e with
      | called call => exact h
      | basebandOff => rfl
      | fcInit refinement => exact h
      | _ => exact ih h

/-- What the log says about the commands. -/
structure SameCommands (log log' : List Event) : Prop where
  inFlight : inFlight log' = inFlight log
  basebandOff : basebandOffIssued log' = basebandOffIssued log
  armed : armed log' = armed log
  alternates : alternates log' = alternates log

theorem SameCommands.refl (log : List Event) : SameCommands log log := ⟨rfl, rfl, rfl, rfl⟩

theorem sameCommands_monitor (events log : List Event) (h : ∀ e ∈ events, e.IsMonitor) :
    SameCommands log (events ++ log) where
  inFlight := eq_of_monitor (fun _ _ _ => rfl) events log h
  basebandOff := eq_of_monitor (fun _ _ _ => rfl) events log h
  armed := eq_of_monitor (fun _ _ _ => rfl) events log h
  alternates := eq_of_monitor (fun _ _ _ => rfl) events log h

/-! ## Between two commands -/

/-- The states in which the main thread finds a command to execute. -/
def FcchScanState.Commanded : FcchScanState → Prop
  | .bbOffRequested => True
  | .commandRequested => True
  | .refinementBbOffRequested => True
  | .refinementCommandRequested => True
  | _ => False

instance : DecidablePred FcchScanState.Commanded := fun state => by
  cases state <;> first | exact .isTrue trivial | exact .isFalse id

/-- The phases of a search without a command in flight. -/
def FcchTpuPhase.BeforeCommand : FcchTpuPhase → Prop
  | .rfQuietFirst => True
  | .rfQuietSecond => True
  | .rfInitialization => True
  | .prepareFirst => True
  | .retryDelay => True
  | _ => False

/-- The phases of a search with a command in flight. -/
def FcchTpuPhase.AfterCommand : FcchTpuPhase → Prop
  | .prepareSecond => True
  | .start => True
  | .holdFirst => True
  | .holdSecond => True
  | .finish => True
  | _ => False

/-- The phases of a refinement with a command in flight. -/
def FcchTpuPhase.AfterRefinementCommand : FcchTpuPhase → Prop
  | .rfQuietFirst => True
  | .rfQuietSecond => True
  | .rfInitialization => True
  | .refinementPrepare => True
  | .refinementStart => True
  | .refinementWaitResult => True
  | _ => False

/-- A frame of a search. -/
inductive L1.Searching (s : L1) : Prop where
  | off (htpu : s.fcchTpuPhase = .rfQuietFirst) (hstate : s.fcchScanState = .bbOffRequested)
      (hflight : inFlight s.log = 0) : L1.Searching s
  | before (htpu : s.fcchTpuPhase.BeforeCommand) (hstate : s.fcchScanState = .active)
      (hoff : basebandOffIssued s.log = true) (hflight : inFlight s.log = 0) : L1.Searching s
  | command (htpu : s.fcchTpuPhase = .prepareSecond) (hstate : s.fcchScanState = .commandRequested)
      (hoff : basebandOffIssued s.log = true) (hflight : inFlight s.log = 0) : L1.Searching s
  | after (htpu : s.fcchTpuPhase.AfterCommand) (hstate : s.fcchScanState = .active)
      (harmed : armed s.log = true) (hflight : inFlight s.log = 1) : L1.Searching s

/-- A frame of a refinement. -/
inductive L1.Refining (s : L1) : Prop where
  | off (htpu : s.fcchTpuPhase = .rfQuietFirst)
      (hstate : s.fcchScanState = .refinementBbOffRequested)
      (hflight : inFlight s.log = 0) : L1.Refining s
  | command (htpu : s.fcchTpuPhase = .refinementPrepare)
      (hstate : s.fcchScanState = .refinementCommandRequested)
      (hoff : basebandOffIssued s.log = true) (hflight : inFlight s.log = 0) : L1.Refining s
  | after (htpu : s.fcchTpuPhase.AfterRefinementCommand)
      (hstate : s.fcchScanState = .refinementActive) (harmed : armed s.log = true)
      (hflight : inFlight s.log = 1) : L1.Refining s

/-- The main thread is not in the middle of a command. -/
def L1.Shape (s : L1) : Prop :=
  match s.tpuLoopPhase with
  | .search =>
      (s.fcchScanState.Commanded → inFlight s.log = 0) ∧
        (s.fcchScanState = .requested → inFlight s.log = 0 ∧ s.schScanState ≠ .active)
  | .fcch =>
      (s.Searching ∧ s.schScanState ≠ .active ∧ s.fcchWindow < fcchSearchWindowCount) ∨
        (s.Refining ∧ s.schScanState = .active)
  | .sch =>
      s.fcchScanState = .refinementComplete ∧ s.schScanState = .active ∧
        inFlight s.log = 0 ∧ basebandOffIssued s.log = true
  | .complete =>
      (s.fcchScanState.Commanded → inFlight s.log = 0) ∧
        (s.schScanState = .requested → inFlight s.log = 0 ∧ ¬ s.fcchScanState.Commanded)
  | _ => False

theorem L1.Shape.fcch {s : L1} (hs : s.Shape) (h : s.tpuLoopPhase = .fcch) :
    (s.Searching ∧ s.schScanState ≠ .active ∧ s.fcchWindow < fcchSearchWindowCount) ∨
      (s.Refining ∧ s.schScanState = .active) := by
  simpa only [L1.Shape, h] using hs

theorem L1.Shape.sch {s : L1} (hs : s.Shape) (h : s.tpuLoopPhase = .sch) :
    s.fcchScanState = .refinementComplete ∧ s.schScanState = .active ∧
      inFlight s.log = 0 ∧ basebandOffIssued s.log = true := by
  simpa only [L1.Shape, h] using hs

theorem L1.Shape.search {s : L1} (hs : s.Shape) (h : s.tpuLoopPhase = .search) :
    (s.fcchScanState.Commanded → inFlight s.log = 0) ∧
      (s.fcchScanState = .requested → inFlight s.log = 0 ∧ s.schScanState ≠ .active) := by
  simpa only [L1.Shape, h] using hs

theorem L1.Shape.complete {s : L1} (hs : s.Shape) (h : s.tpuLoopPhase = .complete) :
    (s.fcchScanState.Commanded → inFlight s.log = 0) ∧
      (s.schScanState = .requested → inFlight s.log = 0 ∧ ¬ s.fcchScanState.Commanded) := by
  simpa only [L1.Shape, h] using hs

/-- A loop phase of the scan is `TPU_LOOP_SEARCH` here. -/
theorem L1.Shape.scanning {s : L1} (hs : s.Shape) (h : s.tpuLoopPhase.Scanning) :
    s.tpuLoopPhase = .search := by
  unfold L1.Shape at hs
  split at hs
  · assumption
  · next hphase => exact absurd hphase h.1
  · next hphase => exact absurd hphase h.2.1
  · next hphase => exact absurd hphase h.2.2
  · exact hs.elim

/-- A collection in a search finds the handler behind its command. -/
theorem L1.Shape.finish {s : L1} (hs : s.Shape) (h : s.tpuLoopPhase = .fcch)
    (hphase : s.fcchTpuPhase = .finish) :
    s.fcchScanState = .active ∧ s.schScanState ≠ .active ∧ s.fcchWindow < fcchSearchWindowCount ∧
      armed s.log = true ∧ inFlight s.log = 1 := by
  rcases hs.fcch h with ⟨hsearching, hsch, hwindow⟩ | ⟨hrefining, -⟩
  · cases hsearching with
    | off htpu => rw [hphase] at htpu; cases htpu
    | before htpu => rw [hphase] at htpu; exact htpu.elim
    | command htpu => rw [hphase] at htpu; cases htpu
    | after htpu hstate harmed hflight => exact ⟨hstate, hsch, hwindow, harmed, hflight⟩
  · cases hrefining with
    | off htpu => rw [hphase] at htpu; cases htpu
    | command htpu => rw [hphase] at htpu; cases htpu
    | after htpu => rw [hphase] at htpu; exact htpu.elim

/-- A collection in a refinement finds the handler behind its command. -/
theorem L1.Shape.refinementWaitResult {s : L1} (hs : s.Shape) (h : s.tpuLoopPhase = .fcch)
    (hphase : s.fcchTpuPhase = .refinementWaitResult) :
    s.schScanState = .active ∧ armed s.log = true ∧ inFlight s.log = 1 := by
  rcases hs.fcch h with ⟨hsearching, -, -⟩ | ⟨hrefining, hsch⟩
  · cases hsearching with
    | off htpu => rw [hphase] at htpu; cases htpu
    | before htpu => rw [hphase] at htpu; exact htpu.elim
    | command htpu => rw [hphase] at htpu; cases htpu
    | after htpu => rw [hphase] at htpu; exact htpu.elim
  · cases hrefining with
    | off htpu => rw [hphase] at htpu; cases htpu
    | command htpu => rw [hphase] at htpu; cases htpu
    | after htpu hstate harmed hflight => exact ⟨hsch, harmed, hflight⟩

/-- A move of the handler in a search. -/
theorem L1.Searching.move {s : L1} {phase : FcchTpuPhase} (hs : s.Searching)
    (hsch : s.schScanState ≠ .active) (hmove : FcchMove s phase) :
    ({ s with fcchTpuPhase := phase } : L1).Searching := by
  cases hs with
  | off htpu hstate hflight =>
      cases hmove with
      | quietFirst h hoff => exact absurd hstate hoff
      | _ => simp_all
  | before htpu hstate hoff hflight =>
      cases hmove with
      | quietFirst => exact .before trivial hstate hoff hflight
      | quietSecond => exact .before trivial hstate hoff hflight
      | refine h hactive => exact absurd hactive hsch
      | search => exact .before trivial hstate hoff hflight
      | _ => simp_all [FcchTpuPhase.BeforeCommand]
  | command htpu hstate hoff hflight =>
      cases hmove with
      | start h hcommand => exact absurd hstate hcommand
      | _ => simp_all
  | after htpu hstate harmed hflight =>
      cases hmove with
      | start => exact .after trivial hstate harmed hflight
      | holdFirst => exact .after trivial hstate harmed hflight
      | holdSecond => exact .after trivial hstate harmed hflight
      | finish => exact .after trivial hstate harmed hflight
      | _ => simp_all [FcchTpuPhase.AfterCommand]

/-- A move of the handler in a refinement. -/
theorem L1.Refining.move {s : L1} {phase : FcchTpuPhase} (hs : s.Refining)
    (hsch : s.schScanState = .active) (hmove : FcchMove s phase) :
    ({ s with fcchTpuPhase := phase } : L1).Refining := by
  cases hs with
  | off htpu hstate hflight =>
      cases hmove with
      | quietFirst h hoff hrefine => exact absurd hstate hrefine
      | _ => simp_all
  | command htpu hstate hoff hflight =>
      cases hmove with
      | refinementStart h hcommand => exact absurd hstate hcommand
      | _ => simp_all
  | after htpu hstate harmed hflight =>
      cases hmove with
      | quietFirst => exact .after trivial hstate harmed hflight
      | quietSecond => exact .after trivial hstate harmed hflight
      | refine => exact .after trivial hstate harmed hflight
      | search h hinactive => exact absurd hsch hinactive
      | refinementStart => exact .after trivial hstate harmed hflight
      | refinementWait => exact .after trivial hstate harmed hflight
      | _ => simp_all [FcchTpuPhase.AfterRefinementCommand]

/-- Nothing that the shape is about has changed. -/
structure L1.Same (s s' : L1) : Prop where
  loop : s'.tpuLoopPhase = s.tpuLoopPhase
  tpu : s'.fcchTpuPhase = s.fcchTpuPhase
  state : s'.fcchScanState = s.fcchScanState
  sch : s'.schScanState = s.schScanState
  window : s'.fcchWindow = s.fcchWindow
  commands : SameCommands s.log s'.log

theorem L1.Searching.same {s s' : L1} (hs : s.Searching) (h : s.Same s') : s'.Searching := by
  cases hs with
  | off htpu hstate hflight =>
      exact .off (h.tpu.trans htpu) (h.state.trans hstate) (h.commands.inFlight.trans hflight)
  | before htpu hstate hoff hflight =>
      exact .before (h.tpu ▸ htpu) (h.state.trans hstate) (h.commands.basebandOff.trans hoff)
        (h.commands.inFlight.trans hflight)
  | command htpu hstate hoff hflight =>
      exact .command (h.tpu.trans htpu) (h.state.trans hstate) (h.commands.basebandOff.trans hoff)
        (h.commands.inFlight.trans hflight)
  | after htpu hstate harmed hflight =>
      exact .after (h.tpu ▸ htpu) (h.state.trans hstate) (h.commands.armed.trans harmed)
        (h.commands.inFlight.trans hflight)

theorem L1.Refining.same {s s' : L1} (hs : s.Refining) (h : s.Same s') : s'.Refining := by
  cases hs with
  | off htpu hstate hflight =>
      exact .off (h.tpu.trans htpu) (h.state.trans hstate) (h.commands.inFlight.trans hflight)
  | command htpu hstate hoff hflight =>
      exact .command (h.tpu.trans htpu) (h.state.trans hstate) (h.commands.basebandOff.trans hoff)
        (h.commands.inFlight.trans hflight)
  | after htpu hstate harmed hflight =>
      exact .after (h.tpu ▸ htpu) (h.state.trans hstate) (h.commands.armed.trans harmed)
        (h.commands.inFlight.trans hflight)

theorem L1.Shape.same {s s' : L1} (hs : s.Shape) (h : s.Same s') : s'.Shape := by
  unfold L1.Shape at hs ⊢
  rw [h.loop]
  split <;> split at hs <;> simp_all only [reduceCtorEq]
  · rw [h.state, h.sch, h.commands.inFlight]
    exact hs
  · rw [h.sch, h.window]
    exact hs.imp (fun hs => ⟨hs.1.same h, hs.2⟩) fun hs => ⟨hs.1.same h, hs.2⟩
  · rw [h.state, h.sch, h.commands.inFlight, h.commands.basebandOff]
    exact hs
  · rw [h.state, h.sch, h.commands.inFlight]
    exact hs

/-! ### One interrupt -/

theorem wrap32_window {n : Nat} (h : n < fcchSearchWindowCount) : wrap32 (n + 1) = n + 1 := by
  have hcount : fcchSearchWindowCount = 12 := rfl
  unfold wrap32
  omega

theorem collectSchResult_handshake (dsp : DspInput) (s : L1) :
    (collectSchResult dsp s).1.fcchScanState = s.fcchScanState ∧
      (collectSchResult dsp s).1.schScanState = s.schScanState ∧
      (collectSchResult dsp s).1.tpuLoopPhase = s.tpuLoopPhase ∧
      SameCommands s.log (collectSchResult dsp s).1.log := by
  simp only [collectSchResult]
  split_ifs <;> exact ⟨rfl, rfl, rfl, ⟨rfl, rfl, rfl, rfl⟩⟩

/-- The interrupt keeps the shape. -/
theorem L1.Shape.transition {board : Board} {dsp : DspInput} {s s' : L1} (hs : s.Shape)
    (h : Transition board dsp s s') : s'.Shape := by
  cases h with
  | hold => exact hs
  | scan f hf =>
      have hsearch := hs.scanning hf.before
      have hlog := sameCommands_monitor f.events s.log hf.events
      obtain ⟨hcommanded, hrequested⟩ := hs.search hsearch
      simp only [L1.Shape, ScanFrame.apply, hf.search hsearch, hlog.inFlight]
      exact ⟨hcommanded, hrequested⟩
  | searchStart f hf hrequest =>
      have hlog := sameCommands_monitor f.events s.log hf.events
      obtain ⟨hflight, hsch⟩ := (hs.search (hs.scanning hf.before)).2 hrequest
      exact .inl ⟨.off rfl rfl (hlog.inFlight.trans hflight), hsch, Nat.succ_pos _⟩
  | move h phase hmove =>
      simp only [L1.Shape, h]
      rcases hs.fcch h with ⟨hsearching, hsch, hwindow⟩ | ⟨hrefining, hsch⟩
      · exact .inl ⟨by simpa only [h] using hsearching.move hsch hmove, hsch, hwindow⟩
      · exact .inr ⟨by simpa only [h] using hrefining.move hsch hmove, hsch⟩
  | prepare h hphase =>
      simp only [L1.Shape, h]
      rcases hs.fcch h with ⟨hsearching, hsch, hwindow⟩ | ⟨hrefining, hsch⟩
      · cases hsearching with
        | before htpu hstate hoff hflight =>
            exact .inl ⟨.command rfl rfl hoff hflight, hsch, hwindow⟩
        | _ => rcases hphase with hphase | hphase <;> simp_all [FcchTpuPhase.AfterCommand]
      · cases hrefining <;> rcases hphase with hphase | hphase <;>
          simp_all [FcchTpuPhase.AfterRefinementCommand]
  | found h hphase =>
      obtain ⟨-, hsch, -⟩ := hs.finish h hphase
      exact ⟨fun h => h.elim, fun _ => ⟨rfl, id⟩⟩
  | notFound h hphase =>
      exact ⟨fun h => h.elim, fun _ => ⟨rfl, id⟩⟩
  | nextWindow h hphase hready hvalid hmore =>
      obtain ⟨hstate, hsch, hwindow, harmed, -⟩ := hs.finish h hphase
      rw [wrap32_window hwindow] at hmore
      have hnext : (fcchTaken dsp s).fcchWindow < fcchSearchWindowCount :=
        (wrap32_window hwindow).trans_lt (Nat.lt_of_le_of_ne hwindow hmore)
      simp only [L1.Shape, fcchTaken, L1.event, h]
      exact .inl ⟨.before trivial hstate (basebandOffIssued_of_armed _ harmed) rfl, hsch, hnext⟩
  | restart h hphase hready hvalid hmore hstate =>
      obtain ⟨hactive, -⟩ := hs.finish h hphase
      rw [hstate] at hactive
      cases hactive
  | accepted h hphase =>
      obtain ⟨hsch, harmed, -⟩ := hs.refinementWaitResult h hphase
      exact ⟨rfl, hsch, rfl, basebandOffIssued_of_armed _ harmed⟩
  | gaveUp => exact ⟨fun h => h.elim, fun h => by cases h⟩
  | rejected h hphase =>
      obtain ⟨hsch, harmed, -⟩ := hs.refinementWaitResult h hphase
      simp only [L1.Shape, refinementTaken, L1.event, h]
      exact .inr ⟨.command rfl rfl (basebandOffIssued_of_armed _ harmed) rfl, hsch⟩
  | received h hphase =>
      simp only [L1.Shape, setTpuCorrection, L1.event, h]
      exact hs.sch h
  | schRetry h hphase =>
      obtain ⟨hstate, hsch, hphase', hlog⟩ := collectSchResult_handshake dsp s
      simp only [L1.Shape, hphase', h, hstate, hsch, hlog.inFlight, hlog.basebandOff]
      exact hs.sch h
  | schDone h hphase =>
      obtain ⟨hstate, -, -, -⟩ := collectSchResult_handshake dsp s
      refine ⟨fun hcommanded => ?_, fun h => by cases h⟩
      have hcomplete := hstate.trans (hs.sch h).1
      simp only [schScanComplete, hcomplete] at hcommanded
      exact hcommanded.elim
  | refineAgain h =>
      obtain ⟨-, hsch, hflight, hoff⟩ := hs.sch h
      exact .inr ⟨.command rfl rfl hoff hflight, hsch⟩
  | candidate h hrequest =>
      obtain ⟨hflight, -⟩ := (hs.complete h).2 hrequest
      exact .inr ⟨.off rfl rfl hflight, rfl⟩

/-- The interrupt collects results in turn. -/
theorem L1.Shape.alternates {board : Board} {dsp : DspInput} {s s' : L1} (hs : s.Shape)
    (h : Transition board dsp s s') (halternates : alternates s.log = true) :
    alternates s'.log = true := by
  cases h with
  | scan f hf => exact (sameCommands_monitor f.events s.log hf.events).alternates.trans halternates
  | searchStart f hf =>
      exact (sameCommands_monitor f.events s.log hf.events).alternates.trans halternates
  | found h hphase =>
      obtain ⟨-, -, -, harmed, hflight⟩ := hs.finish h hphase
      simp [fcchFound, fcchTaken, L1.event, GsmL1.alternates, harmed, hflight, halternates]
  | notFound h hphase =>
      obtain ⟨-, -, -, harmed, hflight⟩ := hs.finish h hphase
      simp [fcchTaken, L1.event, GsmL1.alternates, harmed, hflight, halternates]
  | nextWindow h hphase =>
      obtain ⟨-, -, -, harmed, hflight⟩ := hs.finish h hphase
      simp [fcchTaken, L1.event, GsmL1.alternates, harmed, hflight, halternates]
  | restart h hphase =>
      obtain ⟨-, -, -, harmed, hflight⟩ := hs.finish h hphase
      simp [fcchTaken, L1.event, GsmL1.alternates, harmed, hflight, halternates]
  | accepted h hphase =>
      obtain ⟨-, harmed, hflight⟩ := hs.refinementWaitResult h hphase
      simp [refinementAccepted, schScanStart, publishSchFrame, setTpuCorrection, refinementTaken,
        gsmBoardSetFrequencyCorrectionHz, L1.event, GsmL1.alternates, harmed, hflight, halternates]
  | gaveUp h hphase =>
      obtain ⟨-, harmed, hflight⟩ := hs.refinementWaitResult h hphase
      simp [schScanComplete, refinementTaken, L1.event, GsmL1.alternates, harmed, hflight,
        halternates]
  | rejected h hphase =>
      obtain ⟨-, harmed, hflight⟩ := hs.refinementWaitResult h hphase
      simp [refinementTaken, L1.event, GsmL1.alternates, harmed, hflight, halternates]
  | schRetry =>
      obtain ⟨-, -, -, hlog⟩ := collectSchResult_handshake dsp s
      exact hlog.alternates.trans halternates
  | schDone =>
      obtain ⟨-, -, -, hlog⟩ := collectSchResult_handshake dsp s
      exact hlog.alternates.trans halternates
  | _ => exact halternates

/-- The interrupt keeps the window count within its limit. -/
theorem L1.Shape.window {board : Board} {dsp : DspInput} {s s' : L1} (hs : s.Shape)
    (h : Transition board dsp s s') (hwindow : s.fcchWindow ≤ fcchSearchWindowCount) :
    s'.fcchWindow ≤ fcchSearchWindowCount := by
  have hnext : ∀ (h : s.tpuLoopPhase = .fcch) (hphase : s.fcchTpuPhase = .finish),
      wrap32 (s.fcchWindow + 1) ≤ fcchSearchWindowCount := by
    intro h hphase
    obtain ⟨-, -, hbelow, -⟩ := hs.finish h hphase
    exact (wrap32_window hbelow).trans_le hbelow
  cases h with
  | searchStart => exact Nat.zero_le _
  | found h hphase => exact hnext h hphase
  | notFound h hphase => exact hnext h hphase
  | nextWindow h hphase => exact hnext h hphase
  | restart h hphase => exact hnext h hphase
  | schRetry =>
      simp only [collectSchResult]
      split_ifs <;> exact hwindow
  | schDone =>
      simp only [collectSchResult]
      split_ifs <;> exact hwindow
  | _ => exact hwindow

/-! ## In the middle of a command -/

/-- The handler waits in its phase for the command that `state` asks for. -/
def L1.Waits (s : L1) : FcchScanState → Prop
  | .bbOffRequested =>
      s.fcchTpuPhase = .rfQuietFirst ∧ s.schScanState ≠ .active ∧
        s.fcchWindow < fcchSearchWindowCount
  | .commandRequested =>
      s.fcchTpuPhase = .prepareSecond ∧ s.schScanState ≠ .active ∧
        s.fcchWindow < fcchSearchWindowCount
  | .refinementBbOffRequested => s.fcchTpuPhase = .rfQuietFirst ∧ s.schScanState = .active
  | .refinementCommandRequested => s.fcchTpuPhase = .refinementPrepare ∧ s.schScanState = .active
  | _ => False

/-- The state stays at `state` until the main thread lowers it: the handler waits, or it has left the
    acquisition and does not come back. -/
structure L1.Held (s : L1) (state : FcchScanState) : Prop where
  stays : s.fcchScanState = state
  phase : (s.tpuLoopPhase = .fcch ∧ s.Waits state) ∨ s.tpuLoopPhase = .search ∨
    (s.tpuLoopPhase = .complete ∧ s.schScanState ≠ .requested)

theorem L1.Held.waits {s : L1} {state : FcchScanState} (hs : s.Held state)
    (h : s.tpuLoopPhase = .fcch) : s.Waits state := by
  rcases hs.phase with ⟨-, hwaits⟩ | hphase | ⟨hphase, -⟩
  · exact hwaits
  · rw [h] at hphase; cases hphase
  · rw [h] at hphase; cases hphase

theorem L1.Shape.held {s : L1} (hs : s.Shape) {state : FcchScanState}
    (hstate : s.fcchScanState = state) (hcommanded : state.Commanded) : s.Held state := by
  refine ⟨hstate, ?_⟩
  have hcomplete : s.tpuLoopPhase = .complete → s.schScanState ≠ .requested := fun h hsch =>
    ((hs.complete h).2 hsch).2 (hstate ▸ hcommanded)
  cases h : s.tpuLoopPhase with
  | search => exact .inr (.inl rfl)
  | complete => exact .inr (.inr ⟨rfl, hcomplete h⟩)
  | sch =>
      rw [(hs.sch h).1] at hstate
      exact absurd hcommanded (by rw [← hstate]; exact id)
  | fcch =>
      refine .inl ⟨rfl, ?_⟩
      rcases hs.fcch h with ⟨hsearching, hsch, hwindow⟩ | ⟨hrefining, hsch⟩
      · cases hsearching with
        | off htpu hrequest =>
            obtain rfl : FcchScanState.bbOffRequested = state := hrequest.symm.trans hstate
            exact ⟨htpu, hsch, hwindow⟩
        | command htpu hrequest =>
            obtain rfl : FcchScanState.commandRequested = state := hrequest.symm.trans hstate
            exact ⟨htpu, hsch, hwindow⟩
        | before htpu hactive | after htpu hactive =>
            rw [← hstate, hactive] at hcommanded
            exact hcommanded.elim
      · cases hrefining with
        | off htpu hrequest =>
            obtain rfl : FcchScanState.refinementBbOffRequested = state :=
              hrequest.symm.trans hstate
            exact ⟨htpu, hsch⟩
        | command htpu hrequest =>
            obtain rfl : FcchScanState.refinementCommandRequested = state :=
              hrequest.symm.trans hstate
            exact ⟨htpu, hsch⟩
        | after htpu hactive =>
            rw [← hstate, hactive] at hcommanded
            exact hcommanded.elim
  | _ => simp [L1.Shape, h] at hs

/-- No command is in flight when the handler asks for one. -/
theorem L1.Shape.inFlight {s : L1} (hs : s.Shape) (hcommanded : s.fcchScanState.Commanded) :
    inFlight s.log = 0 := by
  cases h : s.tpuLoopPhase with
  | search => exact (hs.search h).1 hcommanded
  | complete => exact (hs.complete h).1 hcommanded
  | sch => exact (hs.sch h).2.2.1
  | fcch =>
      rcases hs.fcch h with ⟨hsearching, -⟩ | ⟨hrefining, -⟩
      · cases hsearching <;> simp_all [FcchScanState.Commanded]
      · cases hrefining <;> simp_all [FcchScanState.Commanded]
  | _ => simp [L1.Shape, h] at hs

/-- The states that ask for `FC_INIT` alone. -/
def FcchScanState.InitCommanded (state : FcchScanState) : Prop :=
  state = .commandRequested ∨ state = .refinementCommandRequested

/-- The baseband is off when the handler asks for `FC_INIT` alone. -/
theorem L1.Shape.basebandOffIssued {s : L1} (hs : s.Shape) (h : s.tpuLoopPhase = .fcch)
    (hcommand : s.fcchScanState.InitCommanded) : basebandOffIssued s.log = true := by
  rcases hs.fcch h with ⟨hsearching, -⟩ | ⟨hrefining, -⟩
  · cases hsearching with
    | command htpu hstate hoff => exact hoff
    | _ => rcases hcommand with hcommand | hcommand <;> simp_all
  · cases hrefining with
    | command htpu hstate hoff => exact hoff
    | _ => rcases hcommand with hcommand | hcommand <;> simp_all

/-- A state that is held does not change in an interrupt. -/
theorem L1.Held.transition {board : Board} {dsp : DspInput} {s s' : L1} {state : FcchScanState}
    (hs : s.Held state) (hcommanded : state.Commanded) (h : Transition board dsp s s') :
    s'.Held state ∧ SameCommands s.log s'.log ∧
      s'.tpuLoopPhase = s.tpuLoopPhase ∧ s'.fcchWindow = s.fcchWindow := by
  have hstate := hs.stays
  cases h with
  | hold => exact ⟨hs, .refl _, rfl, rfl⟩
  | scan f hf =>
      have hsearch : s.tpuLoopPhase = .search := by
        rcases hs.phase with ⟨h, -⟩ | h | ⟨h, -⟩
        · exact absurd h hf.before.1
        · exact h
        · exact absurd h hf.before.2.2
      have hafter : (f.apply s).tpuLoopPhase = .search := hf.search hsearch
      exact ⟨⟨hstate, .inr (.inl hafter)⟩, sameCommands_monitor f.events s.log hf.events,
        hafter.trans hsearch.symm, rfl⟩
  | searchStart f hf hrequest =>
      rw [← hstate, hrequest] at hcommanded
      exact hcommanded.elim
  | candidate h hrequest =>
      rcases hs.phase with ⟨hphase, -⟩ | hphase | ⟨-, hsch⟩
      · rw [h] at hphase; cases hphase
      · rw [h] at hphase; cases hphase
      · exact absurd hrequest hsch
  | move h phase hmove =>
      have hwaits := hs.waits h
      cases state with
      | bbOffRequested => cases hmove <;> simp_all [L1.Waits]
      | commandRequested => cases hmove <;> simp_all [L1.Waits]
      | refinementBbOffRequested => cases hmove <;> simp_all [L1.Waits]
      | refinementCommandRequested => cases hmove <;> simp_all [L1.Waits]
      | _ => exact hcommanded.elim
  | received h | schRetry h | schDone h | refineAgain h =>
      rcases hs.phase with ⟨hphase, -⟩ | hphase | ⟨hphase, -⟩ <;> rw [h] at hphase <;> cases hphase
  | prepare h hphase =>
      have hwaits := hs.waits h
      cases state <;> simp_all [L1.Waits]
  | found h hphase | notFound h hphase | nextWindow h hphase | restart h hphase | accepted h hphase
  | gaveUp h hphase | rejected h hphase =>
      have hwaits := hs.waits h
      cases state <;> simp_all [L1.Waits]

/-- After a held state: what is left to show in each loop phase. -/
theorem L1.Held.shape_of {s s' : L1} {state : FcchScanState} (hs : s.Held state)
    (hphase : s'.tpuLoopPhase = s.tpuLoopPhase) (hsch : s'.schScanState = s.schScanState)
    (hflight : s'.fcchScanState.Commanded → GsmL1.inFlight s'.log = 0)
    (hrequested : s'.fcchScanState ≠ .requested)
    (hfcch : s.tpuLoopPhase = .fcch →
      (s'.Searching ∧ s'.schScanState ≠ .active ∧ s'.fcchWindow < fcchSearchWindowCount) ∨
        (s'.Refining ∧ s'.schScanState = .active)) : s'.Shape := by
  rcases hs.phase with ⟨h, -⟩ | h | ⟨h, hidle⟩
  · simp only [L1.Shape, hphase, h]
    exact hfcch h
  · simp only [L1.Shape, hphase, h]
    exact ⟨hflight, fun hrequest => absurd hrequest hrequested⟩
  · simp only [L1.Shape, hphase, h]
    exact ⟨hflight, fun hactive => absurd (hsch.symm.trans hactive) hidle⟩

/-- The command for a request has not been sent: `fcch_scan_state` stays a request. -/
theorem L1.Held.shape {s : L1} {state : FcchScanState} (hs : s.Held state)
    (hcommanded : state.Commanded) (hflight : GsmL1.inFlight s.log = 0)
    (hoff : s.tpuLoopPhase = .fcch → state.InitCommanded →
      GsmL1.basebandOffIssued s.log = true) : s.Shape := by
  refine hs.shape_of rfl rfl (fun _ => hflight) ?_ fun h => ?_
  · rw [hs.stays]
    rintro rfl
    exact hcommanded
  · have hwaits := hs.waits h
    cases state with
    | bbOffRequested => exact .inl ⟨.off hwaits.1 hs.stays hflight, hwaits.2⟩
    | commandRequested =>
        exact .inl ⟨.command hwaits.1 hs.stays (hoff h (.inl rfl)) hflight, hwaits.2⟩
    | refinementBbOffRequested => exact .inr ⟨.off hwaits.1 hs.stays hflight, hwaits.2⟩
    | refinementCommandRequested =>
        exact .inr ⟨.command hwaits.1 hs.stays (hoff h (.inr rfl)) hflight, hwaits.2⟩
    | _ => exact hcommanded.elim

/-- The baseband has been switched off for a search. -/
theorem L1.Held.lower_off {s : L1} (hs : s.Held .bbOffRequested)
    (hflight : GsmL1.inFlight s.log = 0) (hoff : GsmL1.basebandOffIssued s.log = true) :
    ({ s with fcchScanState := .active } : L1).Shape := by
  refine hs.shape_of rfl rfl (fun _ => hflight) (by simp) fun h => ?_
  obtain ⟨htpu, hsch, hwindow⟩ := hs.waits h
  exact .inl ⟨.before (by simp only [htpu]; trivial) rfl hoff hflight, hsch, hwindow⟩

/-- A search has been started. -/
theorem L1.Held.lower_command {s : L1} (hs : s.Held .commandRequested)
    (hflight : GsmL1.inFlight s.log = 1)
    (harmed : s.tpuLoopPhase = .fcch → GsmL1.armed s.log = true) :
    ({ s with fcchScanState := .active } : L1).Shape := by
  refine hs.shape_of rfl rfl (fun hactive => hactive.elim) (by simp) fun h => ?_
  obtain ⟨htpu, hsch, hwindow⟩ := hs.waits h
  exact .inl ⟨.after (by simp only [htpu]; trivial) rfl (harmed h) hflight, hsch, hwindow⟩

/-- A refinement has been started. -/
theorem L1.Held.lower_refinement {s : L1} {state : FcchScanState} (hs : s.Held state)
    (hstate : state = .refinementBbOffRequested ∨ state = .refinementCommandRequested)
    (hflight : GsmL1.inFlight s.log = 1)
    (harmed : s.tpuLoopPhase = .fcch → GsmL1.armed s.log = true) :
    ({ s with fcchScanState := .refinementActive } : L1).Shape := by
  refine hs.shape_of rfl rfl (fun hactive => hactive.elim) (by simp) fun h => ?_
  have hwaits := hs.waits h
  rcases hstate with rfl | rfl
  · exact .inr ⟨.after (by simp only [hwaits.1]; trivial) rfl (harmed h) hflight, hwaits.2⟩
  · exact .inr ⟨.after (by simp only [hwaits.1]; trivial) rfl (harmed h) hflight, hwaits.2⟩

/-! ## The main thread -/

/-- The request for which the baseband is switched off. -/
def offRequest (refinement : Bool) : FcchScanState :=
  if refinement then .refinementBbOffRequested else .bbOffRequested

/-- The requests for which `FC_INIT` is sent. -/
def initRequests (refinement : Bool) : List FcchScanState :=
  if refinement then [.refinementBbOffRequested, .refinementCommandRequested]
  else [.commandRequested]

theorem commanded_offRequest (refinement : Bool) : (offRequest refinement).Commanded := by
  cases refinement <;> trivial

theorem commanded_initRequests {refinement : Bool} {state : FcchScanState}
    (h : state ∈ initRequests refinement) : state.Commanded := by
  cases refinement <;> simp [initRequests] at h
  · rw [h]; trivial
  · rcases h with rfl | rfl <;> trivial

/-- What holds while the main thread executes a command. -/
def ExecutePc.Holds (s : L1) : ExecutePc → Prop
  | .switch => s.Shape
  | .basebandOff refinement => s.Held (offRequest refinement) ∧ inFlight s.log = 0
  | .awaitBasebandOff refinement =>
      s.Held (offRequest refinement) ∧ inFlight s.log = 0 ∧ basebandOffIssued s.log = true
  | .fcInit refinement =>
      ∃ state ∈ initRequests refinement, s.Held state ∧ inFlight s.log = 0 ∧
        (s.tpuLoopPhase = .fcch → basebandOffIssued s.log = true)
  | .lower refinement =>
      (refinement = false ∧ s.Held .bbOffRequested ∧ inFlight s.log = 0 ∧
          basebandOffIssued s.log = true) ∨
        ∃ state ∈ initRequests refinement, s.Held state ∧ inFlight s.log = 1 ∧
          (s.tpuLoopPhase = .fcch → armed s.log = true)

/-- What holds at the next position of the main thread. -/
def Executed.Holds (s : L1) : Executed → Prop
  | .running pc => pc.Holds s
  | .done => s.Shape
  | .failed => s.Shape

/-- A statement of the execution keeps what holds. -/
theorem ExecutePc.Holds.main {s : L1} {pc : ExecutePc} (hs : pc.Holds s) (ok : Bool) :
    (executeRequestedFcchCommand ok s pc).2.Holds (executeRequestedFcchCommand ok s pc).1 := by
  cases pc with
  | switch =>
      have hinit : ∀ state refinement, s.fcchScanState = state → state ∈ initRequests refinement →
          state.InitCommanded → (ExecutePc.fcInit refinement).Holds s := by
        intro state refinement hstate hmem hcommand
        have hcommanded := commanded_initRequests hmem
        exact ⟨state, hmem, hs.held hstate hcommanded,
          hs.inFlight (hstate ▸ hcommanded), fun h => hs.basebandOffIssued h (hstate ▸ hcommand)⟩
      have hoff : ∀ refinement, s.fcchScanState = offRequest refinement →
          (ExecutePc.basebandOff refinement).Holds s := by
        intro refinement hstate
        have hcommanded := commanded_offRequest refinement
        exact ⟨hs.held hstate hcommanded, hs.inFlight (hstate ▸ hcommanded)⟩
      simp only [executeRequestedFcchCommand]
      split
      · next hstate => exact hoff false hstate
      · next hstate => exact hoff true hstate
      · next hstate => exact hinit _ false hstate (by simp [initRequests]) (.inl rfl)
      · next hstate => exact hinit _ true hstate (by simp [initRequests]) (.inr rfl)
      · exact hs
  | basebandOff refinement => exact ⟨⟨hs.1.stays, hs.1.phase⟩, hs.2, rfl⟩
  | awaitBasebandOff refinement =>
      obtain ⟨hheld, hflight, hoff⟩ := hs
      cases ok with
      | false => exact hheld.shape (commanded_offRequest refinement) hflight fun _ _ => hoff
      | true =>
          cases refinement with
          | false => exact .inl ⟨rfl, hheld, hflight, hoff⟩
          | true =>
              exact ⟨.refinementBbOffRequested, by simp [initRequests], hheld, hflight,
                fun _ => hoff⟩
  | fcInit refinement =>
      obtain ⟨state, hmem, hheld, hflight, hoff⟩ := hs
      exact .inr ⟨state, hmem, ⟨hheld.stays, hheld.phase⟩, congrArg (· + 1) hflight, hoff⟩
  | lower refinement =>
      rcases hs with ⟨rfl, hheld, hflight, hoff⟩ | ⟨state, hmem, hheld, hflight, harmed⟩
      · exact hheld.lower_off hflight hoff
      · cases refinement with
        | false =>
            obtain rfl : state = .commandRequested := by simpa [initRequests] using hmem
            exact hheld.lower_command hflight harmed
        | true =>
            exact hheld.lower_refinement (by simpa [initRequests] using hmem) hflight harmed

/-- An interrupt keeps what holds. -/
theorem ExecutePc.Holds.transition {board : Board} {dsp : DspInput} {s s' : L1} {pc : ExecutePc}
    (hs : pc.Holds s) (h : Transition board dsp s s') : pc.Holds s' := by
  cases pc with
  | switch => exact L1.Shape.transition hs h
  | basebandOff refinement =>
      obtain ⟨hheld, hlog, -, -⟩ := hs.1.transition (commanded_offRequest refinement) h
      exact ⟨hheld, hlog.inFlight.trans hs.2⟩
  | awaitBasebandOff refinement =>
      obtain ⟨hheld, hlog, -, -⟩ := hs.1.transition (commanded_offRequest refinement) h
      exact ⟨hheld, hlog.inFlight.trans hs.2.1, hlog.basebandOff.trans hs.2.2⟩
  | fcInit refinement =>
      obtain ⟨state, hmem, hheld, hflight, hoff⟩ := hs
      obtain ⟨hheld', hlog, hphase, -⟩ := hheld.transition (commanded_initRequests hmem) h
      exact ⟨state, hmem, hheld', hlog.inFlight.trans hflight,
        fun hfcch => hlog.basebandOff.trans (hoff (hphase.symm.trans hfcch))⟩
  | lower refinement =>
      rcases hs with ⟨rfl, hheld, hflight, hoff⟩ | ⟨state, hmem, hheld, hflight, harmed⟩
      · obtain ⟨hheld', hlog, -, -⟩ := hheld.transition trivial h
        exact .inl ⟨rfl, hheld', hlog.inFlight.trans hflight, hlog.basebandOff.trans hoff⟩
      · obtain ⟨hheld', hlog, hphase, -⟩ := hheld.transition (commanded_initRequests hmem) h
        exact .inr ⟨state, hmem, hheld', hlog.inFlight.trans hflight,
          fun hfcch => hlog.armed.trans (harmed (hphase.symm.trans hfcch))⟩

/-- An interrupt collects results in turn, and no more than the search has windows. -/
theorem ExecutePc.Holds.collects {board : Board} {dsp : DspInput} {s s' : L1} {pc : ExecutePc}
    (hs : pc.Holds s) (h : Transition board dsp s s')
    (halternates : GsmL1.alternates s.log = true)
    (hwindow : s.fcchWindow ≤ fcchSearchWindowCount) :
    GsmL1.alternates s'.log = true ∧ s'.fcchWindow ≤ fcchSearchWindowCount := by
  have hheld : ∀ state : FcchScanState, state.Commanded → s.Held state →
      GsmL1.alternates s'.log = true ∧ s'.fcchWindow ≤ fcchSearchWindowCount := by
    intro state hcommanded hheld
    obtain ⟨-, hlog, -, hsame⟩ := hheld.transition hcommanded h
    exact ⟨hlog.alternates.trans halternates, hsame.trans_le hwindow⟩
  cases pc with
  | switch => exact ⟨L1.Shape.alternates hs h halternates, L1.Shape.window hs h hwindow⟩
  | basebandOff refinement => exact hheld _ (commanded_offRequest refinement) hs.1
  | awaitBasebandOff refinement => exact hheld _ (commanded_offRequest refinement) hs.1
  | fcInit refinement =>
      obtain ⟨state, hmem, hs, -⟩ := hs
      exact hheld state (commanded_initRequests hmem) hs
  | lower refinement =>
      rcases hs with ⟨-, hs, -⟩ | ⟨state, hmem, hs, -⟩
      · exact hheld .bbOffRequested trivial hs
      · exact hheld state (commanded_initRequests hmem) hs

/-- A statement of the execution sends commands in turn. -/
theorem ExecutePc.Holds.sends {s : L1} {pc : ExecutePc} (hs : pc.Holds s) (ok : Bool)
    (halternates : GsmL1.alternates s.log = true) :
    GsmL1.alternates (executeRequestedFcchCommand ok s pc).1.log = true := by
  cases pc with
  | fcInit refinement =>
      obtain ⟨state, hmem, hheld, hflight, hoff⟩ := hs
      simp [executeRequestedFcchCommand, L1.event, GsmL1.alternates, hflight, halternates]
  | _ => exact halternates

theorem executeRequestedFcchCommand_window (ok : Bool) (s : L1) (pc : ExecutePc) :
    (executeRequestedFcchCommand ok s pc).1.fcchWindow = s.fcchWindow := by
  cases pc <;> rfl

end Pmb887x.GsmL1
