import Pmb887x.GsmL1.State

set_option autoImplicit false

/-! # The frame interrupt of the GSM layer 1

`gsmL1TpuIrq` is the interrupt handler that runs once in every TDMA frame: it goes on with the channel
scan, the search for the frequency correction burst and the decoding of the synchronisation burst. What
the handler reads from the DSP is its input, `DspInput`. What it writes to the TPU and the transceiver
describes the next frame and is not read back, so of these writes only `TPU_CORRECTION` is kept. -/

namespace Pmb887x.GsmL1

open Library

/-- What the handler reads from the DSP: `DSP_COM_STATUS` where it decides whether a result is there
    and where it takes the result, and the words of the shared memory. -/
structure DspInput where
  comStatus : UInt16
  resultComStatus : UInt16
  fcch : List UInt16
  sch : List UInt16
  monitor : List UInt16

/-! ## Results -/

def findScanRange (channelIndex : Nat) : Option GsmScanRange :=
  gsmScanRanges.find? (fun range =>
    range.tableFirst ≤ channelIndex ∧ channelIndex < range.tableFirst + range.channelCount)

def gsmBoardSetFrequencyCorrectionHz (board : Board) (frequencyHz : Int) (s : L1) : L1 :=
  let frequencyHz :=
    if frequencyHz < board.minimumFrequency then board.minimumFrequency else frequencyHz
  let frequencyHz :=
    if frequencyHz > board.maximumFrequency then board.maximumFrequency else frequencyHz
  { s with frequencyCorrectionHz := frequencyHz }

/-- `TPU_CORRECTION = tick - 1` -/
def setTpuCorrection (tick : Nat) (s : L1) : L1 := s.event (.correction (sub32 tick 1))

def fcchStartToTpuPhaseTick (start : UInt16) : Nat :=
  let phaseTick : Int :=
    ((start.toNat % gsmBitsPerFrame * tpuTicksPerGsmBit : Nat) : Int) - fcchPhaseAdvanceTicks
  if phaseTick < 0 then (phaseTick + tpuFrameTicks).toNat else phaseTick.toNat

def readFcchResult (dsp : DspInput) : FcchResult where
  communicationFlags := dsp.resultComStatus &&& dspFcchCommunicationFlags
  status := dsp.fcch.getD 0 0
  start := dsp.fcch.getD 1 0
  quality := dsp.fcch.getD 2 0
  rms := (dsp.fcch.getD 3 0).toInt16.toInt
  frequency := (dsp.fcch.getD 4 0).toInt16.toInt

def isFcchResultValid (result : FcchResult) : Bool :=
  result.communicationFlags = 0 ∧ result.status = 2

def collectFcchResult (dsp : DspInput) (s : L1) : L1 :=
  let result := readFcchResult dsp
  let s := ({ s with
    fcchResult := result
    fcchWindow := wrap32 (s.fcchWindow + 1) }).event (.fcchCollected result s.currentCandidate)
  if isFcchResultValid result then
    { s with
      fcchDetected := true
      fcchCorrectionTick := fcchStartToTpuPhaseTick result.start
      fcchResultAfcFrequencyHz := s.fcchReferenceAfcFrequencyHz + result.frequency
      fcchScanState := .complete }
  else if s.fcchWindow ≠ fcchSearchWindowCount then s
  else { s with fcchScanState := .complete }

def collectFcchRefinementResult (board : Board) (dsp : DspInput) (s : L1) : L1 :=
  let result := readFcchResult dsp
  let s := ({ s with
    fcchRefinementResult := result
    fcchRefinementAttemptCount := wrap32 (s.fcchRefinementAttemptCount + 1) }).event
      (.refinementCollected result)
  if isFcchResultValid result then
    let s := gsmBoardSetFrequencyCorrectionHz board (s.frequencyCorrectionHz + result.frequency) s
    let s := { s with fcchCorrectionTick := fcchStartToTpuPhaseTick result.start }
    let s := setTpuCorrection s.fcchCorrectionTick s
    { s with fcchScanState := .refinementComplete }
  else if s.fcchRefinementAttemptCount = fcchRefinementAttemptLimit then
    { s with fcchScanState := .refinementFailed }
  else { s with fcchScanState := .refinementCommandRequested }

/-- `collect_sch_result`; the flag says whether the decoding is over. -/
def collectSchResult (dsp : DspInput) (s : L1) : L1 × Bool :=
  let result : SchResult :=
    { communicationFlags := dsp.resultComStatus &&& dspSchCommunicationFlag
      metric := dsp.sch.getD 0 0
      status := dsp.sch.getD 1 0
      data := (dsp.sch.getD 2 0, dsp.sch.getD 3 0)
      equalizerPosition := (dsp.sch.getD 4 0).toInt16.toInt }
  let s := ({ s with schResult := result, schAttemptCount := wrap32 (s.schAttemptCount + 1) }).event
    (.schCollected result)
  if result.communicationFlags = 0 ∧ result.status = 0 then (s, true)
  else (s, decide (s.schAttemptCount = schAttemptLimit))

/-! ## The channel scan -/

/-- One monitored channel of `collect_monitor_results`. -/
def collectMonitorResult (board : Board) (results : Nat → ChannelScanResult) (channel : Nat)
    (gainState raw : UInt16) : Nat → ChannelScanResult :=
  match findScanRange channel with
  | none => results
  | some range =>
      Function.update results channel
        { results channel with
          levelDbmX16 := Int.bmod (board.rxLevelDbmX16 range.band channel gainState raw) (2 ^ 16)
          measurements := wrap32 ((results channel).measurements + 1)
          gainState := board.nextGainState range.band channel gainState raw }

def collectMonitorResults (board : Board) (dsp : DspInput) (scan : Scan) : Scan :=
  (List.range gsmTrxMonitorCount).foldl (fun scan i =>
    let raw := dsp.monitor.getD i 0
    let channel := scan.scanRequestChannels.getD i gsmChannelNone
    if raw = 0xFFFF ∨ channel = gsmChannelNone then scan
    else { scan with
      scanResults := collectMonitorResult board scan.scanResults channel
        (scan.scanRequestGainStates.getD i 0) raw }) scan

def buildChannelScanRequest (scan : Scan) : Scan :=
  { scan with
    scanRequestChannels := (List.range gsmTrxMonitorCount).map (fun (i : Nat) =>
      let position := scan.scanWindowStart + i
      if position ≥ 0 ∧ position < scan.scanChannels.length then
        scan.scanChannels.getD position.toNat gsmChannelNone
      else gsmChannelNone) }

def channelScanStartPass (scan : Scan) : Scan :=
  let phase : Int := ↑(scan.scanPass % scanWindowStride)
  { scan with
    scanWindowStart := if phase > gsmTrxMonitorCount then phase - scanWindowStride else phase }

/-- The request behind the one that is finished; the flag says whether there is one. -/
def channelScanNext (scan : Scan) : Scan × Bool :=
  let publish := fun (scan : Scan) =>
    let scan := buildChannelScanRequest scan
    ({ scan with scanWindowStart := scan.scanWindowStart + scanWindowStride }, true)
  if scan.scanWindowStart ≥ scan.scanChannels.length then
    let scan := { scan with scanPass := scan.scanPass + 1 }
    if scan.scanPass = scanPassCount then ({ scan with receiverScanState := .complete }, false)
    else publish (channelScanStartPass scan)
  else publish scan

/-- `channel_scan_advance`, with what it collects. -/
def channelScanAdvance (board : Board) (dsp : DspInput) (scan : Scan) :
    Scan × Bool × List Event :=
  match scan.receiverScanState with
  | .active =>
      if !scan.scanRequestRepeated then ({ scan with scanRequestRepeated := true }, true, [])
      else
        let collected := Event.monitorCollected scan.scanRequestChannels scan.scanRequestGainStates
        let scan := collectMonitorResults board dsp scan
        let next := channelScanNext { scan with scanRequestRepeated := false }
        (next.1, next.2, [collected])
  | .requested =>
      let next := channelScanNext (channelScanStartPass
        { scan with receiverScanState := .active, scanPass := 0, scanRequestRepeated := false })
      (next.1, next.2, [])
  | .idle => (scan, false, [])
  | .complete => (scan, false, [])

/-- The gain states of `configure_monitoring_frame`. -/
def configureMonitoringFrame (board : Board) (scan : Scan) : Scan :=
  { scan with
    scanRequestGainStates := scan.scanRequestChannels.map (fun channel =>
      if channel ≠ gsmChannelNone then (scan.scanResults channel).gainState
      else board.initialGainState) }

/-! ## Frames -/

def publishSchFrame (s : L1) : L1 := setTpuCorrection s.fcchCorrectionTick s

def schScanStart (s : L1) : L1 :=
  publishSchFrame { s with tpuLoopPhase := .sch, schTpuPhase := .receive }

def schCandidateStart (board : Board) (s : L1) : L1 :=
  let s := ({ s with fcchRefinementAttemptCount := 0, schAttemptCount := 0 }).event .candidateStarted
  let s := gsmBoardSetFrequencyCorrectionHz board s.fcchResultAfcFrequencyHz s
  let s := setTpuCorrection s.fcchCorrectionTick s
  { s with
    schScanState := .active
    tpuLoopPhase := .fcch
    fcchScanState := .refinementBbOffRequested
    fcchTpuPhase := .rfQuietFirst }

def fcchScanStart (s : L1) : L1 :=
  { s with
    tpuLoopPhase := .fcch
    fcchScanState := .bbOffRequested
    fcchWindow := 0
    fcchCorrectionTick := 0
    fcchReferenceAfcFrequencyHz := s.frequencyCorrectionHz
    fcchTpuPhase := .rfQuietFirst }

def schScanComplete (s : L1) : L1 :=
  { s with schScanState := .complete, tpuLoopPhase := .complete }

def publishNextSearchFrame (board : Board) (dsp : DspInput) (s : L1) : L1 :=
  let advanced := channelScanAdvance board dsp s.scan
  let s := { s with scan := advanced.1, log := advanced.2.2 ++ s.log }
  if advanced.2.1 then { s with scan := configureMonitoringFrame board s.scan }
  else if s.scan.receiverScanState = .complete ∧ s.fcchScanState = .requested then fcchScanStart s
  else s

/-- Both flags of the frequency correction burst are clear. -/
def DspInput.fcchReady (dsp : DspInput) : Bool := dsp.comStatus &&& dspFcchCommunicationFlags = 0

def DspInput.schReady (dsp : DspInput) : Bool := dsp.comStatus &&& dspSchCommunicationFlag = 0

/-- The last phase of a refinement. -/
def finishRefinement (board : Board) (dsp : DspInput) (s : L1) : L1 :=
  let s := collectFcchRefinementResult board dsp s
  match s.fcchScanState with
  | .refinementComplete => schScanStart s
  | .refinementFailed => schScanComplete s
  | _ => { s with fcchTpuPhase := .refinementPrepare }

/-- The last phase of a search window. -/
def finishSearchWindow (dsp : DspInput) (s : L1) : L1 :=
  let s := collectFcchResult dsp s
  match s.fcchScanState with
  | .complete => { s with tpuLoopPhase := .complete }
  | .bbOffRequested => { s with fcchTpuPhase := .rfQuietFirst }
  | _ => { s with fcchTpuPhase := .retryDelay }

def publishNextFcchFrame (board : Board) (dsp : DspInput) (s : L1) : L1 :=
  match s.fcchTpuPhase with
  | .refinementPrepare =>
      if s.fcchScanState = .refinementCommandRequested then s
      else { s with fcchTpuPhase := .refinementStart }
  | .refinementStart => { s with fcchTpuPhase := .refinementWaitResult }
  | .refinementWaitResult => if !dsp.fcchReady then s else finishRefinement board dsp s
  | .rfQuietFirst =>
      if s.fcchScanState = .bbOffRequested ∨ s.fcchScanState = .refinementBbOffRequested then s
      else { s with fcchTpuPhase := .rfQuietSecond }
  | .rfQuietSecond => { s with fcchTpuPhase := .rfInitialization }
  | .rfInitialization =>
      if s.schScanState = .active then { s with fcchTpuPhase := .refinementPrepare }
      else { s with fcchTpuPhase := .prepareFirst }
  | .prepareFirst => { s with fcchTpuPhase := .prepareSecond, fcchScanState := .commandRequested }
  | .prepareSecond =>
      if s.fcchScanState = .commandRequested then s else { s with fcchTpuPhase := .start }
  | .start => { s with fcchTpuPhase := .holdFirst }
  | .holdFirst => { s with fcchTpuPhase := .holdSecond }
  | .holdSecond => { s with fcchTpuPhase := .finish }
  | .finish => if !dsp.fcchReady then s else finishSearchWindow dsp s
  | .retryDelay => { s with fcchTpuPhase := .prepareSecond, fcchScanState := .commandRequested }

def publishNextSchFrame (dsp : DspInput) (s : L1) : L1 :=
  match s.schTpuPhase with
  | .receive =>
      if !dsp.schReady then s
      else { setTpuCorrection tpuSchResultBoundaryTick s with schTpuPhase := .resultBoundary }
  | .resultBoundary =>
      let collected := collectSchResult dsp s
      if !collected.2 then { collected.1 with schTpuPhase := .retryDelay }
      else schScanComplete collected.1
  | .retryDelay =>
      { s with
        tpuLoopPhase := .fcch
        fcchScanState := .refinementCommandRequested
        fcchTpuPhase := .refinementPrepare }

def publishNextTpuFrame (board : Board) (dsp : DspInput) (s : L1) : L1 :=
  match s.tpuLoopPhase with
  | .rfPowerUp => { s with tpuLoopPhase := .rfInitialization }
  | .ready =>
      if s.tpuRfTransitionFrame ≤ tpuRfQuietFrameCount then
        { s with tpuRfTransitionFrame := s.tpuRfTransitionFrame + 1 }
      else if s.scan.receiverScanState = .requested then
        publishNextSearchFrame board dsp { s with tpuLoopPhase := .search }
      else s
  | .search => publishNextSearchFrame board dsp s
  | .fcch => publishNextFcchFrame board dsp s
  | .sch => publishNextSchFrame dsp s
  | .complete => if s.schScanState = .requested then schCandidateStart board s else s
  | .rfInitialization => s

def gsmL1TpuIrq (board : Board) (dsp : DspInput) (s : L1) : L1 :=
  if s.tpuLoopPhase = .rfInitialization then
    publishNextTpuFrame board dsp { s with rfInitializationComplete := true, tpuLoopPhase := .ready }
  else publishNextTpuFrame board dsp s

end Pmb887x.GsmL1
