import Pmb887x.GsmL1.Tpu
import Pmb887x.Library.Machine

set_option autoImplicit false

/-! # The calls of the GSM layer 1

A call runs on the main thread while the frame interrupt goes on. `Task` is the statement the main
thread stands before; between two statements any number of interrupts may come. Time is up to the
environment: the flag of a step says whether a loop still has time left, or whether a command has been
acknowledged in time. -/

namespace Pmb887x.GsmL1

open Library

/-! ## Positions -/

/-- `execute_requested_fcch_command`; the flag says whether the command belongs to a refinement. -/
inductive ExecutePc where
  | switch
  | basebandOff (refinement : Bool)
  | awaitBasebandOff (refinement : Bool)
  | fcInit (refinement : Bool)
  /-- `fcch_scan_state = FCCH_SCAN_ACTIVE`, or `FCCH_SCAN_REFINEMENT_ACTIVE` -/
  | lower (refinement : Bool)
  deriving DecidableEq

inductive TrxPc where
  | loopStart
  | loop
  | testComplete
  | testIdle
  | setFrequency
  | setInitialized
  deriving DecidableEq

inductive ScanPc where
  | clearSch
  | clearResults (channels : List Nat)
  | request
  | loop
  | testMeasured
  | select
  | clearFcch (candidates : List Candidate)
  deriving DecidableEq

inductive ReportField where
  | status
  | start
  | quality
  | rms
  | frequency
  | communicationFlags
  | phaseTick
  | afcFrequencyHz
  deriving DecidableEq

inductive SearchPc where
  | setCandidate
  | clearDetected
  | clearWindow
  | clearAfcFrequency
  /-- `fcch_scan_state = FCCH_SCAN_REQUESTED` -/
  | request
  /-- `tpu_loop_phase = TPU_LOOP_SEARCH` -/
  | setLoopPhase
  | setFrequency
  | loop
  | execute (pc : ExecutePc)
  | testComplete
  | reportDetected
  | reportAttemptCount
  | testWindow
  | reportResult (fields : List ReportField)
  deriving DecidableEq

inductive DecodePc where
  | setCandidate
  | setCorrectionTick
  | setAfcFrequency
  /-- `sch_scan_state = SCH_SCAN_REQUESTED` -/
  | request
  /-- `tpu_loop_phase = TPU_LOOP_COMPLETE` -/
  | setLoopPhase
  | loop
  | execute (pc : ExecutePc)
  | testComplete
  | report
  deriving DecidableEq

/-- What the main thread does next. -/
inductive Task where
  | idle
  | trxInit (pc : TrxPc)
  | scan (capacity : Nat) (pc : ScanPc)
  | search (candidate : Candidate) (pc : SearchPc)
  | decode (candidate : Candidate) (fcch : FcchReport) (pc : DecodePc)
  deriving DecidableEq

structure World where
  l1 : L1
  task : Task
  /-- `*result` of `gsm_l1_search_fcch` -/
  fcchReport : FcchReport

def World.returns (w : World) (result : Return) : World :=
  { w with task := .idle, l1 := w.l1.event (.returned result) }

/-! ## The polling loop -/

/-- What follows a statement of `execute_requested_fcch_command`. -/
inductive Executed where
  | running (pc : ExecutePc)
  | done
  | failed

def executeRequestedFcchCommand (ok : Bool) (s : L1) : ExecutePc → L1 × Executed
  | .switch =>
      (s, match s.fcchScanState with
        | .bbOffRequested => .running (.basebandOff false)
        | .refinementBbOffRequested => .running (.basebandOff true)
        | .commandRequested => .running (.fcInit false)
        | .refinementCommandRequested => .running (.fcInit true)
        | _ => .done)
  | .basebandOff refinement => (s.event .basebandOff, .running (.awaitBasebandOff refinement))
  | .awaitBasebandOff refinement =>
      (s, if !ok then .failed else if refinement then .running (.fcInit true)
        else .running (.lower false))
  | .fcInit refinement => (s.event (.fcInit refinement), .running (.lower refinement))
  | .lower refinement =>
      ({ s with fcchScanState := if refinement then .refinementActive else .active }, .done)

/-! ## `gsm_l1_trx_init` -/

def tpuLoopStart (s : L1) : L1 :=
  { s with
    tpuLoopPhase := .rfPowerUp
    tpuRfTransitionFrame := 0
    rfInitializationComplete := false
    tpuLoopRunning := true }

def trxInitStep (board : Board) (ok : Bool) (w : World) : TrxPc → World
  | .loopStart => { w with l1 := tpuLoopStart w.l1, task := .trxInit .loop }
  | .loop =>
      if !w.l1.rfInitializationComplete && ok then w else { w with task := .trxInit .testComplete }
  | .testComplete =>
      if !w.l1.rfInitializationComplete then w.returns .failed
      else { w with task := .trxInit .testIdle }
  | .testIdle => if !ok then w.returns .failed else { w with task := .trxInit .setFrequency }
  | .setFrequency =>
      { w with
        l1 := gsmBoardSetFrequencyCorrectionHz board w.l1.frequencyCorrectionHz w.l1
        task := .trxInit .setInitialized }
  | .setInitialized =>
      ({ w with l1 := { w.l1 with trxInitialized := true } } : World).returns .initialized

/-! ## `gsm_l1_scan_channels` -/

def fcchMinRxLevelDbmX16 : Int := -111 * 16
def fcchAdjacentSuppressionDbmX16 : Int := 8 * 16

def channelIndexToArfcn (channelIndex : Nat) : Nat :=
  match findScanRange channelIndex with
  | none => 0
  | some range => range.arfcnFirst + channelIndex - range.tableFirst

def excludeWeakerAdjacentFcchChannel (results : Nat → ChannelScanResult) (channelIndex : Nat)
    (neighborOffset : Int) : Nat → ChannelScanResult :=
  match findScanRange channelIndex with
  | none => results
  | some range =>
      let neighborIndex : Int := channelIndex + neighborOffset
      if neighborIndex < range.tableFirst ∨
          neighborIndex ≥ (range.tableFirst + range.channelCount : Nat) then results
      else
        let neighbor := results neighborIndex.toNat
        if (results channelIndex).levelDbmX16 - neighbor.levelDbmX16
            ≥ fcchAdjacentSuppressionDbmX16 then
          Function.update results neighborIndex.toNat { neighbor with fcchExcluded := true }
        else results

/-- The strongest channel that is left, the first of equal ones. -/
def strongestChannel (scan : Scan) : Option Nat :=
  scan.scanChannels.foldl (fun selected channelIndex =>
    let result := scan.scanResults channelIndex
    if result.fcchExcluded || result.measurements == 0 ||
        decide (result.levelDbmX16 < fcchMinRxLevelDbmX16) then selected
    else
      match selected with
      | none => some channelIndex
      | some best =>
          if result.levelDbmX16 ≤ (scan.scanResults best).levelDbmX16 then selected
          else some channelIndex) none

def selectNextFcchCandidate (frequencyHz : Int) (scan : Scan) : Option (Candidate × Scan) :=
  match strongestChannel scan with
  | none => none
  | some channelIndex =>
      let selected := scan.scanResults channelIndex
      let results := Function.update scan.scanResults channelIndex
        { selected with fcchExcluded := true }
      let results := excludeWeakerAdjacentFcchChannel results channelIndex (-1)
      let results := excludeWeakerAdjacentFcchChannel results channelIndex 1
      some (
        { band := ((findScanRange channelIndex).map GsmScanRange.band).getD .gsm900
          channelIndex
          arfcn := channelIndexToArfcn channelIndex
          gainState := selected.gainState
          rxLevelDbmX16 := selected.levelDbmX16
          afcFrequencyHz := frequencyHz },
        { scan with scanResults := results })

def selectFcchCandidates (frequencyHz : Int) : Nat → Scan → List Candidate × Scan
  | 0, scan => ([], scan)
  | capacity + 1, scan =>
      match selectNextFcchCandidate frequencyHz scan with
      | none => ([], scan)
      | some (candidate, scan) =>
          let rest := selectFcchCandidates frequencyHz capacity scan
          (candidate :: rest.1, rest.2)

def clearScanResult (board : Board) (channelIndex : Nat) (scan : Scan) : Scan :=
  { scan with
    scanResults := Function.update scan.scanResults channelIndex
      { levelDbmX16 := 0, measurements := 0, gainState := board.initialGainState
        fcchExcluded := false } }

def scanChannelsStep (board : Board) (ok : Bool) (capacity : Nat) (w : World) : ScanPc → World
  | .clearSch =>
      { w with
        l1 := { w.l1 with schScanState := .idle }
        task := .scan capacity (.clearResults w.l1.scan.scanChannels) }
  | .clearResults [] => { w with task := .scan capacity .request }
  | .clearResults (channelIndex :: rest) =>
      { w with
        l1 := { w.l1 with scan := clearScanResult board channelIndex w.l1.scan }
        task := .scan capacity (.clearResults rest) }
  | .request =>
      { w with
        l1 := { w.l1 with scan := { w.l1.scan with receiverScanState := .requested } }
        task := .scan capacity .loop }
  | .loop =>
      if w.l1.scan.receiverScanState ≠ .complete && ok then w
      else { w with task := .scan capacity .testMeasured }
  | .testMeasured =>
      if w.l1.scan.scanChannels.any
          (fun channelIndex => (w.l1.scan.scanResults channelIndex).measurements == 0) then
        w.returns .failed
      else { w with task := .scan capacity .select }
  | .select =>
      let selected := selectFcchCandidates w.l1.frequencyCorrectionHz capacity w.l1.scan
      { w with
        l1 := { w.l1 with scan := selected.2 }
        task := .scan capacity (.clearFcch selected.1) }
  | .clearFcch candidates =>
      ({ w with l1 := { w.l1 with fcchScanState := .idle } } : World).returns
        (.candidates candidates)

/-! ## `gsm_l1_search_fcch` -/

/-- `(struct gsm_l1_fcch_result) { 0 }` -/
def emptyFcchReport : FcchReport where
  detected := false
  attemptCount := 0
  status := 0
  start := 0
  quality := 0
  rms := 0
  frequency := 0
  communicationFlags := 0
  phaseTick := 0
  afcFrequencyHz := 0

/-- `result->field = …` -/
def reportField (s : L1) (r : FcchReport) : ReportField → FcchReport
  | .status => { r with status := s.fcchResult.status }
  | .start => { r with start := s.fcchResult.start }
  | .quality => { r with quality := s.fcchResult.quality }
  | .rms => { r with rms := s.fcchResult.rms }
  | .frequency => { r with frequency := s.fcchResult.frequency }
  | .communicationFlags => { r with communicationFlags := s.fcchResult.communicationFlags }
  | .phaseTick => { r with phaseTick := s.fcchCorrectionTick }
  | .afcFrequencyHz => { r with afcFrequencyHz := s.fcchResultAfcFrequencyHz }

def reportFields : List ReportField :=
  [.status, .start, .quality, .rms, .frequency, .communicationFlags, .phaseTick, .afcFrequencyHz]

def searchFcchStep (board : Board) (ok : Bool) (c : Candidate) (w : World) : SearchPc → World
  | .setCandidate =>
      { w with l1 := { w.l1 with currentCandidate := c }, task := .search c .clearDetected }
  | .clearDetected =>
      { w with l1 := { w.l1 with fcchDetected := false }, task := .search c .clearWindow }
  | .clearWindow =>
      { w with l1 := { w.l1 with fcchWindow := 0 }, task := .search c .clearAfcFrequency }
  | .clearAfcFrequency =>
      { w with l1 := { w.l1 with fcchResultAfcFrequencyHz := 0 }, task := .search c .request }
  | .request =>
      { w with l1 := { w.l1 with fcchScanState := .requested }, task := .search c .setLoopPhase }
  | .setLoopPhase =>
      { w with l1 := { w.l1 with tpuLoopPhase := .search }, task := .search c .setFrequency }
  | .setFrequency =>
      { w with
        l1 := gsmBoardSetFrequencyCorrectionHz board c.afcFrequencyHz w.l1
        task := .search c .loop }
  | .loop =>
      if w.l1.fcchScanState ≠ .complete && ok then { w with task := .search c (.execute .switch) }
      else { w with task := .search c .testComplete }
  | .execute pc =>
      let executed := executeRequestedFcchCommand ok w.l1 pc
      let w := { w with l1 := executed.1 }
      match executed.2 with
      | .running pc => { w with task := .search c (.execute pc) }
      | .done => { w with task := .search c .loop }
      | .failed => w.returns .failed
  | .testComplete =>
      if w.l1.fcchScanState ≠ .complete then w.returns .failed
      else { w with task := .search c .reportDetected }
  | .reportDetected =>
      { w with
        fcchReport := { w.fcchReport with detected := w.l1.fcchDetected }
        task := .search c .reportAttemptCount }
  | .reportAttemptCount =>
      { w with
        fcchReport := { w.fcchReport with attemptCount := w.l1.fcchWindow }
        task := .search c .testWindow }
  | .testWindow =>
      if w.l1.fcchWindow = 0 then w.returns (.fcch w.fcchReport)
      else { w with task := .search c (.reportResult reportFields) }
  | .reportResult [] => w.returns (.fcch w.fcchReport)
  | .reportResult (field :: rest) =>
      { w with
        fcchReport := reportField w.l1 w.fcchReport field
        task := .search c (.reportResult rest) }

/-! ## `gsm_l1_decode_sch` -/

def schDataToFrameNumber (data : Nat) : Nat :=
  let t1 := ((data >>> 23) &&& 1) ||| ((data >>> 7) &&& 0x1FE) ||| ((data <<< 9) &&& 0x600)
  let t2 := (data >>> 18) &&& 0x1F
  let t3Prime := ((data >>> 24) &&& 1) ||| ((data >>> 15) &&& 6)
  let t3 := t3Prime * 10 + 1
  let frameModulo := if t3 < t2 then sub32 (t3 + 26) t2 else (t3 - t2) % 26
  wrap32 (t1 * 51 * 26 + frameModulo * 51 + t3)

def schReport (s : L1) : SchReport :=
  let decoded := decide (s.schAttemptCount ≠ 0 ∧ s.schResult.communicationFlags = 0 ∧
    s.schResult.status = 0)
  let data := s.schResult.data.1.toNat ||| (s.schResult.data.2.toNat <<< 16)
  let counts : SchReport :=
    { decoded := false, refinementAttemptCount := s.fcchRefinementAttemptCount
      attemptCount := s.schAttemptCount, metric := 0, status := 0, data := 0, equalizerPosition := 0
      communicationFlags := 0, bsic := 0, frameNumber := 0 }
  if decoded then
    { counts with
      decoded := true
      metric := s.schResult.metric
      status := s.schResult.status
      data := data
      equalizerPosition := s.schResult.equalizerPosition
      communicationFlags := s.schResult.communicationFlags
      bsic := (data >>> 2) &&& 0x3F
      frameNumber := schDataToFrameNumber data }
  else counts

def decodeSchStep (ok : Bool) (c : Candidate) (fcch : FcchReport) (w : World) : DecodePc → World
  | .setCandidate =>
      { w with l1 := { w.l1 with currentCandidate := c }, task := .decode c fcch .setCorrectionTick }
  | .setCorrectionTick =>
      { w with
        l1 := { w.l1 with fcchCorrectionTick := fcch.phaseTick }
        task := .decode c fcch .setAfcFrequency }
  | .setAfcFrequency =>
      { w with
        l1 := { w.l1 with fcchResultAfcFrequencyHz := fcch.afcFrequencyHz }
        task := .decode c fcch .request }
  | .request =>
      { w with
        l1 := { w.l1 with schScanState := .requested }, task := .decode c fcch .setLoopPhase }
  | .setLoopPhase =>
      { w with l1 := { w.l1 with tpuLoopPhase := .complete }, task := .decode c fcch .loop }
  | .loop =>
      if w.l1.schScanState ≠ .complete && ok then
        { w with task := .decode c fcch (.execute .switch) }
      else { w with task := .decode c fcch .testComplete }
  | .execute pc =>
      let executed := executeRequestedFcchCommand ok w.l1 pc
      let w := { w with l1 := executed.1 }
      match executed.2 with
      | .running pc => { w with task := .decode c fcch (.execute pc) }
      | .done => { w with task := .decode c fcch .loop }
      | .failed => w.returns .failed
  | .testComplete =>
      if w.l1.schScanState ≠ .complete then w.returns .failed
      else { w with task := .decode c fcch .report }
  | .report => w.returns (.sch (schReport w.l1))

/-! ## The machine -/

/-- What happens next: an interrupt, a call, or the next statement of the call. -/
inductive Action where
  | irq (dsp : DspInput)
  | call (call : Call)
  | main (ok : Bool)

/-- A call, up to its checks. -/
def startCall (call : Call) (w : World) : World :=
  let w := { w with l1 := w.l1.event (.called call) }
  match call with
  | .trxInit => { w with task := .trxInit .loopStart }
  | .scanChannels capacity =>
      if !w.l1.trxInitialized || capacity == 0 then w.returns .failed
      else { w with task := .scan capacity .clearSch }
  | .searchFcch c =>
      if !w.l1.trxInitialized || (findScanRange c.channelIndex).isNone then w.returns .failed
      else { w with task := .search c .setCandidate, fcchReport := emptyFcchReport }
  | .decodeSch c fcch =>
      if !w.l1.trxInitialized || !fcch.detected || (findScanRange c.channelIndex).isNone then
        w.returns .failed
      else { w with task := .decode c fcch .setCandidate }

/-- The next statement of the main thread. -/
def mainStep (board : Board) (ok : Bool) (w : World) : Option World :=
  match w.task with
  | .idle => none
  | .trxInit pc => some (trxInitStep board ok w pc)
  | .scan capacity pc => some (scanChannelsStep board ok capacity w pc)
  | .search c pc => some (searchFcchStep board ok c w pc)
  | .decode c fcch pc => some (decodeSchStep ok c fcch w pc)

def step (board : Board) : Action → World → Option World
  | .irq dsp, w =>
      if w.l1.tpuLoopRunning then some { w with l1 := gsmL1TpuIrq board dsp w.l1 } else none
  | .call call, w => if w.task = .idle then some (startCall call w) else none
  | .main ok, w => mainStep board ok w

/-- The static variables after `gsm_l1_baseband_init`: the scan order is built, the rest is zero. -/
def basebandReady : World where
  l1 :=
    { scan :=
        { receiverScanState := .idle
          scanPass := 0
          scanWindowStart := 0
          scanRequestRepeated := false
          scanChannels := gsmScanRanges.flatMap
            (fun range => List.range' range.tableFirst range.channelCount)
          scanRequestChannels := List.replicate gsmTrxMonitorCount 0
          scanRequestGainStates := List.replicate gsmTrxMonitorCount 0
          scanResults := fun _ =>
            { levelDbmX16 := 0, measurements := 0, gainState := 0, fcchExcluded := false } }
      tpuLoopPhase := .rfPowerUp
      rfInitializationComplete := false
      tpuRfTransitionFrame := 0
      trxInitialized := false
      tpuLoopRunning := false
      fcchScanState := .idle
      fcchTpuPhase := .rfQuietFirst
      schScanState := .idle
      schTpuPhase := .receive
      fcchResult :=
        { status := 0, start := 0, quality := 0, rms := 0, frequency := 0, communicationFlags := 0 }
      fcchRefinementResult :=
        { status := 0, start := 0, quality := 0, rms := 0, frequency := 0, communicationFlags := 0 }
      schResult :=
        { metric := 0, status := 0, data := (0, 0), equalizerPosition := 0, communicationFlags := 0 }
      currentCandidate :=
        { band := .gsm900, channelIndex := 0, arfcn := 0, gainState := 0, rxLevelDbmX16 := 0
          afcFrequencyHz := 0 }
      fcchRefinementAttemptCount := 0
      schAttemptCount := 0
      fcchWindow := 0
      fcchDetected := false
      fcchCorrectionTick := 0
      fcchReferenceAfcFrequencyHz := 0
      fcchResultAfcFrequencyHz := 0
      frequencyCorrectionHz := 0
      log := [] }
  task := .idle
  fcchReport := emptyFcchReport

end Pmb887x.GsmL1
