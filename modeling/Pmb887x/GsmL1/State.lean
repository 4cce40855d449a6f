import Pmb887x.Library.Bytes

set_option autoImplicit false

/-! # The data of the GSM layer 1 (`gsm-l1.c`)

The static variables of the layer, split into those of the channel scan and the rest, and a log of
what is visible from outside: the calls, the commands to the DSP, the results that are collected and
the writes to `TPU_CORRECTION`. The board's calibration is a parameter. -/

namespace Pmb887x.GsmL1

open Library

/-! ## States and records -/

inductive GsmBand where
  | gsm900
  | dcs1800
  | pcs1900
  | gsm850
  deriving DecidableEq

inductive TpuLoopPhase where
  | rfPowerUp
  | rfInitialization
  | ready
  | search
  | fcch
  | sch
  | complete
  deriving DecidableEq

inductive ReceiverScanState where
  | idle
  | requested
  | active
  | complete
  deriving DecidableEq

inductive FcchScanState where
  | idle
  | requested
  | bbOffRequested
  | commandRequested
  | active
  | refinementBbOffRequested
  | refinementCommandRequested
  | refinementActive
  | refinementComplete
  | refinementFailed
  | complete
  deriving DecidableEq

inductive FcchTpuPhase where
  | rfQuietFirst
  | rfQuietSecond
  | rfInitialization
  | prepareFirst
  | prepareSecond
  | start
  | holdFirst
  | holdSecond
  | finish
  | retryDelay
  | refinementPrepare
  | refinementStart
  | refinementWaitResult
  deriving DecidableEq

inductive SchScanState where
  | idle
  | requested
  | active
  | complete
  deriving DecidableEq

inductive SchTpuPhase where
  | receive
  | resultBoundary
  | retryDelay
  deriving DecidableEq

structure GsmScanRange where
  band : GsmBand
  tableFirst : Nat
  arfcnFirst : Nat
  channelCount : Nat

structure FcchResult where
  status : UInt16
  start : UInt16
  quality : UInt16
  rms : Int
  frequency : Int
  communicationFlags : UInt16
  deriving DecidableEq

structure SchResult where
  metric : UInt16
  status : UInt16
  data : UInt16 × UInt16
  equalizerPosition : Int
  communicationFlags : UInt16
  deriving DecidableEq

structure ChannelScanResult where
  levelDbmX16 : Int
  measurements : Nat
  gainState : UInt16
  fcchExcluded : Bool
  deriving DecidableEq

/-- `struct gsm_l1_candidate` -/
structure Candidate where
  band : GsmBand
  channelIndex : Nat
  arfcn : Nat
  gainState : UInt16
  rxLevelDbmX16 : Int
  afcFrequencyHz : Int
  deriving DecidableEq

/-- The board's calibration. -/
structure Board where
  initialGainState : UInt16
  nextGainState : GsmBand → Nat → UInt16 → UInt16 → UInt16
  rxLevelDbmX16 : GsmBand → Nat → UInt16 → UInt16 → Int
  minimumFrequency : Int
  maximumFrequency : Int

def tpuFrameTicks : Nat := 10000
def gsmBitsPerFrame : Nat := 1250
def tpuTicksPerGsmBit : Nat := 8
def fcchPhaseAdvanceTicks : Nat := 72
def tpuSchResultBoundaryTick : Nat := 0x0E8B
def dspFcchCommunicationFlags : UInt16 := 0x18
def dspSchCommunicationFlag : UInt16 := 0x08
def fcchSearchWindowCount : Nat := 12
def fcchRefinementAttemptLimit : Nat := 12
def schAttemptLimit : Nat := 12
def scanPassCount : Nat := 16
def scanWindowStride : Nat := 8
def tpuRfQuietFrameCount : Nat := 4
def gsmTrxMonitorCount : Nat := 4
def gsmChannelNone : Nat := 0xFFFF

def gsmScanRanges : List GsmScanRange :=
  [⟨.gsm900, 0, 0, 125⟩, ⟨.gsm900, 126, 975, 49⟩, ⟨.dcs1800, 175, 512, 374⟩,
    ⟨.pcs1900, 549, 512, 299⟩, ⟨.gsm850, 848, 128, 124⟩]

/-- `struct gsm_l1_fcch_result` -/
structure FcchReport where
  detected : Bool
  attemptCount : Nat
  status : UInt16
  start : UInt16
  quality : UInt16
  rms : Int
  frequency : Int
  communicationFlags : UInt16
  phaseTick : Nat
  afcFrequencyHz : Int
  deriving DecidableEq

/-- `struct gsm_l1_sch_result` -/
structure SchReport where
  decoded : Bool
  refinementAttemptCount : Nat
  attemptCount : Nat
  metric : UInt16
  status : UInt16
  data : Nat
  equalizerPosition : Int
  communicationFlags : UInt16
  bsic : Nat
  frameNumber : Nat
  deriving DecidableEq

/-- The calls of the layer's interface. -/
inductive Call where
  | trxInit
  | scanChannels (capacity : Nat)
  | searchFcch (candidate : Candidate)
  | decodeSch (candidate : Candidate) (fcch : FcchReport)
  deriving DecidableEq

/-- What a call returns; `failed` stands for `false`. -/
inductive Return where
  | failed
  | initialized
  | candidates (candidates : List Candidate)
  | fcch (report : FcchReport)
  | sch (report : SchReport)
  deriving DecidableEq

/-- What is kept of the calls, of the effects on the hardware and of the results that are taken. -/
inductive Event where
  | called (call : Call)
  | returned (result : Return)
  | basebandOff
  | fcInit (refinement : Bool)
  | fcchCollected (result : FcchResult) (candidate : Candidate)
  | refinementCollected (result : FcchResult)
  | schCollected (result : SchResult)
  | candidateStarted
  | correction (value : Nat)
  | monitorCollected (channels : List Nat) (gainStates : List UInt16)
  deriving DecidableEq

/-- The variables of the channel scan. -/
structure Scan where
  receiverScanState : ReceiverScanState
  scanPass : Nat
  scanWindowStart : Int
  scanRequestRepeated : Bool
  scanChannels : List Nat
  scanRequestChannels : List Nat
  scanRequestGainStates : List UInt16
  scanResults : Nat → ChannelScanResult

/-- The static variables of the layer, and the log with the newest event first. -/
structure L1 where
  scan : Scan
  tpuLoopPhase : TpuLoopPhase
  rfInitializationComplete : Bool
  tpuRfTransitionFrame : Nat
  trxInitialized : Bool
  tpuLoopRunning : Bool
  fcchScanState : FcchScanState
  fcchTpuPhase : FcchTpuPhase
  schScanState : SchScanState
  schTpuPhase : SchTpuPhase
  fcchResult : FcchResult
  fcchRefinementResult : FcchResult
  schResult : SchResult
  currentCandidate : Candidate
  fcchRefinementAttemptCount : Nat
  schAttemptCount : Nat
  fcchWindow : Nat
  fcchDetected : Bool
  fcchCorrectionTick : Nat
  fcchReferenceAfcFrequencyHz : Int
  fcchResultAfcFrequencyHz : Int
  frequencyCorrectionHz : Int
  log : List Event

def L1.event (s : L1) (e : Event) : L1 := { s with log := e :: s.log }

end Pmb887x.GsmL1
