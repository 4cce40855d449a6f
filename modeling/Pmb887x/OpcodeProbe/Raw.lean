import Pmb887x.OpcodeProbe.Capture

set_option autoImplicit false

/-! # The raw opcode probe (`opcode-probe.c`)

Every opcode of a range runs on the DSP once. The device prints what the program left in the shared memory,
and compares the class of that with the packed hardware map. -/

namespace Pmb887x.OpcodeProbe

open Library UnitTest
open Boot.Output (ascii newline space)

def markerDone : UInt16 := 0x0053
def markerTrap : UInt16 := 0x0054
def markerEntered : UInt16 := 0x0051
def markerPost : UInt16 := 0x0052

/-- The words that the program writes, in the order in which they are printed. -/
structure Markers where
  entered : UInt16
  trap : UInt16
  post : UInt16
  done : UInt16

def Markers.words (m : Markers) : List UInt16 := [m.entered, m.trap, m.post, m.done]

/-- All `UINT16_MAX`, for a program that did not come to its end. -/
def noMarkers : Markers := ⟨0xFFFF, 0xFFFF, 0xFFFF, 0xFFFF⟩

/-- What `wait_for_completion` returns, and the shared memory behind it. -/
structure Observation where
  done : Bool
  markers : Markers

/-- The outcomes that the two probes print. -/
inductive Outcome where
  | complete
  | trapComplete
  | timeout
  | trapTimeout
  | unsafeSkip
  deriving DecidableEq

def Outcome.name : Outcome → Text
  | .complete => ascii "complete"
  | .trapComplete => ascii "trap-complete"
  | .timeout => ascii "timeout"
  | .trapTimeout => ascii "trap-timeout"
  | .unsafeSkip => ascii "unsafe-skip"

def Observation.outcome (o : Observation) : Outcome :=
  if o.done && o.markers.trap == markerTrap then .trapComplete
  else if o.done then .complete
  else if o.markers.trap == markerTrap then .trapTimeout
  else .timeout

/-- The markers that are printed and classified. -/
def Observation.kept (o : Observation) : Markers := if o.done then o.markers else noMarkers

/-! ## Classes -/

/-- `enum opcode_outcome` -/
inductive OpcodeOutcome where
  | complete
  | completeWithoutPost
  | trapComplete
  | timeout
  | unexpected
  deriving DecidableEq

/-- `OPCODE_OUTCOME_NAMES` -/
def OpcodeOutcome.name : OpcodeOutcome → Text
  | .complete => ascii "complete"
  | .completeWithoutPost => ascii "complete-without-post"
  | .trapComplete => ascii "trap-complete"
  | .timeout => ascii "timeout"
  | .unexpected => ascii "unexpected"

def classifyOutcome (done : Bool) (entered trap post : UInt16) : OpcodeOutcome :=
  if !done then .timeout
  else if entered != markerEntered then .unexpected
  else if trap == 0 && post == markerPost then .complete
  else if trap == 0 && post == 0 then .completeWithoutPost
  else if trap == markerTrap && post == markerPost then .trapComplete
  else .unexpected

/-- The outcome with a number of two bits. -/
def OpcodeOutcome.ofCode : Nat → OpcodeOutcome
  | 0 => .complete
  | 1 => .completeWithoutPost
  | 2 => .trapComplete
  | _ => .timeout

/-- Two bits of a table with four opcodes to the byte. -/
def classCode (classes : List UInt8) (opcode : Nat) : Nat :=
  ((classes.getD (opcode >>> 2) 0).toNat >>> ((opcode &&& 3) * 2)) &&& 3

/-- `classes` is `DSP_OPCODE_HARDWARE_CLASSES`. -/
def hardwareOutcome (classes : List UInt8) (opcode : Nat) : OpcodeOutcome :=
  .ofCode (classCode classes opcode)

def Observation.classified (o : Observation) : OpcodeOutcome :=
  classifyOutcome o.done o.kept.entered o.kept.trap o.kept.post

/-! ## The lines of a run -/

/-- `%04lX` -/
def word (w : UInt16) : Text := hex 4 w.toNat

/-- Words with a blank in front of each. -/
def spaced (words : List UInt16) : Text := words.flatMap fun w => space :: word w

def transientLine (opcode : Nat) (o : Observation) : Text :=
  ascii "# DSPPROBE-TRANSIENT " ++ hex 4 opcode ++ spaced o.markers.words

def recordLine (opcode : Nat) (o : Observation) : Text :=
  ascii "# DSPPROBE " ++ hex 4 opcode ++ [space] ++ o.outcome.name ++ spaced o.kept.words

def mismatchLine (opcode : Nat) (expected actual : OpcodeOutcome) : Text :=
  ascii "# DSPPROBE-MISMATCH " ++ hex 4 opcode ++ ascii " expected=" ++ expected.name ++
    ascii " actual=" ++ actual.name

def progressLine (opcode : Nat) : Text := ascii "# DSPPROBE-PROGRESS " ++ hex 4 opcode

/-- The counters of `main`, and the lines printed so far. -/
structure RawState where
  completed : Nat
  trapped : Nat
  timedOut : Nat
  mismatches : Nat
  lines : List Text

def summaryLine (first last : Nat) (st : RawState) : Text :=
  ascii "# DSPPROBE-SUMMARY " ++ hex 4 first ++ [space] ++ hex 4 last ++ ascii " complete=" ++
    unsigned st.completed ++ ascii " trap=" ++ unsigned st.trapped ++ ascii " timeout=" ++
    unsigned st.timedOut ++ ascii " mismatched=" ++ unsigned st.mismatches

/-- What is printed of one opcode. -/
def opcodeLines (classes : List UInt8) (opcode : Nat) (o : Observation) : List Text :=
  (if o.done then [] else [transientLine opcode o]) ++ [recordLine opcode o] ++
    (if o.classified = hardwareOutcome classes opcode then []
      else [mismatchLine opcode (hardwareOutcome classes opcode) o.classified]) ++
    (if opcode &&& 0xFF = 0xFF then [progressLine opcode] else [])

/-- One turn of the loop, when the transport works. -/
def probeOpcode (classes : List UInt8) (st : RawState) (opcode : Nat) (o : Observation) :
    RawState where
  completed := st.completed + if o.outcome = .complete ∨ o.outcome = .trapComplete then 1 else 0
  trapped := st.trapped + if o.outcome = .trapComplete ∨ o.outcome = .trapTimeout then 1 else 0
  timedOut := st.timedOut + if o.outcome = .timeout ∨ o.outcome = .trapTimeout then 1 else 0
  mismatches := st.mismatches + if o.classified = hardwareOutcome classes opcode then 0 else 1
  lines := st.lines ++ opcodeLines classes opcode o

def Transport.operation : Transport → Text
  | .reset => ascii "DSP reset failed during opcode probe"
  | .load => ascii "DSP image load failed during opcode probe"
  | .branch => ascii "DSP branch failed during opcode probe"

/-- The calls of `fail_transport`. -/
def failTransport (operation : Text) (opcode : Nat) : List Call :=
  [.comment (ascii "# DSPPROBE-ERROR " ++ hex 4 opcode ++ [space] ++ operation),
    .check operation false]

/-- The assertion at the end of `main`. -/
def rawAssertion (board : Board) (st : RawState) : Call :=
  match board with
  | .pmb8876 => .eqU32 (ascii "opcode outcomes that differ from the PMB8876 hardware map") 0
      (UInt32.ofNat st.mismatches)
  | .pmb8875 => .skip (ascii "opcode outcomes match the hardware map")
      (ascii "the hardware map was captured on PMB8876 only")

/-- The calls of `main` behind the loop. -/
def rawFinish (board : Board) (first last : Nat) (st : RawState) : List Call :=
  [.comment (summaryLine first last st), rawAssertion board st]

/-- The loop of `main` over the opcodes that are left, and what comes behind it. -/
def rawLoop (board : Board) (classes : List UInt8) (first last : Nat)
    (probe : Nat → Except Transport Observation) : List Nat → RawState → List Call
  | [], st => st.lines.map .comment ++ rawFinish board first last st
  | opcode :: opcodes, st =>
      match probe opcode with
      | .error transport => st.lines.map .comment ++ failTransport transport.operation opcode
      | .ok o => rawLoop board classes first last probe opcodes (probeOpcode classes st opcode o)

def rawName : Text := ascii "DSP TeakLite I raw opcode probe"

/-- `main`, for the opcodes from `first` to `last`. -/
def rawProbe (d : Device) (classes : List UInt8) (first last : Nat)
    (probe : Nat → Except Transport Observation) : Run :=
  d.run rawName
    (rawLoop d.board classes first last probe (List.range' first (last + 1 - first)) ⟨0, 0, 0, 0, []⟩)

/-- A complete run over all opcodes. -/
def rawRun (d : Device) (classes : List UInt8) (observed : Nat → Observation) : Run :=
  rawProbe d classes 0 0xFFFF fun opcode => .ok (observed opcode)

/-! ## What a complete run prints -/

section

variable (classes : List UInt8) (observed : Nat → Observation)

/-- The state behind the loop. -/
def probed (opcodes : List Nat) (st : RawState) : RawState :=
  opcodes.foldl (fun st opcode => probeOpcode classes st opcode (observed opcode)) st

theorem rawLoop_ok (board : Board) (first last : Nat) (opcodes : List Nat) (st : RawState) :
    rawLoop board classes first last (fun opcode => .ok (observed opcode)) opcodes st
      = (probed classes observed opcodes st).lines.map .comment ++
        rawFinish board first last (probed classes observed opcodes st) := by
  induction opcodes generalizing st with
  | nil => rfl
  | cons opcode opcodes ih => exact ih _

theorem probed_lines (opcodes : List Nat) (st : RawState) :
    (probed classes observed opcodes st).lines
      = st.lines ++ opcodes.flatMap fun opcode => opcodeLines classes opcode (observed opcode) := by
  induction opcodes generalizing st with
  | nil => exact (List.append_nil _).symm
  | cons opcode opcodes ih =>
      rw [List.flatMap_cons, ← List.append_assoc]
      exact ih _

/-- The state at the end of a complete run. -/
def rawEnd : RawState := probed classes observed (List.range 0x10000) ⟨0, 0, 0, 0, []⟩

/-- The lines that a complete run prints itself. -/
def rawLines : List Text :=
  (List.range 0x10000).flatMap (fun opcode => opcodeLines classes opcode (observed opcode)) ++
    [summaryLine 0 0xFFFF (rawEnd classes observed)]

theorem rawRun_eq (d : Device) :
    rawRun d classes observed
      = d.run rawName ((rawLines classes observed).map .comment ++
          [rawAssertion d.board (rawEnd classes observed)]) := by
  have hrange : List.range' 0 (0xFFFF + 1 - 0) = List.range 0x10000 := List.range_eq_range'.symm
  have hlines : (rawEnd classes observed).lines
      = (List.range 0x10000).flatMap fun opcode => opcodeLines classes opcode (observed opcode) := by
    rw [rawEnd, probed_lines, List.nil_append]
  rw [rawRun, rawProbe, hrange, rawLoop_ok, ← rawEnd, hlines, rawLines, List.map_append,
    List.append_assoc]
  rfl

end

/-! ## Words and outcomes -/

theorem word_max : word 0xFFFF = ascii "FFFF" := by
  rw [word, hex, hexPadded_of_lt (by decide) (by decide)]
  rfl

theorem spaced_cons (w : UInt16) (words : List UInt16) :
    spaced (w :: words) = [space] ++ (word w ++ spaced words) := by simp [spaced]

theorem scan_hexWord (w : UInt16) (pieces : List (Piece UInt8)) (behind : Text) :
    scan (hexWord :: pieces) (word w ++ behind)
      = (scan pieces behind).map fun more => word w :: more :=
  scan_exactly (length_hex (by decide) w.toNat_lt) (isHex_hex 4 _) behind

theorem comma_not_mem_hex (k n : Nat) : comma ∉ hex k n := by
  intro hmem
  have hhex := List.all_eq_true.mp (isHex_hex k n) comma hmem
  exact absurd hhex (by decide)

theorem word_injective {v w : UInt16} (h : word v = word w) : v = w := by
  have hv : hexOf (word v) = v.toNat := hexOf_hex (by decide) v.toNat_lt
  have hw : hexOf (word w) = w.toNat := hexOf_hex (by decide) w.toNat_lt
  rw [h, hw] at hv
  exact UInt16.toNat_inj.mp hv.symm

theorem comma_not_mem_name (outcome : Outcome) : comma ∉ outcome.name := by
  cases outcome with
  | complete => decide
  | trapComplete => decide
  | timeout => decide
  | trapTimeout => decide
  | unsafeSkip => decide

theorem name_injective {a b : Outcome} (h : a.name = b.name) : a = b := by
  revert h
  cases a <;> cases b <;> decide

/-! ## Its lines are lines -/

theorem clean_name (outcome : Outcome) : Clean outcome.name := by
  cases outcome with
  | complete => exact clean_ascii (by decide)
  | trapComplete => exact clean_ascii (by decide)
  | timeout => exact clean_ascii (by decide)
  | trapTimeout => exact clean_ascii (by decide)
  | unsafeSkip => exact clean_ascii (by decide)

theorem clean_opcodeName (outcome : OpcodeOutcome) : Clean outcome.name := by
  cases outcome with
  | complete => exact clean_ascii (by decide)
  | completeWithoutPost => exact clean_ascii (by decide)
  | trapComplete => exact clean_ascii (by decide)
  | timeout => exact clean_ascii (by decide)
  | unexpected => exact clean_ascii (by decide)

theorem clean_spaced (words : List UInt16) : Clean (spaced words) := by
  induction words with
  | nil => exact ⟨List.not_mem_nil, List.not_mem_nil⟩
  | cons w words ih =>
      rw [spaced_cons]
      exact clean_append.mpr ⟨clean_space, clean_append.mpr ⟨clean_hex 4 _, ih⟩⟩

theorem clean_opcodeLines (classes : List UInt8) (opcode : Nat) (o : Observation) :
    ∀ line ∈ opcodeLines classes opcode o, Clean line := by
  have htransient : Clean (transientLine opcode o) := by
    have htext : Clean (ascii "# DSPPROBE-TRANSIENT ") := clean_ascii (by decide)
    simp only [transientLine, clean_append, htext, clean_hex, clean_spaced, and_self]
  have hrecord : Clean (recordLine opcode o) := by
    have htext : Clean (ascii "# DSPPROBE ") := clean_ascii (by decide)
    simp only [recordLine, clean_append, htext, clean_hex, clean_space, clean_name, clean_spaced,
      and_self]
  have hmismatch : Clean (mismatchLine opcode (hardwareOutcome classes opcode) o.classified) := by
    have htext : Clean (ascii "# DSPPROBE-MISMATCH ") := clean_ascii (by decide)
    have hexpected : Clean (ascii " expected=") := clean_ascii (by decide)
    have hactual : Clean (ascii " actual=") := clean_ascii (by decide)
    simp only [mismatchLine, clean_append, htext, hexpected, hactual, clean_hex, clean_opcodeName,
      and_self]
  have hprogress : Clean (progressLine opcode) :=
    clean_append.mpr ⟨clean_ascii (by decide), clean_hex 4 _⟩
  intro line hline
  rw [opcodeLines, List.mem_append, List.mem_append, List.mem_append] at hline
  rcases hline with ((hline | hline) | hline) | hline
  · split_ifs at hline
    · cases hline
    · exact List.mem_singleton.mp hline ▸ htransient
  · exact List.mem_singleton.mp hline ▸ hrecord
  · split_ifs at hline
    · cases hline
    · exact List.mem_singleton.mp hline ▸ hmismatch
  · split_ifs at hline
    · exact List.mem_singleton.mp hline ▸ hprogress
    · cases hline

theorem clean_summaryLine (first last : Nat) (st : RawState) : Clean (summaryLine first last st) := by
  have htext : Clean (ascii "# DSPPROBE-SUMMARY ") := clean_ascii (by decide)
  have hcomplete : Clean (ascii " complete=") := clean_ascii (by decide)
  have htrap : Clean (ascii " trap=") := clean_ascii (by decide)
  have htimeout : Clean (ascii " timeout=") := clean_ascii (by decide)
  have hmismatched : Clean (ascii " mismatched=") := clean_ascii (by decide)
  simp only [summaryLine, clean_append, htext, hcomplete, htrap, htimeout, hmismatched, clean_hex,
    clean_space, clean_unsigned, and_self]

theorem clean_rawAssertion (board : Board) (st : RawState) :
    ∀ text ∈ (rawAssertion board st).texts, Clean text := by
  intro text htext
  cases board with
  | pmb8875 =>
      simp only [rawAssertion, Call.texts, List.mem_cons, List.not_mem_nil, or_false] at htext
      rcases htext with rfl | rfl
      · exact clean_ascii (by decide)
      · exact clean_ascii (by decide)
  | pmb8876 =>
      obtain rfl := List.mem_singleton.mp htext
      exact clean_ascii (by decide)

/-- None of the texts of a complete run has a newline. -/
theorem clean_rawCalls (board : Board) (classes : List UInt8) (observed : Nat → Observation) :
    ∀ call ∈ (rawLines classes observed).map .comment ++
        [rawAssertion board (rawEnd classes observed)], ∀ text ∈ call.texts, Clean text := by
  intro call hcall
  rcases List.mem_append.mp hcall with hcall | hcall
  · obtain ⟨line, hline, rfl⟩ := List.mem_map.mp hcall
    intro text htext
    obtain rfl := List.mem_singleton.mp htext
    rcases List.mem_append.mp hline with hline | hline
    · obtain ⟨opcode, -, hopcode⟩ := List.mem_flatMap.mp hline
      exact clean_opcodeLines classes opcode _ text hopcode
    · exact List.mem_singleton.mp hline ▸ clean_summaryLine _ _ _
  · exact List.mem_singleton.mp hcall ▸ clean_rawAssertion _ _

end Pmb887x.OpcodeProbe
