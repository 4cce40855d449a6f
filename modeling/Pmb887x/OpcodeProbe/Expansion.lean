import Pmb887x.OpcodeProbe.Raw

set_option autoImplicit false

/-! # The expansion probe (`opcode-probe.c` with `DSP_EXPANSION_PROBE`)

The second word of an instruction takes all values of a range, for each of a range of families of
instructions. The device prints a record of each value and hashes the records in blocks of 256, whose
hashes it compares with those of the hardware map. -/

namespace Pmb887x.OpcodeProbe.Expansion

open Library UnitTest
open Boot.Output (ascii newline space)

/-! ## Families -/

/-- `enum expansion_address_mode` -/
inductive AddressMode where
  | value
  | programAddress
  | fixedSource
  | absoluteRead
  | r7Read
  | pageWrite
  | absoluteWrite
  | r7Write
  deriving DecidableEq

/-- `struct expansion_family` -/
structure Family where
  name : String
  firstWord : UInt16
  addressMode : AddressMode

/-- `DSP_EXPANSION_FAMILIES` -/
def families : List Family :=
  [⟨"ALU long immediate add a0", 0x86C0, .value⟩,
    ⟨"ALU r7 long offset add a0", 0xD4DB, .r7Read⟩,
    ⟨"ALU long direct add a0", 0xD4FB, .absoluteRead⟩,
    ⟨"ALB indirect set r0", 0x80E0, .value⟩,
    ⟨"ALB register set r0", 0x81E0, .value⟩,
    ⟨"ALB direct set page 00", 0xE100, .pageWrite⟩,
    ⟨"multiply indirect long immediate mpy a0", 0x8000, .fixedSource⟩,
    ⟨"msu indirect long immediate a0", 0x90C0, .fixedSource⟩,
    ⟨"mov long absolute a0", 0xD4B8, .absoluteRead⟩,
    ⟨"mov a0l long absolute", 0xD4BC, .absoluteWrite⟩,
    ⟨"mov long immediate r0", 0x5E00, .value⟩,
    ⟨"mov long immediate b0", 0x5E20, .value⟩,
    ⟨"mov r7 long offset a0", 0xD498, .r7Read⟩,
    ⟨"mov a0l r7 long offset", 0xD49C, .r7Write⟩,
    ⟨"push long immediate", 0x5F40, .value⟩,
    ⟨"bkrep short", 0x5C00, .value⟩,
    ⟨"bkrep register r0", 0x5D00, .value⟩,
    ⟨"branch absolute always", 0x4180, .programAddress⟩,
    ⟨"call absolute always", 0x41C0, .programAddress⟩,
    ⟨"movr indirect high b0", 0x8864, .fixedSource⟩]

/-- An index into the families. -/
abbrev FamilyIndex := Fin families.length

def sharedRamBase : Board → Nat
  | .pmb8875 => 0xD800
  | .pmb8876 => 0xD000

def sharedRamSize : Board → Nat
  | .pmb8875 => 0x0600
  | .pmb8876 => 0x0C00

def programBackingLastAddress : Board → Nat
  | .pmb8875 => 0x0FFF
  | .pmb8876 => 0x1FFF

/-- `DSP_EXPANSION_R7_ADDRESS` -/
def r7Address (board : Board) : Nat := sharedRamBase board + 0x04C0

/-- `expansion_address`, which returns a `uint16_t`. -/
def expansionAddress (board : Board) (family : Family) (expansion : Nat) : Nat :=
  if family.addressMode = .r7Read ∨ family.addressMode = .r7Write then
    (r7Address board + expansion) % 2 ^ 16
  else expansion

def expansionIsSafe (board : Board) (family : Family) (expansion : Nat) : Bool :=
  let address := expansionAddress board family expansion
  let base := sharedRamBase board
  match family.addressMode with
  | .value | .fixedSource | .pageWrite => true
  | .programAddress => expansion ≤ programBackingLastAddress board
  | .absoluteRead | .r7Read => base + 5 ≤ address && address < base + sharedRamSize board
  | .absoluteWrite | .r7Write => base + 0x0400 ≤ address && address < base + sharedRamSize board

/-! ## Records -/

/-- What `run_expansion` reads of a program: what it reads of every program, and the words of the result,
those of the DSP and the one that is observed in the memory. -/
structure Result extends Observation where
  results : List UInt16
  length : results.length = 20

/-- Words of a program that did not come to its end, or did not run. -/
def noWords : List UInt16 := List.replicate 24 0xFFFF

/-- What is printed and hashed of an expansion word: its outcome, the markers and the results. A program
that did not come to its end has no words of its own. -/
structure Record where
  outcome : Outcome
  words : List UInt16
  length : words.length = 24
  late : outcome = .timeout ∨ outcome = .trapTimeout → words = noWords

def Result.record (r : Result) : Record where
  outcome := r.outcome
  words := if r.done then r.markers.words ++ r.results else noWords
  length := by
    split_ifs
    · rw [List.length_append, r.length]
      rfl
    · rfl
  late := by
    intro hlate
    by_cases hdone : r.done = true
    · rw [Observation.outcome, hdone] at hlate
      by_cases htrap : r.markers.trap = markerTrap
      · simp [htrap] at hlate
      · simp [htrap] at hlate
    · rw [if_neg hdone]

def skipRecord : Record := ⟨.unsafeSkip, noWords, rfl, fun _ => rfl⟩

/-- The record of an expansion word, which may not have run. -/
def recordOf : Option Result → Record
  | some r => r.record
  | none => skipRecord

/-! ## The hash -/

def hashOffsetBasis : UInt32 := 0x811C9DC5
def hashPrime : UInt32 := 0x01000193

/-- `enum expansion_outcome` -/
def outcomeCode : Outcome → UInt16
  | .complete => 0
  | .trapComplete => 1
  | .timeout => 2
  | .trapTimeout => 3
  | .unsafeSkip => 4

def expansionHashWord (hash : UInt32) (w : UInt16) : UInt32 :=
  let hash := (hash ^^^ (w &&& 0xFF).toUInt32) * hashPrime
  (hash ^^^ (w >>> 8).toUInt32) * hashPrime

def expansionHashRecord (hash : UInt32) (expansion : UInt16) (record : Record) : UInt32 :=
  let hash := expansionHashWord hash expansion
  let hash := expansionHashWord hash
    (outcomeCode (if record.outcome = .trapTimeout then .timeout else record.outcome))
  record.words.foldl expansionHashWord hash

/-! ## Lines -/

def familyLine (index : Nat) (family : Family) : Text :=
  ascii "# DSPEXP-FAMILY " ++ unsigned index ++ [space] ++ word family.firstWord ++ ascii " \"" ++
    ascii family.name ++ ascii "\""

def transientLine (index expansion : Nat) (o : Observation) : Text :=
  ascii "# DSPEXP-TRANSIENT " ++ unsigned index ++ [space] ++ hex 4 expansion ++ spaced o.markers.words

/-- The line of a record; for a word that is skipped, `main` prints the same in other calls. -/
def recordLine (index expansion : Nat) (record : Record) : Text :=
  ascii "# DSPEXP " ++ unsigned index ++ [space] ++ hex 4 expansion ++ [space] ++
    record.outcome.name ++ spaced record.words

def mismatchLine (index expansion : Nat) : Text :=
  ascii "# DSPEXP-MISMATCH " ++ unsigned index ++ [space] ++ hex 4 (expansion + 1 - 256) ++
    ascii "-" ++ hex 4 expansion

def progressLine (index expansion : Nat) : Text :=
  ascii "# DSPEXP-PROGRESS " ++ unsigned index ++ [space] ++ hex 4 expansion

/-! ## The loop -/

/-- `DSP_EXPANSION_HARDWARE_HASH_FAMILIES` and `DSP_EXPANSION_HARDWARE_HASHES`. -/
structure HardwareHashes where
  families : Nat
  hash : Nat → Nat → UInt32

/-- The variables of `main`, and the lines printed so far. -/
structure State where
  executed : Nat
  skipped : Nat
  completed : Nat
  trapped : Nat
  timedOut : Nat
  comparedBlocks : Nat
  mismatchedBlocks : Nat
  hash : UInt32
  lines : List Text

def State.start : State := ⟨0, 0, 0, 0, 0, 0, 0, hashOffsetBasis, []⟩

def State.print (lines : List Text) (st : State) : State := { st with lines := st.lines ++ lines }

/-- `hash` starts anew with a block. -/
def beginBlock (expansion : Nat) (st : State) : State :=
  if expansion % 256 = 0 then { st with hash := hashOffsetBasis } else st

/-- What counts an expansion word, and prints and hashes its record. -/
def addRecord (index expansion : Nat) (record : Record) (st : State) : State where
  executed := st.executed + if record.outcome = .unsafeSkip then 0 else 1
  skipped := st.skipped + if record.outcome = .unsafeSkip then 1 else 0
  completed := st.completed +
    if record.outcome = .complete ∨ record.outcome = .trapComplete then 1 else 0
  trapped := st.trapped +
    if record.outcome = .trapComplete ∨ record.outcome = .trapTimeout then 1 else 0
  timedOut := st.timedOut +
    if record.outcome = .timeout ∨ record.outcome = .trapTimeout then 1 else 0
  comparedBlocks := st.comparedBlocks
  mismatchedBlocks := st.mismatchedBlocks
  hash := expansionHashRecord st.hash (UInt16.ofNat expansion) record
  lines := st.lines ++ [recordLine index expansion record]

/-- The block ends here, all of it was probed, and the map has the family. -/
def isCompared (hashes : HardwareHashes) (first index expansion : Nat) : Bool :=
  expansion % 256 = 255 && 256 ≤ expansion + 1 - first && index + 1 ≤ hashes.families

def compareBlock (hashes : HardwareHashes) (first index expansion : Nat) (st : State) : State :=
  if isCompared hashes first index expansion then
    if st.hash = hashes.hash index (expansion / 256) then
      { st with comparedBlocks := st.comparedBlocks + 1 }
    else
      { st with
        comparedBlocks := st.comparedBlocks + 1
        mismatchedBlocks := st.mismatchedBlocks + 1
        lines := st.lines ++ [mismatchLine index expansion] }
  else st

/-- What is printed at the end of 256 words. -/
def printProgress (index expansion : Nat) (st : State) : State :=
  if expansion &&& 0xFF = 0xFF then st.print [progressLine index expansion] else st

/-- What `run_expansion` prints in front of the record when the time was over. -/
def linesBefore (index expansion : Nat) : Option Result → List Text
  | some r => if r.done then [] else [transientLine index expansion r.toObservation]
  | none => []

/-- One turn of the loop, when the transport works. -/
def probeExpansion (hashes : HardwareHashes) (first index expansion : Nat) (r : Option Result)
    (st : State) : State :=
  printProgress index expansion (compareBlock hashes first index expansion
    (addRecord index expansion (recordOf r)
      ((beginBlock expansion st).print (linesBefore index expansion r))))

/-! ## The probe -/

def operation : Transport → Text
  | .reset => ascii "DSP reset failed during expansion probe"
  | .load => ascii "DSP image load failed during expansion probe"
  | .branch => ascii "DSP branch failed during expansion probe"

/-- The transport of the program backing, which `main` loads first. -/
inductive Backing where
  | loaded
  | resetFailed
  | loadFailed

/-- The calls of `fail_expansion_transport`. -/
def failExpansionTransport (operation : Text) (index expansion : Nat) : List Call :=
  [.comment (ascii "# DSPEXP-ERROR " ++ unsigned index ++ [space] ++ hex 4 expansion ++ [space] ++
      operation),
    .check operation false]

/-- What the transport makes of an expansion word, which runs if it is safe. -/
def attempt (board : Board) (family : Family) (probe : Nat → Except Transport Result)
    (expansion : Nat) : Except Transport (Option Result) :=
  if expansionIsSafe board family expansion then (probe expansion).map some else .ok none

/-- A turn of the loop over the words; when the transport fails, the calls of the test so far. -/
def wordStep (board : Board) (hashes : HardwareHashes) (first index : Nat) (family : Family)
    (probe : Nat → Except Transport Result) (st : State) (expansion : Nat) :
    Except (List Call) State :=
  match attempt board family probe expansion with
  | .ok r => .ok (probeExpansion hashes first index expansion r st)
  | .error transport => .error (st.lines.map .comment ++
      failExpansionTransport (operation transport) index expansion)

/-- A turn of the loop over the families. -/
def familyStep (board : Board) (hashes : HardwareHashes) (first last : Nat)
    (probe : FamilyIndex → Nat → Except Transport Result) (st : State) (index : FamilyIndex) :
    Except (List Call) State :=
  (List.range' first (last + 1 - first)).foldlM
    (wordStep board hashes first index (families.get index) (probe index))
    (st.print [familyLine index (families.get index)])

def summaryLine (familyFirst familyLast first last : Nat) (st : State) : Text :=
  ascii "# DSPEXP-SUMMARY families=" ++ unsigned familyFirst ++ ascii "-" ++ unsigned familyLast ++
    ascii " words=" ++ hex 4 first ++ ascii "-" ++ hex 4 last ++ ascii " executed=" ++
    unsigned st.executed ++ ascii " skipped=" ++ unsigned st.skipped ++ ascii " complete=" ++
    unsigned st.completed ++ ascii " trap=" ++ unsigned st.trapped ++ ascii " timeout=" ++
    unsigned st.timedOut

def comparedLine (st : State) : Text :=
  ascii "# DSPEXP-COMPARED blocks=" ++ unsigned st.comparedBlocks ++ ascii " mismatched=" ++
    unsigned st.mismatchedBlocks

/-- The assertion at the end of `main`. -/
def assertion (board : Board) (hashes : HardwareHashes) (st : State) : Call :=
  match board with
  | .pmb8876 =>
      if hashes.families = 0 then
        .skip (ascii "expansion results match the hardware map")
          (ascii "the hardware map has not been imported")
      else .eqU32 (ascii "expansion blocks that differ from the PMB8876 hardware map") 0
        (UInt32.ofNat st.mismatchedBlocks)
  | .pmb8875 => .skip (ascii "expansion results match the hardware map")
      (ascii "the hardware map was captured on PMB8876 only")

def probeName : Text := ascii "DSP TeakLite I expansion-word probe"

/-- The calls of `main` when the backing is loaded. -/
def probeCalls (board : Board) (hashes : HardwareHashes) (familyFirst familyLast : FamilyIndex)
    (first last : Nat) (probe : FamilyIndex → Nat → Except Transport Result) : List Call :=
  match ((List.finRange families.length).filter fun index => familyFirst ≤ index ∧ index ≤ familyLast).foldlM
      (familyStep board hashes first last probe) State.start with
  | .error calls => calls
  | .ok st => (st.lines ++ [summaryLine familyFirst familyLast first last st, comparedLine st]).map
      .comment ++ [assertion board hashes st]

/-- `main`, for the families from `familyFirst` to `familyLast` and the words from `first` to `last`. -/
def expansionProbe (d : Device) (hashes : HardwareHashes) (familyFirst familyLast : FamilyIndex)
    (first last : Nat) (backing : Backing) (probe : FamilyIndex → Nat → Except Transport Result) : Run :=
  d.run probeName
    (match backing with
    | .resetFailed => failExpansionTransport
        (ascii "DSP reset failed before program backing load") familyFirst first
    | .loadFailed => failExpansionTransport (ascii "DSP program backing load failed") familyFirst first
    | .loaded => probeCalls d.board hashes familyFirst familyLast first last probe)

/-- A complete run of one family over all words. -/
def familyRun (d : Device) (hashes : HardwareHashes) (index : FamilyIndex) (observed : Nat → Result) :
    Run :=
  expansionProbe d hashes index index 0 0xFFFF .loaded fun _ expansion => .ok (observed expansion)

end Pmb887x.OpcodeProbe.Expansion
