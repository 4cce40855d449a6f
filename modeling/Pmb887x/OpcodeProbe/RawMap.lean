import Pmb887x.OpcodeProbe.Raw

set_option autoImplicit false

/-! # The map of the opcodes (`merge_probe.pl`, `pack_maps.pl`, `pack_classes.pl`)

`merge_probe.pl` reads two captures of the raw probe and makes a map of them, which `pack_maps.pl` checks
before it goes into the archive and `pack_classes.pl` packs into the table of the device. -/

namespace Pmb887x.OpcodeProbe

open Library UnitTest
open Boot.Output (ascii newline space)

namespace Raw

/-! ## `merge_probe.pl` -/

/-- `$record_pattern` -/
def recordPattern : List (Piece UInt8) :=
  [.literal (ascii "# DSPPROBE "), hexWord, .literal [space],
    .oneOf [ascii "complete", ascii "trap-complete", ascii "timeout", ascii "trap-timeout"],
    .literal [space]] ++ hexWords 4

def summaryPattern : List (Piece UInt8) :=
  [.literal (ascii "# DSPPROBE-SUMMARY "), hexWord, .literal [space], hexWord,
    .literal (ascii " complete="), decimals, .literal (ascii " trap="), decimals,
    .literal (ascii " timeout="), decimals]

inductive CaptureError where
  | conflict (opcode : Nat)
  | notPassed
  | summaries
  | coverage
  | missing (opcode : Nat)
  | counts

/-- The text of `die`. -/
def CaptureError.message (path : Text) : CaptureError → Text
  | .conflict opcode => ascii "Conflicting duplicate opcode " ++ hex 4 opcode ++ ascii " in " ++ path
  | .notPassed => ascii "Capture did not pass: " ++ path
  | .summaries => ascii "Capture must contain exactly one summary: " ++ path
  | .coverage => ascii "Capture summary does not cover 0000-FFFF: " ++ path
  | .missing opcode => ascii "Missing opcode " ++ hex 4 opcode ++ ascii " in " ++ path
  | .counts => ascii "Capture summary counts do not match records: " ++ path

/-- The variables of `read_capture`. -/
structure Reading where
  records : Nat → Option Text
  passed : Bool
  summary : List Nat
  summaryCount : Nat

/-- The record of a line. -/
def recordOf (opcode : Nat) (outcome : Text) (markers : List Text) : Text :=
  joinFields (hex 4 opcode :: outcome ::
    if endsInTimeout outcome then List.replicate 4 (ascii "FFFF") else markers)

def readPassed (line : Text) (r : Reading) : Reading :=
  if matchLine passPattern line = some [] then { r with passed := true } else r

def readSummary (line : Text) (r : Reading) : Reading :=
  match matchLine summaryPattern line with
  | some [first, last, complete, trap, timeout] =>
      { r with
        summary := [hexOf first, hexOf last, number complete, number trap, number timeout]
        summaryCount := r.summaryCount + 1 }
  | _ => r

def readRecord (line : Text) (r : Reading) : Except CaptureError Reading :=
  match matchLine recordPattern line with
  | some (opcode :: outcome :: markers) =>
      let record := recordOf (hexOf opcode) outcome markers
      if (r.records (hexOf opcode)).any (· ≠ record) then .error (.conflict (hexOf opcode))
      else .ok { r with records := Function.update r.records (hexOf opcode) (some record) }
  | _ => .ok r

/-- One turn of the loop over the lines. -/
def readLine (r : Reading) (line : Text) : Except CaptureError Reading :=
  readRecord line (readSummary line (readPassed line r))

/-- `$outcomes{…} // 0` -/
def outcomeCount (records : List Text) (outcome : Outcome) : Nat :=
  records.countP fun record => (splitFields record).getD 1 [] = outcome.name

/-- The records by opcode, all of which there must be. -/
def allRecords (r : Reading) : Except CaptureError (List Text) :=
  (List.range 0x10000).mapM fun opcode =>
    match r.records opcode with
    | some record => .ok record
    | none => .error (.missing opcode)

def countsMatch (summary : List Nat) (records : List Text) : Bool :=
  summary.drop 2 ==
    [outcomeCount records .complete + outcomeCount records .trapComplete,
      outcomeCount records .trapComplete + outcomeCount records .trapTimeout,
      outcomeCount records .timeout + outcomeCount records .trapTimeout]

/-- What `read_capture` does behind the loop. -/
def checkReading (r : Reading) : Except CaptureError (List Text) :=
  if !r.passed then .error .notPassed
  else if r.summaryCount ≠ 1 then .error .summaries
  else if r.summary.take 2 ≠ [0, 0xFFFF] then .error .coverage
  else (allRecords r).bind fun records =>
    if countsMatch r.summary records then .ok records else .error .counts

def readCapture (input : Text) : Except CaptureError (List Text) :=
  ((inputLines input).foldlM readLine ⟨fun _ => none, false, [], 0⟩).bind checkReading

def mapHeader : Text := ascii "opcode,outcome,entered,trap,post,done"

/-- `$map` -/
def mapOf (records : List Text) : Text :=
  mapHeader ++ [newline] ++ List.intercalate [newline] records ++ [newline]

inductive MergeError where
  | first (error : CaptureError)
  | second (error : CaptureError)
  /-- `Hardware captures differ at opcode …` -/
  | differ (opcode : Nat) (first second : Text)

/-- `merge_probe.pl` on the contents of two captures. -/
def mergeProbe (first second : Text) : Except MergeError Text :=
  ((readCapture first).mapError .first).bind fun records =>
    ((readCapture second).mapError .second).bind fun others =>
      match (List.range 0x10000).find? fun opcode => records[opcode]? ≠ others[opcode]? with
      | some opcode => .error (.differ opcode (records.getD opcode []) (others.getD opcode []))
      | none => .ok (mapOf records)

/-! ## `pack_maps.pl` -/

inductive MapError where
  | header
  | missing (opcode : Nat)
  | invalid (opcode : Nat)
  | trailing

/-- The text of `die`. -/
def MapError.message (path : Text) : MapError → Text
  | .header => path ++ ascii ": invalid raw map header"
  | .missing opcode => path ++ ascii ": missing opcode " ++ hex 4 opcode
  | .invalid opcode => path ++ ascii ": invalid opcode " ++ hex 4 opcode ++ ascii " record"
  | .trailing => path ++ ascii ": trailing records"

/-- The fields of a record are what `validate_raw_map` looks for. -/
def validRecord (opcode : Nat) (fields : List Text) : Bool :=
  fields.length == 6 && fields.getD 0 [] == hex 4 opcode &&
    [ascii "complete", ascii "trap-complete", ascii "timeout"].contains (fields.getD 1 []) &&
    (fields.drop 2).all fun field => (scan [hexWord] field).isSome

/-- The loop over the opcodes; `lines` are the lines that are left. -/
def validateRecords : List Nat → List Text → Except MapError Unit
  | [], lines => if lines = [] then .ok () else .error .trailing
  | opcode :: _, [] => .error (.missing opcode)
  | opcode :: opcodes, line :: lines =>
      if validRecord opcode (splitFields (chomp line)) then validateRecords opcodes lines
      else .error (.invalid opcode)

def validateRawMap (file : Text) : Except MapError Unit :=
  if (inputLines file).headD [] ≠ mapHeader ++ [newline] then .error .header
  else validateRecords (List.range 0x10000) (inputLines file).tail

/-! ## `pack_classes.pl` -/

/-- `%classes` -/
def classOf (outcome : Text) : Option Nat :=
  if outcome = ascii "complete,0051,0000,0052,0053" then some 0
  else if outcome = ascii "complete,0051,0000,0000,0053" then some 1
  else if outcome = ascii "trap-complete,0051,0054,0052,0053" then some 2
  else if outcome = ascii "timeout,FFFF,FFFF,FFFF,FFFF" then some 3
  else none

inductive PackError where
  | header
  | size
  | order (opcode : Nat)
  | unknown (opcode : Nat) (outcome : Text)

/-- The text of `die`. -/
def PackError.message (path : Text) : PackError → Text
  | .header => path ++ ascii ": invalid raw map header"
  | .size => path ++ ascii ": expected 65536 opcode records"
  | .order opcode => path ++ ascii ": opcode " ++ hex 4 opcode ++ ascii " is out of order"
  | .unknown opcode outcome =>
      path ++ ascii ": opcode " ++ hex 4 opcode ++ ascii " has unknown outcome " ++ outcome

/-- The first field of a record and the rest of it: `split /,/, $line, 2`. -/
def splitFirst (line : Text) : Text × Text :=
  (line.takeWhile (· ≠ comma), (line.dropWhile (· ≠ comma)).tail)

/-- `$bytes[$opcode >> 2] |= $class << (($opcode & 3) * 2)` -/
def addClass (bytes : List UInt8) (opcode code : Nat) : List UInt8 :=
  bytes.modify (opcode >>> 2) (· ||| UInt8.ofNat (code <<< ((opcode &&& 3) * 2)))

def packClass (lines : List Text) (bytes : List UInt8) (opcode : Nat) :
    Except PackError (List UInt8) :=
  let record := splitFirst (lines.getD opcode [])
  if hexOf record.1 ≠ opcode then .error (.order opcode)
  else
    match classOf record.2 with
    | none => .error (.unknown opcode record.2)
    | some code => .ok (addClass bytes opcode code)

/-- The table that `pack_classes.pl` makes of the contents of a map. -/
def packClasses (file : Text) : Except PackError (List UInt8) :=
  let lines := splitRecords file
  if lines.headD [] ≠ mapHeader then .error .header
  else if lines.tail.length ≠ 0x10000 then .error .size
  else (List.range 0x10000).foldlM (packClass lines.tail) (List.replicate 0x4000 0)

end Raw

end Pmb887x.OpcodeProbe
