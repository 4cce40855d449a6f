import Pmb887x.OpcodeProbe.Capture

set_option autoImplicit false

/-! # The map of a family (`merge_expansion_probe.pl`, `pack_maps.pl`, `pack_expansion_hashes.pl`)

`merge_expansion_probe.pl` reads two captures of the expansion probe and makes a map of them, which
`pack_maps.pl` checks before it goes into the archive. `pack_expansion_hashes.pl` hashes the records of the
archived maps. A hash of the scripts is a list of its keys and values here, in the order of their first
insertion. -/

namespace Pmb887x.OpcodeProbe.Expansion

open Library UnitTest
open Boot.Output (ascii newline space splitWhitespace)

/-! ## `merge_expansion_probe.pl` -/

def quote : UInt8 := 34

/-- `$record_pattern` -/
def recordPattern : List (Piece UInt8) :=
  [.literal (ascii "# DSPEXP "), decimals, .literal [space], hexWord, .literal [space],
    .oneOf [ascii "complete", ascii "trap-complete", ascii "timeout", ascii "trap-timeout",
      ascii "unsafe-skip"],
    .literal [space], .remainder]

/-- `$summary_pattern` -/
def summaryPattern : List (Piece UInt8) :=
  [.literal (ascii "# DSPEXP-SUMMARY families="), decimals, .literal (ascii "-"), decimals,
    .literal (ascii " words="), hexWord, .literal (ascii "-"), hexWord,
    .literal (ascii " executed="), decimals, .literal (ascii " skipped="), decimals,
    .literal (ascii " complete="), decimals, .literal (ascii " trap="), decimals,
    .literal (ascii " timeout="), decimals]

def familyPattern : List (Piece UInt8) :=
  [.literal (ascii "# DSPEXP-FAMILY "), decimals, .literal [space], hexWord,
    .literal (ascii " \""), .many (· ≠ quote), .literal [quote]]

/-- A hash with texts as keys. -/
abbrev Hash := List (Text × Text)

inductive CaptureError where
  | conflictingFamily (family : Text)
  | wordCount (line : Text)
  | malformedWord (line : Text)
  | conflict (key : Text)
  | notPassed
  | summaries
  | range
  | recordCount
  | missingFamily (family : Nat)
  | missing (key : Text)
  | counts

/-- The text of `die`. -/
def CaptureError.message (path : Text) : CaptureError → Text
  | .conflictingFamily family => ascii "Conflicting family " ++ family ++ ascii " in " ++ path
  | .wordCount line =>
      ascii "Expansion record has the wrong word count in " ++ path ++ ascii ": " ++ line
  | .malformedWord line =>
      ascii "Expansion record contains a malformed word in " ++ path ++ ascii ": " ++ line
  | .conflict key => ascii "Conflicting duplicate " ++ key ++ ascii " in " ++ path
  | .notPassed => ascii "Capture did not pass: " ++ path
  | .summaries => ascii "Capture must contain exactly one summary: " ++ path
  | .range => ascii "Invalid summary range: " ++ path
  | .recordCount => ascii "Record count does not match summary range: " ++ path
  | .missingFamily family => ascii "Missing family " ++ unsigned family ++ ascii " in " ++ path
  | .missing key => ascii "Missing expansion " ++ key ++ ascii " in " ++ path
  | .counts => ascii "Capture summary counts do not match records: " ++ path

/-- `@summary` -/
structure Summary where
  familyFirst : Text
  familyLast : Text
  wordFirst : Nat
  wordLast : Nat
  executed : Nat
  skipped : Nat
  completed : Nat
  trapped : Nat
  timedOut : Nat

/-- The variables of `read_capture`. -/
structure Reading where
  families : Hash
  records : Hash
  summary : Option Summary
  summaryCount : Nat
  passed : Bool

def Reading.start : Reading := ⟨[], [], none, 0, false⟩

/-- A value for a key that has none or the same one. -/
def insert (hash : Hash) (key value : Text) : Option Hash :=
  match hash.lookup key with
  | none => some (hash ++ [(key, value)])
  | some old => if old = value then some hash else none

def readPassed (line : Text) (r : Reading) : Reading :=
  if matchLine passPattern line = some [] then { r with passed := true } else r

def readFamily (line : Text) (r : Reading) : Except CaptureError Reading :=
  match matchLine familyPattern line with
  | some [family, firstWord, name] =>
      match insert r.families family (joinFields [firstWord, name]) with
      | some families => .ok { r with families }
      | none => .error (.conflictingFamily family)
  | _ => .ok r

def readSummary (line : Text) (r : Reading) : Reading :=
  match matchLine summaryPattern line with
  | some [familyFirst, familyLast, wordFirst, wordLast, executed, skipped, completed, trapped,
      timedOut] =>
      { r with
        summary := some ⟨familyFirst, familyLast, hexOf wordFirst, hexOf wordLast, number executed,
          number skipped, number completed, number trapped, number timedOut⟩
        summaryCount := r.summaryCount + 1 }
  | _ => r

/-- `sprintf '%02u'` -/
def padded (n : Nat) : Text := List.leftpad 2 48 (unsigned n)

/-- `sprintf('%02u:%s', …)` -/
def keyOf (family : Nat) (expansion : Text) : Text := padded family ++ ascii ":" ++ expansion

def readRecord (line : Text) (r : Reading) : Except CaptureError Reading :=
  match matchLine recordPattern line with
  | some [family, expansion, outcome, wordText] =>
      let words := splitWhitespace wordText
      if words.length ≠ 24 then .error (.wordCount line)
      else if words.any fun w => (scan [hexWord] w).isNone then .error (.malformedWord line)
      else
        let words := if endsInTimeout outcome then List.replicate 24 (ascii "FFFF") else words
        let key := keyOf (number family) expansion
        match insert r.records key (joinFields (family :: expansion :: outcome :: words)) with
        | some records => .ok { r with records }
        | none => .error (.conflict key)
  | _ => .ok r

/-- One turn of the loop over the lines. -/
def readLine (r : Reading) (line : Text) : Except CaptureError Reading :=
  (readFamily line (readPassed line r)).bind fun r => readRecord line (readSummary line r)

/-- `$outcomes{…} // 0` -/
def outcomeCount (records : Hash) (outcome : Text) : Nat :=
  records.countP fun record => (splitFields record.2).getD 2 [] = outcome

/-- A key of the range that has no record. -/
def missingKey (records : Hash) (family first last : Nat) : Option Text :=
  ((List.range' first (last + 1 - first)).map fun w => keyOf family (hex 4 w)).find? fun key =>
    (records.lookup key).isNone

/-- The loop over the families and the words of the summary. -/
def checkRange (r : Reading) (s : Summary) : Except CaptureError Unit :=
  forM (List.range' (number s.familyFirst) (number s.familyLast + 1 - number s.familyFirst))
    fun family =>
      if (r.families.lookup (unsigned family)).isNone then .error (.missingFamily family)
      else
        match missingKey r.records family s.wordFirst s.wordLast with
        | some key => .error (.missing key)
        | none => .ok ()

/-- `$expected` -/
def expectedCount (s : Summary) : Nat :=
  (number s.familyLast + 1 - number s.familyFirst) * (s.wordLast + 1 - s.wordFirst)

def countsMatch (r : Reading) (s : Summary) : Bool :=
  let count := outcomeCount r.records
  [s.executed, s.skipped, s.completed, s.trapped, s.timedOut] ==
    [expectedCount s - count (ascii "unsafe-skip"), count (ascii "unsafe-skip"),
      count (ascii "complete") + count (ascii "trap-complete"),
      count (ascii "trap-complete") + count (ascii "trap-timeout"),
      count (ascii "timeout") + count (ascii "trap-timeout")]

/-- What `read_capture` returns. -/
structure Capture where
  families : Hash
  records : Hash
  summary : Summary

/-- What `read_capture` does behind the loop. -/
def checkReading (r : Reading) : Except CaptureError Capture :=
  if !r.passed then .error .notPassed
  else
    match r.summary with
    | none => .error .summaries
    | some s =>
        if r.summaryCount ≠ 1 then .error .summaries
        else if number s.familyLast < number s.familyFirst ∨ s.wordLast < s.wordFirst then .error .range
        else if r.records.length ≠ expectedCount s then .error .recordCount
        else (checkRange r s).bind fun _ =>
          if countsMatch r s then .ok ⟨r.families, r.records, s⟩ else .error .counts

def readCapture (input : Text) : Except CaptureError Capture :=
  ((inputLines input).foldlM readLine Reading.start).bind checkReading

def normalizeRecord (record : Text) : Text :=
  match scan [decimals, .literal [comma], hexWord, .literal (ascii ",trap-timeout,"), .remainder]
      record with
  | some [family, expansion, behind] =>
      family ++ [comma] ++ expansion ++ ascii ",timeout," ++ behind
  | _ => record

/-- `sort { $a <=> $b } keys …` -/
def sortedFamilies (families : Hash) : List Text :=
  (families.map Prod.fst).mergeSort fun a b => number a ≤ number b

/-- `sort keys …` -/
def sortedKeys (records : Hash) : List Text :=
  (records.map Prod.fst).mergeSort fun a b => a ≤ b

/-- The value of a key, or nothing. -/
def valueOf (hash : Hash) (key : Text) : Text := (hash.lookup key).getD []

/-- `join(',', @{…->{summary}}[0 .. 3])` -/
def Summary.bounds (s : Summary) : Text :=
  joinFields [s.familyFirst, s.familyLast, unsigned s.wordFirst, unsigned s.wordLast]

def mapHeader : Text :=
  ascii ("family,expansion,outcome,entered,trap,post,done,st0,st1,st2,a0l,a0h,a1l,a1h,r0," ++
    "b0l,b0h,b0st0,b1l,b1h,b1st0,pl,ph,scratch,sp,stack_top,observed_memory")

/-- `@lines` -/
def mapLines (c : Capture) : List Text :=
  (sortedFamilies c.families).map (fun family =>
      ascii "# family," ++ family ++ [comma] ++ valueOf c.families family) ++
    mapHeader :: (sortedKeys c.records).map fun key => normalizeRecord (valueOf c.records key)

inductive MergeError where
  | first (error : CaptureError)
  | second (error : CaptureError)
  /-- `Capture ranges differ` -/
  | ranges
  /-- `Hardware captures differ for family …` -/
  | family (family : Text)
  /-- `Hardware captures differ at …` -/
  | differ (key first second : Text)

/-- What `merge_expansion_probe.pl` makes of two captures. -/
def mergeCaptures (first second : Capture) : Except MergeError Text :=
  if first.summary.bounds ≠ second.summary.bounds then .error .ranges
  else
    match (sortedFamilies first.families).find? fun family =>
        valueOf second.families family ≠ valueOf first.families family with
    | some family => .error (.family family)
    | none =>
        match (sortedKeys first.records).find? fun key =>
            normalizeRecord (valueOf second.records key)
              ≠ normalizeRecord (valueOf first.records key) with
        | some key => .error (.differ key (valueOf first.records key) (valueOf second.records key))
        | none => .ok (List.intercalate [newline] (mapLines first) ++ [newline])

/-- `merge_expansion_probe.pl` on the contents of two captures. -/
def mergeExpansionProbe (first second : Text) : Except MergeError Text :=
  ((readCapture first).mapError .first).bind fun first =>
    ((readCapture second).mapError .second).bind fun second => mergeCaptures first second

/-! ## `pack_maps.pl` -/

inductive MapError where
  | metadata
  | header
  | missing (expansion : Nat)
  | invalid (expansion : Nat)
  | trailing

/-- The text of `die`. -/
def MapError.message (path : Text) : MapError → Text
  | .metadata => path ++ ascii ": invalid family metadata"
  | .header => path ++ ascii ": invalid expansion map header"
  | .missing expansion => path ++ ascii ": missing expansion " ++ hex 4 expansion
  | .invalid expansion => path ++ ascii ": invalid expansion " ++ hex 4 expansion ++ ascii " record"
  | .trailing => path ++ ascii ": trailing records"

/-- The line of the family ends with a newline and is not broken elsewhere. -/
def metadataPattern (family : Nat) : List (Piece UInt8) :=
  [.literal (ascii "# family," ++ unsigned family ++ [comma]), hexWord, .literal [comma],
    .many (fun b => b ≠ 13 ∧ b ≠ newline), .literal [newline]]

def headerPattern : List (Piece UInt8) :=
  [.literal (ascii "family,expansion,outcome,entered,trap,post,done,"), .remainder]

/-- The fields of a record are what `validate_expansion_map` looks for. -/
def validRecord (family expansion : Nat) (fields : List Text) : Bool :=
  fields.length == 27 && number (fields.getD 0 []) == family && fields.getD 1 [] == hex 4 expansion &&
    [ascii "complete", ascii "trap-complete", ascii "timeout", ascii "unsafe-skip"].contains
      (fields.getD 2 []) &&
    (fields.drop 3).all fun field => (scan [hexWord] field).isSome

/-- The loop over the expansion words; `lines` are the lines that are left. -/
def validateRecords (family : Nat) : List Nat → List Text → Except MapError Unit
  | [], lines => if lines = [] then .ok () else .error .trailing
  | expansion :: _, [] => .error (.missing expansion)
  | expansion :: expansions, line :: lines =>
      if validRecord family expansion (splitAll (chomp line)) then
        validateRecords family expansions lines
      else .error (.invalid expansion)

def validateExpansionMap (family : Nat) (file : Text) : Except MapError Unit :=
  let lines := inputLines file
  if (scan (metadataPattern family) (lines.headD [])).isNone then .error .metadata
  else if (scan headerPattern (lines.tail.headD [])).isNone then .error .header
  else validateRecords family (List.range 0x10000) lines.tail.tail

/-! ## `pack_expansion_hashes.pl` -/

inductive PackError where
  | size
  | order (record : Nat)
  | unknown (outcome : Text)
  | words (record count : Nat)

/-- The text of `die`. -/
def PackError.message (name : Text) : PackError → Text
  | .size => name ++ ascii ": expected 65536 records"
  | .order record => name ++ ascii ": record " ++ unsigned record ++ ascii " is out of order"
  | .unknown outcome => name ++ ascii ": unknown outcome " ++ outcome
  | .words record count =>
      name ++ ascii ": record " ++ unsigned record ++ ascii " has " ++ unsigned count ++ ascii " words"

/-- `%outcome_codes` -/
def packedCode (outcome : Text) : Option Nat :=
  if outcome = ascii "complete" then some 0
  else if outcome = ascii "trap-complete" then some 1
  else if outcome = ascii "timeout" then some 2
  else if outcome = ascii "trap-timeout" then some 3
  else if outcome = ascii "unsafe-skip" then some 4
  else none

def familyCount : Nat := 19

/-- A turn of the inner loop of `fnv1a_words`. -/
def fnv1aByte (hash byte : Nat) : Nat := ((hash ^^^ byte) * 0x01000193) &&& 0xFFFFFFFF

def fnv1aWords (hash : Nat) (words : List Nat) : Nat :=
  words.foldl (fun hash word => fnv1aByte (fnv1aByte hash (word &&& 0xFF)) (word >>> 8)) hash

/-- `$hash` and `@hashes` -/
structure Packing where
  hash : Nat
  hashes : List Nat

/-- One turn of the loop over the expansion words. -/
def packRecord (family : Nat) (lines : List Text) (p : Packing) (expansion : Nat) :
    Except PackError Packing :=
  let fields := splitFields (lines.getD expansion [])
  let words := fields.drop 3
  if number (fields.getD 0 []) ≠ family ∨ hexOf (fields.getD 1 []) ≠ expansion then
    .error (.order expansion)
  else
    match packedCode (fields.getD 2 []) with
    | none => .error (.unknown (fields.getD 2 []))
    | some code =>
        if words.length ≠ 24 then .error (.words expansion words.length)
        else
          let start := if expansion % 256 = 0 then 0x811C9DC5 else p.hash
          let hash := fnv1aWords start (expansion :: code :: words.map hexOf)
          .ok ⟨hash, if expansion % 256 = 255 then p.hashes ++ [hash] else p.hashes⟩

/-- The hashes of the blocks of a family, from the contents of its map. -/
def packFamily (family : Nat) (file : Text) : Except PackError (List Nat) :=
  let lines := (splitRecords file).drop 2
  if lines.length ≠ 0x10000 then .error .size
  else ((List.range 0x10000).foldlM (packRecord family lines) ⟨0, []⟩).map Packing.hashes

/-- The table that `pack_expansion_hashes.pl` makes of the maps of the archive. -/
def packExpansionHashes (maps : Nat → Text) : Except PackError (List (List Nat)) :=
  (List.range familyCount).mapM fun family => packFamily family (maps family)

end Pmb887x.OpcodeProbe.Expansion
