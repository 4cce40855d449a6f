import Pmb887x.Library.Bytes
import Pmb887x.OpcodeProbe.Capture

set_option autoImplicit false

/-! # Archives of hardware maps (`unit/dsp/lle/opcode-probe/DspMapArchive.pm`)

One file holds the captured maps: a magic, a count, and for each member its sizes, its hash, its name and its
content. `scanArchive` reads it and tells a callback what it meets; the consumers are three callbacks. Gzip
around the file is lossless and left out: an archive is the string inside. -/

namespace Pmb887x.OpcodeProbe.DspMapArchive

open Library UnitTest
open Boot.Output (ascii newline)

/-! ## Surroundings -/

/-- A hash function; nothing is known of its values but their size. -/
structure Sha256 where
  digest : List UInt8 → List UInt8
  length_digest : ∀ data, (digest data).length = 32

/-- How many bytes one `read` of `size` takes where `left` are left: some, unless there are none. -/
structure Reads where
  amount : (left size : Nat) → Nat
  amount_le : ∀ left size, amount left size ≤ size
  amount_pos : ∀ left size, 0 < left → 0 < size → 0 < amount left size

/-- `read $input, my $chunk, $size`: the chunk, empty at the end of the file, and what is left. -/
def Reads.read (R : Reads) (size : Nat) (input : List UInt8) : List UInt8 × List UInt8 :=
  (input.take (R.amount input.length size), input.drop (R.amount input.length size))

/-- The files of a directory. -/
abbrev Directory := Text → Option (List UInt8)

/-! ## Errors -/

/-- `$description` -/
inductive Item where
  | magic
  | memberCount
  | header (index : Nat)
  | hash (index : Nat)
  | name (index : Nat)
  | data (member : Text)

def Item.description : Item → Text
  | .magic => ascii "magic"
  | .memberCount => ascii "member count"
  | .header index => ascii "member " ++ unsigned index ++ ascii " header"
  | .hash index => ascii "member " ++ unsigned index ++ ascii " hash"
  | .name index => ascii "member " ++ unsigned index ++ ascii " name"
  | .data member => member ++ ascii " data"

inductive ArchiveError where
  | unexpectedEnd (item : Item)
  | invalidName (name : Text)
  | invalidMagic
  | duplicate (name : Text)
  | mismatch (name : Text)
  | trailing
  | cannotStat (name : Text)
  | tooLarge (name : Text)
  | memberList
  | missing (wanted : Text)

/-- The text of `die`. A file that cannot be examined is one that is not there. -/
def ArchiveError.message (path directory : Text) : ArchiveError → Text
  | .unexpectedEnd item => ascii "Unexpected end of archive while reading " ++ item.description
  | .invalidName name => ascii "Invalid archive member name: " ++ name
  | .invalidMagic => path ++ ascii ": invalid DSP map archive magic"
  | .duplicate name => path ++ ascii ": duplicate member " ++ name
  | .mismatch name => path ++ ascii ": SHA-256 mismatch for " ++ name
  | .trailing => path ++ ascii ": trailing archive data"
  | .cannotStat name =>
      ascii "Cannot stat " ++ directory ++ ascii "/" ++ name ++ ascii ": No such file or directory"
  | .tooLarge name => directory ++ ascii "/" ++ name ++ ascii " is too large for the archive format"
  | .memberList => path ++ ascii ": unexpected member list"
  | .missing wanted => path ++ ascii ": missing member " ++ wanted

/-! ## Reading -/

/-- What `read_exact` returns: as many bytes as it was asked for, and what is left. -/
structure Exact (size : Nat) where
  data : List UInt8
  rest : List UInt8
  length_data : data.length = size

theorem Reads.length_read_le (R : Reads) (size : Nat) (input : List UInt8) :
    (R.read size input).1.length ≤ size :=
  (List.length_take_le _ _).trans (R.amount_le _ _)

/-- The loop of `read_exact` over what it has read so far. -/
def readExactFrom (R : Reads) (item : Item) (size : Nat) (data : List UInt8) (hdata : data.length ≤ size)
    (input : List UInt8) : Except ArchiveError (Exact size) :=
  if hmore : data.length < size then
    let chunk := (R.read (size - data.length) input).1
    if hread : chunk = [] then .error (.unexpectedEnd item)
    else
      have hlength : chunk.length ≤ size - data.length := R.length_read_le _ _
      have hpos : 0 < chunk.length := List.length_pos_iff.mpr hread
      readExactFrom R item size (data ++ chunk) (by rw [List.length_append]; omega)
        (R.read (size - data.length) input).2
  else .ok { data := data, rest := input, length_data := Nat.le_antisymm hdata (Nat.le_of_not_lt hmore) }
termination_by size - data.length
decreasing_by
  simp only [chunk] at hpos
  rw [List.length_append]
  omega

def readExact (R : Reads) (size : Nat) (item : Item) (input : List UInt8) :
    Except ArchiveError (Exact size) :=
  readExactFrom R item size [] (Nat.zero_le size) input

/-- `[A-Za-z0-9]` -/
def isAlphanumeric (b : UInt8) : Bool :=
  isDecimal b || 65 ≤ b.toNat && b.toNat ≤ 90 || 97 ≤ b.toNat && b.toNat ≤ 122

/-- `[A-Za-z0-9_.-]` -/
def isNameByte (b : UInt8) : Bool := isAlphanumeric b || b = 95 || b = 46 || b = 45

/-- `/\A[A-Za-z0-9][A-Za-z0-9_.-]*\z/` -/
def validName : Text → Bool
  | [] => false
  | b :: name => isAlphanumeric b && name.all isNameByte

/-- The path of a member; a directory is a map of names here, so it is the name. -/
def memberPath (name : Text) : Except ArchiveError Text :=
  if validName name then .ok name else .error (.invalidName name)

/-- What `scan_archive` calls for a member. `begin` returns the state that the others are given; what the
closure changes is threaded as `σ`. -/
structure Callback (σ τ : Type) where
  onBegin : (name : Text) → (size : Nat) → σ → Except ArchiveError (τ × σ)
  onData : (name : Text) → (data : List UInt8) → τ → σ → Except ArchiveError σ
  onEnd : (name : Text) → (size : Nat) → τ → σ → Except ArchiveError σ

variable {σ τ : Type}

/-- The loop over the data of a member. `added` is what the digest has been given. -/
def scanData (R : Reads) (callback : Callback σ τ) (name : Text) (state : τ) (remaining : Nat)
    (added : List UInt8) (s : σ) (input : List UInt8) :
    Except ArchiveError (List UInt8 × σ × List UInt8) :=
  if remaining = 0 then .ok (added, s, input)
  else do
    let size := if remaining > 65536 then 65536 else remaining
    let read ← readExact R size (.data name) input
    let s ← callback.onData name read.data state s
    scanData R callback name state (remaining - read.data.length) (added ++ read.data) s read.rest
termination_by remaining
decreasing_by
  rw [read.length_data]
  simp only [size]
  split <;> omega

/-- One iteration of the loop of `scan_archive`. `%seen` has the names in `members`. -/
def scanMember (sha : Sha256) (R : Reads) (callback : Callback σ τ) (index : Nat) (members : List Text)
    (s : σ) (input : List UInt8) : Except ArchiveError (Text × σ × List UInt8) := do
  let header ← readExact R 6 (.header index) input
  let nameSize := ofLeBytes (header.data.take 2)
  let dataSize := ofLeBytes (header.data.drop 2)
  let expectedHash ← readExact R 32 (.hash index) header.rest
  let name ← readExact R nameSize (.name index) expectedHash.rest
  let _ ← memberPath name.data
  if name.data ∈ members then .error (.duplicate name.data)
  else do
    let (state, s) ← callback.onBegin name.data dataSize s
    let (added, s, input) ← scanData R callback name.data state dataSize [] s name.rest
    if sha.digest added ≠ expectedHash.data then .error (.mismatch name.data)
    else do
      let s ← callback.onEnd name.data dataSize state s
      .ok (name.data, s, input)

/-- `for my $index (0 .. $count - 1)`, from `index` on. -/
def scanMembers (sha : Sha256) (R : Reads) (callback : Callback σ τ) (index : Nat) :
    (count : Nat) → (members : List Text) → σ → List UInt8 →
    Except ArchiveError (List Text × σ × List UInt8)
  | 0, members, s, input => .ok (members, s, input)
  | count + 1, members, s, input => do
      let (name, s, input) ← scanMember sha R callback index members s input
      scanMembers sha R callback (index + 1) count (members ++ [name]) s input

/-- `$magic` -/
def magic : List UInt8 := ascii "DSPMAP1" ++ [newline]

def scanArchive (sha : Sha256) (R : Reads) (callback : Callback σ τ) (s : σ) (archive : List UInt8) :
    Except ArchiveError (List Text × σ) := do
  let start ← readExact R magic.length .magic archive
  if start.data ≠ magic then .error .invalidMagic
  else do
    let count ← readExact R 4 .memberCount start.rest
    let (members, s, input) ← scanMembers sha R callback 0 (ofLeBytes count.data) [] s count.rest
    if (R.read 1 input).1 ≠ [] then .error .trailing else .ok (members, s)

/-! ## Writing -/

theorem Reads.length_rest_lt (R : Reads) {size : Nat} {input : List UInt8}
    (hread : (R.read size input).1 ≠ []) : (R.read size input).2.length < input.length := by
  have hlength := congrArg List.length (List.take_append_drop (R.amount input.length size) input)
  have hpos := List.length_pos_iff.mpr hread
  simp only [Reads.read, List.length_append] at hlength hpos ⊢
  omega

/-- `while (1) { … }` over the content of a file: what it prints behind `output`. -/
def copyFile (R : Reads) (output input : List UInt8) : List UInt8 :=
  let data := (R.read 65536 input).1
  if _hread : data = [] then output else copyFile R (output ++ data) (R.read 65536 input).2
termination_by input.length
decreasing_by exact R.length_rest_lt _hread

/-- One iteration of the loop of `write_archive`. `leBytes` cuts a number to its field as `pack` does. -/
def writeMember (sha : Sha256) (R : Reads) (directory : Directory) (output : List UInt8) (name : Text) :
    Except ArchiveError (List UInt8) := do
  let path ← memberPath name
  match directory path with
  | none => .error (.cannotStat name)
  | some content =>
      if content.length > 0xFFFFFFFF then .error (.tooLarge name)
      else
        .ok (copyFile R (output ++ (leBytes 2 name.length ++ leBytes 4 content.length) ++
          sha.digest content ++ name) content)

/-- The archive that takes the place of the file at the path. -/
def writeArchive (sha : Sha256) (R : Reads) (directory : Directory) (members : List Text) :
    Except ArchiveError (List UInt8) :=
  members.foldlM (writeMember sha R directory) (magic ++ leBytes 4 members.length)

/-! ## Consumers -/

/-- The callback of `extract_archive`: its state is the file that it has opened. -/
def extractCallback : Callback Directory Text where
  onBegin name _ directory := do
    let path ← memberPath name
    .ok (path, Function.update directory path (some []))
  onData _ value file directory :=
    .ok (Function.update directory file (some ((directory file).getD [] ++ value)))
  onEnd _ _ _ directory := .ok directory

def extractArchive (sha : Sha256) (R : Reads) (archive : List UInt8) (directory : Directory) :
    Except ArchiveError (List Text × Directory) :=
  scanArchive sha R extractCallback directory archive

/-- `sub { return; }` -/
def ignoreCallback : Callback Unit Unit where
  onBegin _ _ s := .ok ((), s)
  onData _ _ _ s := .ok s
  onEnd _ _ _ s := .ok s

def verifyArchive (sha : Sha256) (R : Reads) (archive : List UInt8) (expectedMembers : List Text) :
    Except ArchiveError Unit := do
  let (members, _) ← scanArchive sha R ignoreCallback () archive
  if List.intercalate [newline] members ≠ List.intercalate [newline] expectedMembers then
    .error .memberList
  else .ok ()

/-- The callback of `read_member`, which changes `$result`. -/
def readCallback (wanted : Text) : Callback (Option (List UInt8)) Unit where
  onBegin name _ result := .ok ((), if name = wanted then some [] else result)
  onData name value _ result := .ok (if name = wanted then some (result.getD [] ++ value) else result)
  onEnd _ _ _ result := .ok result

def readMember (sha : Sha256) (R : Reads) (archive : List UInt8) (wanted : Text) :
    Except ArchiveError (List UInt8) := do
  let (_, result) ← scanArchive sha R (readCallback wanted) none archive
  match result with
  | none => .error (.missing wanted)
  | some result => .ok result

end Pmb887x.OpcodeProbe.DspMapArchive
