import Pmb887x.Library.Bytes
import Pmb887x.Library.Crc

set_option autoImplicit false

/-! # Host commands of a unit test (`boot.py`)

A test on the device prints lines that `boot.py` executes: `parse_host_command`, `execute_host_command`
and `complete_expected_reset`, with the port as a value. -/

namespace Pmb887x.Boot.Output

open Library

/-- The bytes of an ASCII literal. -/
def ascii (text : String) : List UInt8 := text.toList.map fun c => UInt8.ofNat c.toNat

def newline : UInt8 := 10
def space : UInt8 := 32

inductive Parity where
  | none
  | even
  | odd
  deriving DecidableEq

structure Configuration where
  baudrate : Int
  bytesize : Nat
  parity : Parity
  stopbits : Nat
  deriving DecidableEq

/-- The serial port; `unread` are the reads to come, as `port.read(port.in_waiting or 1)` will cut what
the device sends. -/
structure Port where
  configuration : Configuration
  written : List UInt8
  unread : List (List UInt8)
  deriving DecidableEq

/-- What the host raises: a `ProtocolError`, by its text, or a `ValueError` of a conversion. -/
inductive HostError where
  /-- `"HOST-CMD %s wrote only %d of %d bytes"` -/
  | shortWrite (command : String) (written size : Nat)
  /-- `"HOST-CMD %s has no argument"` -/
  | noArgument (command : String)
  /-- `"HOST-CMD BAUDRATE must be positive"` -/
  | baudrateNotPositive
  /-- `"HOST-CMD FORMAT must be 7E1, 7O1, 8N1, 8E1, or 8O1"` -/
  | unknownFormat
  /-- `"HOST-CMD SEND argument must be a string"` -/
  | sendNotString
  /-- `"HOST-CMD EXPECT argument must be a non-empty string"` -/
  | expectNotString
  /-- `"HOST-CMD EXPECT received %r, expected %r"` -/
  | unexpectedData (received expected : List UInt8)
  /-- `"HOST-CMD SEND_XORSHIFT32 requires length, seed, and CRC32"` -/
  | xorshiftFields
  /-- `"HOST-CMD SEND_XORSHIFT32 length must be between 1 and 1048576"` -/
  | xorshiftLength
  /-- `"HOST-CMD SEND_XORSHIFT32 seed must be a nonzero 32-bit value"` -/
  | xorshiftSeed
  /-- `"HOST-CMD SEND_XORSHIFT32 CRC32 must be a 32-bit value"` -/
  | xorshiftCrc
  /-- `"HOST-CMD SEND_XORSHIFT32 CRC32 is 0x%08X, expected 0x%08X"` -/
  | xorshiftMismatch (actual expected : Int)
  /-- `"HOST-CMD WAIT must not be negative"` -/
  | waitNegative
  /-- `"invalid HOST-CMD RESTORE"` -/
  | invalidRestore
  /-- `"unknown HOST-CMD: %s"` -/
  | unknownCommand (command : List UInt8)
  /-- `"HOST-CMD EXPECT_RESET requires assertion number, failure count, and name"` -/
  | resetFields
  /-- `"HOST-CMD EXPECT_RESET has invalid assertion or failure count"` -/
  | resetCounts
  /-- `"execution continued after expected reset"` -/
  | executionContinued
  /-- `"unexpected completion byte inside test output"` -/
  | unexpectedCompletion
  /-- `"invalid HOST-CMD BEGIN"` -/
  | invalidBegin
  /-- `"invalid HOST-CMD END"` -/
  | invalidEnd
  /-- `"invalid HOST-CMD EXPECT_RESET"` -/
  | invalidExpectReset
  /-- `"unfinished HOST-CMD block"` -/
  | unfinishedBlock
  /-- `int` or `json.loads` -/
  | valueError
  deriving DecidableEq

/-- What `boot.py` calls: the serial port and the conversions of the standard library. -/
structure Runtime where
  /-- `port.write`: the bytes it takes, after the earlier ones. -/
  accepts : Configuration → List UInt8 → List UInt8 → Nat
  /-- `int(text)` -/
  int : List UInt8 → Option Int
  /-- `int(text, 0)` -/
  intLiteral : List UInt8 → Option Int
  /-- `json.loads(text)`: the UTF-8 of the string it denotes, `some none` for another value. -/
  loads : List UInt8 → Option (Option (List UInt8))
  /-- The reads of `complete_expected_reset` before its deadline. -/
  observed : Nat

/-- A command and its argument. -/
abbrev Command := List UInt8 × List UInt8

/-- `text.partition(b" ")` without the separator -/
def partitionSpace (text : List UInt8) : List UInt8 × List UInt8 :=
  (text.takeWhile (· ≠ space), (text.dropWhile (· ≠ space)).drop 1)

def hostCommandPrefix : List UInt8 := ascii "# HOST-CMD: "

def parseHostCommand (line : List UInt8) : Option Command :=
  if hostCommandPrefix.isPrefixOf line then
    some (partitionSpace (line.drop hostCommandPrefix.length))
  else none

/-- What an operation on the port ends with; a raised error leaves the port as it is then. -/
abbrev OnPort := Except (HostError × Port) Port

/-- `send_host_data`, without its waiting. -/
def sendHostData (runtime : Runtime) (port : Port) (data : List UInt8) (command : String) : OnPort :=
  let written := runtime.accepts port.configuration port.written data
  let port := { port with written := port.written ++ data.take written }
  if written ≠ data.length then .error (.shortWrite command written data.length, port) else .ok port

/-- One round of the generator. -/
def xorshift32 (state : Nat) : Nat :=
  let state := state ^^^ ((state <<< 13) &&& 0xFFFFFFFF)
  let state := state ^^^ (state >>> 17)
  let state := state ^^^ ((state <<< 5) &&& 0xFFFFFFFF)
  state &&& 0xFFFFFFFF

def generateXorshift32 : Nat → Nat → List UInt8
  | 0, _ => []
  | length + 1, state => UInt8.ofNat (xorshift32 state &&& 0xFF) ::
      generateXorshift32 length (xorshift32 state)

/-- `bytes.split()` -/
def splitWhitespace (text : List UInt8) : List (List UInt8) :=
  (text.splitOnP fun b => b ∈ [32, 9, 10, 11, 12, 13]).filter (· ≠ [])

def formats : List (List UInt8 × Nat × Parity × Nat) :=
  [(ascii "7E1", 7, .even, 1), (ascii "7O1", 7, .odd, 1), (ascii "8N1", 8, .none, 1),
   (ascii "8E1", 8, .even, 1), (ascii "8O1", 8, .odd, 1)]

/-- `port.read(size)`: what comes next, up to `size` bytes. -/
def Port.read (port : Port) (size : Nat) : List UInt8 × Port :=
  (port.unread.flatten.take size, { port with unread := [port.unread.flatten.drop size] })

def executeBaudrate (runtime : Runtime) (port : Port) (argument : List UInt8) : OnPort :=
  if argument = [] then .error (.noArgument "BAUDRATE", port)
  else
    match runtime.int argument with
    | none => .error (.valueError, port)
    | some baudrate =>
        if baudrate ≤ 0 then .error (.baudrateNotPositive, port)
        else .ok { port with configuration := { port.configuration with baudrate := baudrate } }

def executeFormat (port : Port) (argument : List UInt8) : OnPort :=
  match formats.lookup argument with
  | none => .error (.unknownFormat, port)
  | some (bytesize, parity, stopbits) =>
      .ok { port with configuration :=
        { port.configuration with bytesize := bytesize, parity := parity, stopbits := stopbits } }

def executeSend (runtime : Runtime) (port : Port) (argument : List UInt8) : OnPort :=
  if argument = [] then .error (.noArgument "SEND", port)
  else
    match runtime.loads argument with
    | none => .error (.valueError, port)
    | some none => .error (.sendNotString, port)
    | some (some data) => sendHostData runtime port data "SEND"

def executeExpect (runtime : Runtime) (port : Port) (argument : List UInt8) : OnPort :=
  if argument = [] then .error (.noArgument "EXPECT", port)
  else
    match runtime.loads argument with
    | none => .error (.valueError, port)
    | some none => .error (.expectNotString, port)
    | some (some expected) =>
        if expected = [] then .error (.expectNotString, port)
        else
          let actual := port.read expected.length
          if actual.1 ≠ expected then .error (.unexpectedData actual.1 expected, actual.2)
          else .ok actual.2

/-- `SEND_XORSHIFT32` behind the conversion of its fields. -/
def sendXorshift32 (runtime : Runtime) (port : Port) (length seed expectedCrc : Int) : OnPort :=
  if length ≤ 0 ∨ length > 1024 * 1024 then .error (.xorshiftLength, port)
  else if seed ≤ 0 ∨ seed > 0xFFFFFFFF then .error (.xorshiftSeed, port)
  else if expectedCrc < 0 ∨ expectedCrc > 0xFFFFFFFF then .error (.xorshiftCrc, port)
  else
    let data := generateXorshift32 length.toNat seed.toNat
    let actualCrc : Int := (crc32 data).toNat
    if actualCrc ≠ expectedCrc then .error (.xorshiftMismatch actualCrc expectedCrc, port)
    else sendHostData runtime port data "SEND_XORSHIFT32"

def executeXorshift32 (runtime : Runtime) (port : Port) (argument : List UInt8) : OnPort :=
  match splitWhitespace argument with
  | [length, seed, crc] =>
      match runtime.intLiteral length, runtime.intLiteral seed, runtime.intLiteral crc with
      | some length, some seed, some crc => sendXorshift32 runtime port length seed crc
      | _, _, _ => .error (.valueError, port)
  | _ => .error (.xorshiftFields, port)

def executeWait (runtime : Runtime) (port : Port) (argument : List UInt8) : OnPort :=
  if argument = [] then .error (.noArgument "WAIT", port)
  else
    match runtime.int argument with
    | none => .error (.valueError, port)
    | some delay => if delay < 0 then .error (.waitNegative, port) else .ok port

def executeRestore (port : Port) (argument : List UInt8) (restore : Option Configuration) : OnPort :=
  match restore with
  | none => .error (.invalidRestore, port)
  | some configuration =>
      if argument ≠ [] then .error (.invalidRestore, port)
      else .ok { port with configuration := configuration }

def expectCommand : List UInt8 := ascii "EXPECT"

def executeHostCommand (runtime : Runtime) (port : Port) (command : Command)
    (restore : Option Configuration) : OnPort :=
  if command.1 = ascii "BAUDRATE" then executeBaudrate runtime port command.2
  else if command.1 = ascii "FORMAT" then executeFormat port command.2
  else if command.1 = ascii "SEND" then executeSend runtime port command.2
  else if command.1 = expectCommand then executeExpect runtime port command.2
  else if command.1 = ascii "SEND_XORSHIFT32" then executeXorshift32 runtime port command.2
  else if command.1 = ascii "WAIT" then executeWait runtime port command.2
  else if command.1 = ascii "RESTORE" then executeRestore port command.2 restore
  else .error (.unknownCommand command.1, port)

/-! ## An expected reset -/

def expectedResetRelease : List UInt8 := ascii "R"
def continuedMarker : List UInt8 := ascii "# ERROR: execution continued"

/-- `argument.split(b" ", 2)` with three fields, the last of them not empty. -/
def resetFields (argument : List UInt8) : Option (List UInt8 × List UInt8 × List UInt8) :=
  if space ∈ argument ∧ space ∈ (partitionSpace argument).2 then
    let second := partitionSpace (partitionSpace argument).2
    if second.2 = [] then none else some ((partitionSpace argument).1, second.1, second.2)
  else none

/-- The lines that end the report of a test that was expected to reset. -/
def resetVerdict (assertion failures : Int) (name : List UInt8) : List UInt8 :=
  ascii "ok " ++ ascii (toString assertion) ++ ascii " - " ++ name ++ [newline] ++
    (ascii "1.." ++ ascii (toString assertion) ++ [newline]) ++
    (ascii "# result: " ++ ascii (if failures = 0 then "PASS" else "FAIL") ++ ascii " (" ++
      ascii (toString failures) ++ ascii " failed)" ++ [newline])

/-- The reads up to the deadline: the output with which execution continued, and the reads left. -/
def observeReset : Nat → List UInt8 → List (List UInt8) → Option (List UInt8) × List (List UInt8)
  | 0, _, unread => (none, unread)
  | _ + 1, _, [] => (none, [])
  | reads + 1, continued, data :: unread =>
      if (continued ++ data).tails.any continuedMarker.isPrefixOf then
        (some ((continued ++ data).filter (· ≠ 0)), unread)
      else observeReset reads (continued ++ data) unread

/-- The port and what is written to the output. -/
def completeExpectedReset (runtime : Runtime) (port : Port) (argument : List UInt8) :
    Except (HostError × Port × List UInt8) (Port × List UInt8) :=
  match resetFields argument with
  | none => .error (.resetFields, port, [])
  | some (assertion, failures, name) =>
      match runtime.int assertion, runtime.int failures with
      | some assertion, some failures =>
          if assertion ≤ 0 ∨ failures < 0 ∨ failures ≥ assertion then .error (.resetCounts, port, [])
          else
            match sendHostData runtime port expectedResetRelease "EXPECT_RESET" with
            | .error (error, port) => .error (error, port, [])
            | .ok port =>
                match observeReset runtime.observed [] port.unread with
                | (some continued, unread) =>
                    .error (.executionContinued, { port with unread := unread }, continued)
                | (none, unread) =>
                    .ok ({ port with unread := unread }, resetVerdict assertion failures name)
      | _, _ => .error (.valueError, port, [])

end Pmb887x.Boot.Output
