import Pmb887x.Boot.HostCommands
import Pmb887x.Library.Lines
import Mathlib.Tactic

set_option autoImplicit false

/-! # The output of a unit test (`boot.py`, `forward_output`)

`forward_output` reads what the device prints, executes the host commands in it and writes it to the
output, until a NUL or an expected reset. How the serial port cuts the stream into reads makes no
difference to it. -/

namespace Pmb887x.Boot.Output

open Library

/-! ## The loop -/

/-- A command block: the commands so far, and the configuration at its `BEGIN`. -/
structure CommandBlock where
  commands : List Command
  configuration : Configuration
  deriving DecidableEq

/-- A call of `execute_host_command`: its command, its argument and `restore_configuration`. -/
abbrev Execution := Command × Option Configuration

/-- What the lines of the stream act on; `executed` is the history of the calls. -/
structure Session where
  port : Port
  block : Option CommandBlock
  expectedReset : Option (List UInt8)
  executed : List Execution
  deriving DecidableEq

abbrev OnSession := Except (HostError × Session) Session

def beginCommand : List UInt8 := ascii "BEGIN"
def endCommand : List UInt8 := ascii "END"
def expectResetCommand : List UInt8 := ascii "EXPECT_RESET"

def Session.execute (runtime : Runtime) (s : Session) (command : Command)
    (restore : Option Configuration) : OnSession :=
  let executed := s.executed ++ [(command, restore)]
  match executeHostCommand runtime s.port command restore with
  | .ok port => .ok { s with port := port, executed := executed }
  | .error (error, port) => .error (error, { s with port := port, executed := executed })

/-- The commands of a block at its `END`. -/
def Session.executeQueued (runtime : Runtime) (configuration : Configuration) :
    Session → List Command → OnSession
  | s, [] => .ok s
  | s, command :: commands => do
      let s ← s.execute runtime command (some configuration)
      s.executeQueued runtime configuration commands

def Session.begin (s : Session) (argument : List UInt8) : OnSession :=
  if argument ≠ [] ∨ s.block ≠ none then .error (.invalidBegin, s)
  else .ok { s with block := some { commands := [], configuration := s.port.configuration } }

def Session.end (runtime : Runtime) (s : Session) (argument : List UInt8) : OnSession :=
  match s.block with
  | none => .error (.invalidEnd, s)
  | some block =>
      if argument ≠ [] then .error (.invalidEnd, s)
      else do
        let s ← s.executeQueued runtime block.configuration block.commands
        .ok { s with block := none }

def Session.expectReset (s : Session) (argument : List UInt8) : OnSession :=
  if s.block ≠ none ∨ s.expectedReset ≠ none then .error (.invalidExpectReset, s)
  else .ok { s with expectedReset := some argument }

/-- A command that is neither `BEGIN`, `END` nor `EXPECT_RESET`. -/
def Session.plain (runtime : Runtime) (s : Session) (command : Command) : OnSession :=
  match s.block with
  | none => s.execute runtime command none
  | some block =>
      .ok { s with block := some { block with commands := block.commands ++ [command] } }

def Session.line (runtime : Runtime) (s : Session) (line : List UInt8) : OnSession :=
  match parseHostCommand line with
  | none => .ok s
  | some command =>
      if command.1 = beginCommand then s.begin command.2
      else if command.1 = endCommand then s.end runtime command.2
      else if command.1 = expectResetCommand then s.expectReset command.2
      else s.plain runtime command

def Session.lines (runtime : Runtime) : Session → List (List UInt8) → OnSession
  | s, [] => .ok s
  | s, line :: rest => do
      let s ← s.line runtime line
      s.lines runtime rest

/-- The local variables of `forward_output`, and what it has written to the output. -/
structure Forward where
  session : Session
  pending : List UInt8
  previousByte : Option UInt8
  output : List UInt8
  deriving DecidableEq

inductive Outcome where
  | running (f : Forward)
  | returned (f : Forward)
  | raised (error : HostError) (f : Forward)
  deriving DecidableEq

/-- What the scan of a read finds. -/
inductive Scan where
  | clean (previousByte : Option UInt8)
  | terminator (offset : Nat) (previousByte : Option UInt8)
  | unexpected (previousByte : Option UInt8)
  deriving DecidableEq

/-- The loop over `enumerate(data)`. -/
def scan : Option UInt8 → Nat → List UInt8 → Scan
  | previousByte, _, [] => .clean previousByte
  | previousByte, offset, value :: data =>
      if value = 0 then
        if previousByte ≠ some newline then .unexpected previousByte
        else .terminator offset previousByte
      else scan (some value) (offset + 1) data

/-- The lines that `data` completes. -/
def Forward.handle (runtime : Runtime) (f : Forward) (data : List UInt8) :
    Except (HostError × Forward) Forward :=
  let split := splitLines newline (f.pending ++ data)
  let f := { f with pending := split.2, session := { f.session with expectedReset := none } }
  match f.session.lines runtime split.1 with
  | .ok s => .ok { f with session := s }
  | .error (error, s) => .error (error, { f with session := s })

/-- `complete_expected_reset` and the return behind it. -/
def Forward.complete (runtime : Runtime) (f : Forward) (argument : List UInt8) : Outcome :=
  match completeExpectedReset runtime f.session.port argument with
  | .ok (port, written) =>
      .returned { f with session := { f.session with port := port }, output := f.output ++ written }
  | .error (error, port, written) =>
      .raised error
        { f with session := { f.session with port := port }, output := f.output ++ written }

/-- A read without a terminator. -/
def Forward.text (runtime : Runtime) (f : Forward) (data : List UInt8) : Outcome :=
  match f.handle runtime data with
  | .error (error, f) => .raised error f
  | .ok f =>
      let f := { f with output := f.output ++ data }
      match f.session.expectedReset with
      | none => .running f
      | some argument => f.complete runtime argument

/-- A read up to its terminator. -/
def Forward.finish (runtime : Runtime) (f : Forward) (data : List UInt8) : Outcome :=
  match f.handle runtime data with
  | .error (error, f) => .raised error f
  | .ok f =>
      if f.session.block ≠ none then .raised .unfinishedBlock f
      else .returned { f with output := f.output ++ data }

/-- A read from the port. -/
def Forward.read (runtime : Runtime) (f : Forward) (data : List UInt8) : Outcome :=
  match scan f.previousByte 0 data with
  | .unexpected previousByte =>
      .raised .unexpectedCompletion { f with previousByte := previousByte }
  | .clean previousByte => { f with previousByte := previousByte }.text runtime data
  | .terminator offset previousByte =>
      { f with previousByte := previousByte }.finish runtime (data.take offset)

def Port.withUnread (port : Port) (unread : List (List UInt8)) : Port :=
  { port with unread := unread }

def Session.withUnread (s : Session) (unread : List (List UInt8)) : Session :=
  { s with port := s.port.withUnread unread }

def Forward.withUnread (f : Forward) (unread : List (List UInt8)) : Forward :=
  { f with session := f.session.withUnread unread }

/-- One pass of `while True`; with no read to come, or an empty one, the loop goes on. -/
def Forward.pass (runtime : Runtime) (f : Forward) : Outcome :=
  match f.session.port.unread with
  | [] => .running f
  | data :: unread =>
      if data = [] then .running (f.withUnread unread)
      else (f.withUnread unread).read runtime data

/-- `forward_output` in its first passes. -/
def forwardOutput (runtime : Runtime) : Nat → Forward → Outcome
  | 0, f => .running f
  | passes + 1, f =>
      match f.pass runtime with
      | .running f => forwardOutput runtime passes f
      | .returned f => .returned f
      | .raised error f => .raised error f

def Session.start (port : Port) : Session where
  port := port
  block := none
  expectedReset := none
  executed := []

/-- The variables at the start, on a port that has the stream to read. -/
def Forward.start (port : Port) : Forward where
  session := Session.start port
  pending := []
  previousByte := none
  output := []

end Pmb887x.Boot.Output
