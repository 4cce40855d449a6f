import Pmb887x.Sie.Cgsn

set_option autoImplicit false

/-! # A phone's memory over text (`src/cgsn/SieCGSN.pm`)

The older module takes the end of an answer for the first `OK` or `ERROR` with a line break behind it and
trims line breaks off what is in front. The bytes of the memory are not escaped, and may look like either. -/

namespace Pmb887x.Sie.SieCgsn

open Library

/-! ## The phone and the port -/

/-- The two numbers of `AT+CGSN:%08X,%08X` in front of the carriage return. -/
def parseRead (command : List Char) : Option (Nat × Nat) :=
  if command.take 8 = ['A', 'T', '+', 'C', 'G', 'S', 'N', ':'] then do
    let numbers := (command.drop 8).dropLast
    let addr ← hexNumber (numbers.takeWhile (· ≠ ','))
    let size ← hexNumber ((numbers.dropWhile (· ≠ ',')).drop 1)
    return (addr, size)
  else none

/-- The bytes that are requested, behind their acknowledgement. -/
def phoneAnswer (memory : Memory) (command : List Char) : List UInt8 :=
  match parseRead command with
  | some (addr, size) => binaryReply (0xA1 :: memory.readBytes addr 0 size)
  | none => []

/-- What the phone has sent and nobody has read, and how often that was purged. -/
structure Port where
  unread : List UInt8
  purges : Nat

/-- `purge_all`: what has arrived by then is gone, what has not is still to come. -/
def Port.purge (arrived : Nat → Nat) (port : Port) : Port :=
  ⟨port.unread.drop (arrived port.purges), port.purges + 1⟩

/-! ## `sendAt` -/

/-- `OK` or `ERROR` with a line break. -/
def statusLine : Bool → List UInt8
  | true => [79, 75, cr, lf]
  | false => [69, 82, 82, 79, 82, cr, lf]

/-- `/(OK|ERROR)\r\n/`: whether it is `OK` that the first match captures. -/
def matchStatus : List UInt8 → Option Bool
  | [] => none
  | b :: buf =>
      if (statusLine true).isPrefixOf (b :: buf) then some true
      else if (statusLine false).isPrefixOf (b :: buf) then some false
      else matchStatus buf

/-- `substr($buf, 0, $size)`: a negative size leaves bytes off the end. -/
def substrFront (buf : List UInt8) (size : Int) : List UInt8 :=
  if 0 ≤ size then buf.take size.toNat else buf.take (buf.length + size).toNat

/-- `s/^\r\n//` -/
def trimFront (data : List UInt8) : List UInt8 := if data.take 2 = [cr, lf] then data.drop 2 else data

/-- `s/\r\n$//`: the `$` also matches in front of a line feed at the end. -/
def trimBack (data : List UInt8) : List UInt8 :=
  if [cr, lf].isSuffixOf data then data.take (data.length - 2)
  else if [cr, lf, lf].isSuffixOf data then data.take (data.length - 3) ++ [lf]
  else data

structure Response where
  code : Bool
  data : List UInt8

/-- The answer that is in the buffer. -/
def response (code : Bool) (buf : List UInt8) : Response where
  code := code
  data := trimBack (trimFront (substrFront buf (buf.length - ((statusLine code).length - 2 + 4))))

/-- The loop of `sendAt` over the bytes that arrive. When there are no more its time runs out. -/
def receive (buf : List UInt8) : List UInt8 → Option Response × List UInt8
  | [] => (none, [])
  | c :: arriving =>
      match matchStatus (buf ++ [c]) with
      | some code => (some (response code (buf ++ [c])), arriving)
      | none => receive (buf ++ [c]) arriving

def sendAt (memory : Memory) (arrived : Nat → Nat) (command : List Char) (port : Port) :
    Option Response × Port :=
  let purged := port.purge arrived
  let received := receive [] (purged.unread ++ phoneAnswer memory command)
  (received.1, { purged with unread := received.2 })

/-! ## `readMem` -/

/-- The bytes of an answer, if it is one that `readMem` does not report. -/
def accept (chunk : Nat) : Option Response → Option (List UInt8)
  | none => none
  | some answer =>
      let data := (answer.data.drop 1).take chunk
      if answer.code ∧ answer.data.headD 0 = 0xA1 ∧ chunk = data.length then some data else none

/-- `while (1) { … }` with the tries that are left; `none` when it exits. -/
def readChunk (memory : Memory) (arrived : Nat → Nat) (addr chunk : Nat) :
    (tries : Nat) → Port → Option (List UInt8) × Port
  | 0, port =>
      let sent := sendAt memory arrived (readCommand addr chunk) port
      (accept chunk sent.1, sent.2)
  | tries + 1, port =>
      let sent := sendAt memory arrived (readCommand addr chunk) port
      match accept chunk sent.1 with
      | some data => (some data, sent.2)
      | none => readChunk memory arrived addr chunk tries sent.2

/-- `while ($size > 0) { … }` -/
def readChunks (memory : Memory) (arrived : Nat → Nat) (addr size : Nat) (buffer : List UInt8)
    (port : Port) : Option (List UInt8) × Port :=
  if 0 < size then
    let chunk := if size < 128 then size else 128
    let read := readChunk memory arrived addr chunk 5 port
    match read.1 with
    | none => (none, read.2)
    | some data => readChunks memory arrived (addr + 128) (size - 128) (buffer ++ data) read.2
  else (some buffer, port)
termination_by size

/-- The address and the size that are read, and what is skipped on both sides. -/
structure Window where
  addr : Nat
  size : Nat
  skipBefore : Nat
  skipAfter : Nat

/-- Aligned to words. -/
def window (addr size : Nat) : Window :=
  let start := addr - addr % 4
  let skipBefore := addr - start
  let wanted := size + skipBefore
  let padded := if wanted % 4 ≠ 0 then wanted - wanted % 4 + 4 else wanted
  ⟨start, padded, skipBefore, padded - wanted⟩

/-- `none` when the program exits. -/
def readMem (memory : Memory) (arrived : Nat → Nat) (addr size : Nat) (port : Port) :
    Option (List UInt8) × Port :=
  let w := window addr size
  let read := readChunks memory arrived w.addr w.size [] port
  match read.1 with
  | none => (none, read.2)
  | some buffer =>
      if w.skipAfter ≠ 0 ∨ w.skipBefore ≠ 0 then
        (some ((buffer.drop w.skipBefore).take (buffer.length - (w.skipBefore + w.skipAfter))), read.2)
      else (some buffer, read.2)

/-! ## What can be read -/

/-- With the line break of the answer behind it nothing in a piece looks like the end of an answer, and the
piece does not end in a line break itself, with a line feed behind it or not. -/
structure Plain (data : List UInt8) : Prop where
  status : ∀ code, ¬ statusLine code <:+: data ++ [cr, lf]
  endsBreak : ¬ [cr, lf] <:+ data
  endsBreakFeed : ¬ [cr, lf, lf] <:+ data

end Pmb887x.Sie.SieCgsn
