import Pmb887x.Library.Machine
import Pmb887x.IoBridge.Replies

set_option autoImplicit false

/-! # Host, phone and interrupts

The whole bridge, once it is connected. The main loop of the phone looks at the FIFO and takes a software
interrupt for a command; a device may interrupt it before and in between, and then the interrupt handler serves
the commands until one of them acknowledges the interrupt. Both handlers run with interrupts masked. -/

namespace Pmb887x.IoBridge

open Library Library.Prog

/-! ## Commands of the host -/

inductive Command where
  | ping
  | read (addr : UInt32) (size : Nat)
  | write (addr : UInt32) (size : Nat) (value : UInt32)
  deriving DecidableEq

def Command.request : Command → List UInt8
  | .ping => ['.'.toUInt8]
  | .read addr size => readRequest addr size
  | .write addr size value => writeRequest addr size value

/-- What a command returns (a value, if it reads), and the socket of the interrupts. -/
abbrev HostEnd := Except HostError (Option UInt32) × IrqSocket

def Command.program (socket : IrqSocket) : Command → Prog HostEnd
  | .ping => do
      let (result, socket) ← cmdPing socket
      return (result.map fun _ => none, socket)
  | .read addr size => do
      let (result, socket) ← cmdReadUnaligned addr size socket
      return (result.map some, socket)
  | .write addr size value => do
      let (result, socket) ← cmdWriteUnaligned addr size value socket
      return (result.map fun _ => none, socket)

/-- A write to `VIC_IRQ_ACK`. -/
def Command.Acknowledges : Command → Prop
  | .ping => False
  | .read _ _ => False
  | .write addr _ _ => addr = vicIrqAck

/-! ## The phone -/

/-- An interrupt that is being handled: its number, and whether the main loop had seen a byte when it came. -/
structure Interrupt where
  number : UInt32
  checked : Bool

variable {σ : Type}

/-- Where the program of the phone is. -/
inductive Activity (σ : Type) where
  /-- in the main loop; `checked` stands between the look at the FIFO and `swi 0` -/
  | mainLoop (checked : Bool) (d : Device σ)
  /-- in the loop of `irq_handler`, without a command -/
  | irqLoop (interrupt : Interrupt) (d : Device σ)
  /-- in `command_handler`, called by `swi_handler` or in an interrupt, with what it has consumed -/
  | handler (interrupt : Option Interrupt) (consumed : List UInt8) (rest : Prog (HandlerEnd σ))
  /-- in `onerr` -/
  | onerr (c : UInt8)

/-- The two sides and what is between them. The four lists are the history: the commands of the host, what the
phone consumed for each command it served, the interrupts it took and those that were acknowledged. -/
structure System (σ : Type) where
  host : Prog HostEnd
  activity : Activity σ
  toDevice : List UInt8
  toHost : List UInt8
  issued : List Command
  served : List (List UInt8)
  taken : List UInt32
  acknowledged : List UInt32

/-- Where `command_handler` returns to. With nothing left to do it returns at once: no interrupt can come
between. -/
def System.continue (s : System σ) (interrupt : Option Interrupt) (consumed : List UInt8) :
    Prog (HandlerEnd σ) → System σ
  | .ret (.returned result d) =>
      let s := { s with served := s.served ++ [consumed] }
      match interrupt with
      | none => { s with activity := .mainLoop false d }
      | some interrupt =>
          if result = 2 then
            { s with
              activity := .mainLoop interrupt.checked d
              acknowledged := s.acknowledged ++ [interrupt.number] }
          else { s with activity := .irqLoop interrupt d }
  | .ret (.onerr c) => { s with activity := .onerr c }
  | rest => { s with activity := .handler interrupt consumed rest }

inductive Action where
  /-- the host takes up a command -/
  | issue (command : Command)
  /-- the host sends or receives a byte -/
  | host
  /-- the phone goes on -/
  | device
  /-- a device interrupts, with `VIC_IRQ_CURRENT` -/
  | interrupt (number : UInt32)

variable (cpu : Cpu) (bus : Bus σ)

def deviceStep (s : System σ) : Option (System σ) :=
  match s.activity with
  | .mainLoop false d => if s.toDevice ≠ [] then some { s with activity := .mainLoop true d } else none
  | .mainLoop true d =>
      -- `swi 0`; the bytes may have gone to an interrupt
      if s.toDevice ≠ [] then some { s with activity := .handler none [] (commandHandler cpu bus false d) }
      else some { s with activity := .mainLoop false d }
  | .irqLoop interrupt d =>
      if s.toDevice ≠ [] then
        some { s with activity := .handler (some interrupt) [] (commandHandler cpu bus true d) }
      else none
  | .handler interrupt consumed (.send b rest) =>
      some ({ s with toHost := s.toHost ++ [b] }.continue interrupt consumed rest)
  | .handler interrupt consumed (.recv k) =>
      match s.toDevice with
      | [] => none
      | b :: toDevice => some ({ s with toDevice }.continue interrupt (consumed ++ [b]) (k b))
  | .handler _ _ (.ret _) => none
  | .onerr c => some { s with toHost := s.toHost ++ [c] }

def hostStep (s : System σ) : Option (System σ) :=
  match s.host, s.toHost with
  | .send b rest, _ => some { s with host := rest, toDevice := s.toDevice ++ [b] }
  | .recv k, b :: toHost => some { s with host := k b, toHost }
  | _, _ => none

/-- One step of the system. A host that has died takes up no command. -/
def step : Action → System σ → Option (System σ)
  | .issue command, s =>
      match s.host with
      | .ret (.ok _, socket) =>
          some { s with host := command.program socket, issued := s.issued ++ [command] }
      | _ => none
  | .host, s => hostStep s
  | .device, s => deviceStep cpu bus s
  | .interrupt number, s =>
      match s.activity with
      | .mainLoop checked d =>
          some { s with
            activity := .irqLoop ⟨number, checked⟩ { d with currentIrq := number }
            taken := s.taken ++ [number] }
      | _ => none

/-- What the surroundings do: an interrupt has a number of eight bits that is not 0, and the emulator
acknowledges one only after it has been sent its number. -/
def Allowed (s : System σ) : Action → Prop
  | .issue command => command.Acknowledges → ∀ result socket, s.host = .ret (result, socket) →
      ∃ number, number ≠ 0 ∧ socket.written.getLast? = some number
  | .host => True
  | .device => True
  | .interrupt number => number ≠ 0 ∧ number < 256

/-- The bridge is connected: nothing is on the link and no interrupt has been passed on. -/
def start (d : Device σ) : System σ where
  host := .ret (.ok none, ⟨-1, []⟩)
  activity := .mainLoop false d
  toDevice := []
  toHost := []
  issued := []
  served := []
  taken := []
  acknowledged := []

/-! ## In step -/

/-- The phone is between two commands, with the interrupt that it handles, if any. -/
inductive Between : Activity σ → Option UInt32 → Prop where
  | mainLoop (checked : Bool) (d : Device σ) : Between (.mainLoop checked d) none
  | irqLoop (interrupt : Interrupt) (d : Device σ) (h : d.currentIrq = interrupt.number) :
      Between (.irqLoop interrupt d) (some interrupt.number)

/-- What the emulator was sent for the interrupts: the number and 0 for each that was acknowledged, and perhaps
the number of the one that is being handled. -/
def Told (socket : IrqSocket) (acknowledged : List UInt32) (current : Option UInt32) : Prop :=
  ∃ told, (told = [] ∨ ∃ number, current = some number ∧ told = [number.toUInt8]) ∧
    socket.written = acknowledged.flatMap (fun number => [number.toUInt8, 0]) ++ told

/-- The host has finished a command: it was served once, as it was sent, its reply was read to the end, and the
interrupts are told one after the other. -/
structure InStep (s : System σ) (result : Except HostError (Option UInt32)) (socket : IrqSocket) : Prop where
  ok : ∃ value, result = .ok value
  link : s.toDevice = [] ∧ s.toHost = []
  served : s.served = s.issued.map Command.request
  interrupts : ∃ current, Between s.activity current ∧ s.taken = s.acknowledged ++ current.toList ∧
    Told socket s.acknowledged current
  numbers : ∀ number ∈ s.taken, number.toUInt8 ≠ 0 ∧ number.toUInt8.toUInt32 = number

end Pmb887x.IoBridge
