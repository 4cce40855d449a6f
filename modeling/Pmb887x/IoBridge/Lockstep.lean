import Mathlib.Data.List.Basic
import Pmb887x.IoBridge.System

set_option autoImplicit false

/-! # The two sides stay in step

A command is waiting, being served or answered, and each of these is one predicate on the state, with a bound
for the steps that are left. `phase_step` says what a step does to them, and from it follow both that the two
sides are in step whenever the host has finished a command, and that it does finish. -/

namespace Pmb887x.IoBridge

open Library Library.Prog

variable {σ : Type} {cpu : Cpu} {bus : Bus σ}

/-! ## The interrupts that were told -/

/-- The socket between two commands; `lastIrq` is that of the last byte. -/
inductive Heard (socket : IrqSocket) (acknowledged : List UInt32) (current : Option UInt32) : Prop where
  | silent (hwritten : socket.written = acknowledged.flatMap fun number => [number.toUInt8, 0])
      (hlast : socket.lastIrq ≤ 0)
  | told {number : UInt32} (hcurrent : current = some number)
      (hwritten : socket.written = acknowledged.flatMap (fun number => [number.toUInt8, 0]) ++ [number.toUInt8])
      (hlast : socket.lastIrq = number.toUInt8.toNat)

/-- A number that `chr` does not change. -/
def IsNumber (number : UInt32) : Prop := number.toUInt8 ≠ 0 ∧ number.toUInt8.toUInt32 = number

theorem isNumber_of_lt {number : UInt32} (h : number ≠ 0 ∧ number < 256) : IsNumber number := by
  have hlt : number.toNat < 256 := UInt32.lt_iff_toNat_lt.mp h.2
  have hne : number.toNat ≠ 0 := fun heq => h.1 (UInt32.toNat_inj.mp heq)
  constructor
  · intro heq
    have hnat := congrArg UInt8.toNat heq
    rw [UInt32.toNat_toUInt8] at hnat
    change number.toNat % 256 = 0 at hnat
    omega
  · apply UInt32.toNat_inj.mp
    rw [UInt8.toNat_toUInt32, UInt32.toNat_toUInt8]
    exact Nat.mod_eq_of_lt hlt

variable {socket : IrqSocket} {acknowledged : List UInt32} {current : Option UInt32} {number : UInt32}

theorem told_of_heard (h : Heard socket acknowledged current) : Told socket acknowledged current := by
  cases h with
  | silent hwritten hlast => exact ⟨[], .inl rfl, by rw [List.append_nil]; exact hwritten⟩
  | told hcurrent hwritten hlast => exact ⟨_, .inr ⟨_, hcurrent, rfl⟩, hwritten⟩

/-- An interrupt is not told by itself. -/
theorem heard_interrupt (h : Heard socket acknowledged none) : Heard socket acknowledged (some number) := by
  cases h with
  | silent hwritten hlast => exact .silent hwritten hlast
  | told hcurrent hwritten hlast => cases hcurrent

/-- A reply in the interrupt tells its number, if it is new. -/
theorem heard_writeIrq (h : Heard socket acknowledged (some number)) (hnumber : IsNumber number) :
    Heard (writeIrq socket number.toUInt8) acknowledged (some number) := by
  have hpos : number.toUInt8.toNat ≠ 0 := fun heq => hnumber.1 (UInt8.toNat_inj.mp heq)
  cases h with
  | silent hwritten hlast =>
      rw [writeIrq, if_pos (by omega)]
      exact .told rfl (congrArg (· ++ _) hwritten) rfl
  | told hcurrent hwritten hlast =>
      obtain rfl := Option.some.inj hcurrent
      rw [writeIrq, if_neg (by rw [hlast]; exact not_not.mpr rfl)]
      exact .told rfl hwritten hlast

/-- A number that was sent last is that of the interrupt. -/
theorem exists_told (h : Heard socket acknowledged current)
    (hlast : ∃ last, last ≠ 0 ∧ socket.written.getLast? = some last) :
    ∃ number, current = some number ∧ socket.lastIrq = number.toUInt8.toNat ∧
      socket.written = acknowledged.flatMap (fun number => [number.toUInt8, 0]) ++ [number.toUInt8] := by
  cases h with
  | silent hwritten =>
      exfalso
      obtain ⟨last, hne, hgetLast⟩ := hlast
      rw [hwritten] at hgetLast
      rcases List.eq_nil_or_concat acknowledged with rfl | ⟨earlier, number', rfl⟩
      · cases hgetLast
      · rw [List.concat_eq_append, List.flatMap_append, List.flatMap_singleton, List.getLast?_append] at hgetLast
        exact hne (Option.some.inj hgetLast).symm
  | told hcurrent hwritten hlastIrq => exact ⟨_, hcurrent, hlastIrq, hwritten⟩

/-- The reply to an acknowledgement tells 0. -/
theorem heard_acknowledge (h : Heard socket acknowledged (some number)) (hnumber : IsNumber number)
    (htold : ∃ last, last ≠ 0 ∧ socket.written.getLast? = some last) :
    Heard (writeIrq socket 0) (acknowledged ++ [number]) none := by
  have hpos : number.toUInt8.toNat ≠ 0 := fun heq => hnumber.1 (UInt8.toNat_inj.mp heq)
  obtain ⟨number', hcurrent, hlast, hwritten⟩ := exists_told h htold
  obtain rfl := Option.some.inj hcurrent
  have hzero : ((0 : UInt8).toNat : Int) = 0 := rfl
  rw [writeIrq, if_pos (by rw [hlast, hzero]; omega)]
  refine .silent ?_ (Int.le_refl 0)
  rw [hwritten, List.flatMap_append, List.flatMap_singleton, List.append_assoc]
  rfl

/-! ## What a command comes to -/

/-- The end of a command in a context: the interrupts that are told then. -/
def After (interrupt : Option Interrupt) (result : Nat) (d : Device σ) (socket : IrqSocket)
    (acknowledged : List UInt32) : Prop :=
  match interrupt with
  | none => Heard socket acknowledged none
  | some interrupt =>
      if result = 2 then Heard socket (acknowledged ++ [interrupt.number]) none
      else d.currentIrq = interrupt.number ∧ Heard socket acknowledged (some interrupt.number)

/-- The phone answers the command, and the host reads the answer to its end. -/
structure Answers (command : Command) (interrupt : Option Interrupt) (k : Prog HostEnd)
    (handler : Prog (HandlerEnd σ)) (acknowledged : List UInt32) (outs : List UInt8) (result : Nat) (d : Device σ)
    (value : Option UInt32) (socket : IrqSocket) : Prop where
  handler : Replies handler command.request outs (.returned result d)
  host : Runs k outs [] (.ok value, socket)
  after : After interrupt result d socket acknowledged
  short : outs.length ≤ 6

theorem currentIrq_readValue (c : UInt8) (addr : UInt32) (d : Device σ) :
    (readValue bus c addr d).2.currentIrq = d.currentIrq := by
  simp only [readValue]
  split_ifs <;> rfl

theorem currentIrq_replacedValue (addr value : UInt32) (d : Device σ) :
    (replacedValue cpu addr value d).2.currentIrq = d.currentIrq := by
  cases cpu with
  | pmb8875 =>
      simp only [replacedValue]
      split_ifs <;> rfl
  | pmb8876 => rfl

theorem currentIrq_writeValue (c : UInt8) (addr value : UInt32) (irq : Bool) (d : Device σ) :
    (writeValue cpu bus c addr value irq d).currentIrq
      = if irq = true ∧ addr = vicIrqAck then 0 else d.currentIrq := by
  have hreplaced : (replacedValue cpu addr value d).2.currentIrq = d.currentIrq := currentIrq_replacedValue addr value d
  simp only [writeValue]
  split_ifs <;> first | rfl | exact hreplaced

theorem after_of_kept {interrupt : Option Interrupt} {d : Device σ} {current : Option UInt32}
    (hcurrent : current = interrupt.map Interrupt.number) (hheard : Heard socket acknowledged current)
    (hdevice : ∀ i ∈ interrupt, d.currentIrq = i.number ∧ IsNumber i.number) :
    After interrupt 1 d (afterReply interrupt.isSome d.currentIrq socket) acknowledged := by
  subst hcurrent
  cases interrupt with
  | none => exact hheard
  | some interrupt =>
      obtain ⟨hd, hnumber⟩ := hdevice interrupt rfl
      refine ⟨hd, ?_⟩
      rw [hd]
      exact heard_writeIrq hheard hnumber

theorem length_statusReply (irq : Bool) (currentIrq : UInt32) : (statusReply irq currentIrq).length ≤ 2 := by
  cases irq with
  | false => exact Nat.le_succ 1
  | true => exact Nat.le_refl 2

theorem length_pingReply (irq : Bool) (currentIrq : UInt32) : (pingReply irq currentIrq).length ≤ 2 := by
  cases irq with
  | false => exact Nat.le_succ 1
  | true => exact Nat.le_refl 2

/-- What a command may rely on. -/
structure Ready (command : Command) (interrupt : Option Interrupt) (d : Device σ) (acknowledged : List UInt32)
    (socket : IrqSocket) : Prop where
  heard : Heard socket acknowledged (interrupt.map Interrupt.number)
  device : ∀ i ∈ interrupt, d.currentIrq = i.number ∧ IsNumber i.number
  acknowledges : command.Acknowledges → interrupt.isSome = true ∧
    ∃ last, last ≠ 0 ∧ socket.written.getLast? = some last

section Answers

variable {k : Prog HostEnd} {interrupt : Option Interrupt} {d : Device σ}

theorem answers_ping (hk : ∀ irq n, Runs k (pingReply irq n) [] (.ok none, afterReply irq n socket))
    (h : Ready .ping interrupt d acknowledged socket) :
    ∃ outs result d' value socket', Answers .ping interrupt k (commandHandler cpu bus interrupt.isSome d)
      acknowledged outs result d' value socket' :=
  ⟨_, _, _, _, _, replies_ping cpu bus interrupt.isSome d, hk _ _, after_of_kept rfl h.heard h.device,
    Nat.le_trans (length_pingReply _ _) (by decide)⟩

theorem answers_read {addr : UInt32} {size : Nat}
    (hk : ∀ value irq n, Runs k (wordBytes value ++ statusReply irq n) [] (.ok (some value), afterReply irq n socket))
    (h : Ready (.read addr size) interrupt d acknowledged socket) :
    ∃ outs result d' value socket', Answers (.read addr size) interrupt k
      (commandHandler cpu bus interrupt.isSome d) acknowledged outs result d' value socket' := by
  refine ⟨_, _, _, _, _, replies_read cpu bus interrupt.isSome d (isRead_readLetter size) addr, hk _ _ _,
    after_of_kept rfl h.heard fun i hi => ?_, ?_⟩
  · rw [currentIrq_readValue]
    exact h.device i hi
  · rw [List.length_append]
    exact Nat.add_le_add_left (length_statusReply _ _) 4

theorem answers_write {addr value : UInt32} {size : Nat}
    (hk : ∀ irq n, Runs k (statusReply irq n) [] (.ok none, afterReply irq n socket))
    (h : Ready (.write addr size value) interrupt d acknowledged socket) :
    ∃ outs result d' value' socket', Answers (.write addr size value) interrupt k
      (commandHandler cpu bus interrupt.isSome d) acknowledged outs result d' value' socket' := by
  have hrun := replies_write cpu bus interrupt.isSome d (isWrite_writeLetter size) addr value
  rw [currentIrq_writeValue] at hrun
  refine ⟨_, _, _, _, _, hrun, hk _ _, ?_, Nat.le_trans (length_statusReply _ _) (by decide)⟩
  cases interrupt with
  | none => exact h.heard
  | some i =>
      obtain ⟨hd, hnumber⟩ := h.device i rfl
      by_cases hack : addr = vicIrqAck
      · -- the acknowledgement: `current_irq` is 0 and the handler returns 2
        have hheard := heard_acknowledge h.heard hnumber (h.acknowledges hack).2
        simp only [Option.isSome_some, hack, and_self, if_true]
        exact hheard
      · have hne : d.currentIrq ≠ 0 := by
          rw [hd]
          intro heq
          rw [heq] at hnumber
          exact hnumber.1 rfl
        have hkept : (writeValue cpu bus (writeLetter size) addr value true d).currentIrq = d.currentIrq := by
          rw [currentIrq_writeValue, if_neg fun hand => hack hand.2]
        simp only [Option.isSome_some, hack, hne, and_false, if_false]
        have hdevice : ∀ i' ∈ some i,
            (writeValue cpu bus (writeLetter size) addr value true d).currentIrq = i'.number ∧ IsNumber i'.number := by
          rw [hkept]
          exact h.device
        rw [← hkept]
        exact after_of_kept rfl h.heard hdevice

end Answers

/-- In each context the phone answers the command, and the host goes on with `k`. -/
def Answerable (cpu : Cpu) (bus : Bus σ) (command : Command) (k : Prog HostEnd) (socket : IrqSocket) : Prop :=
  ∀ interrupt d acknowledged, Ready command interrupt d acknowledged socket →
    ∃ outs result d' value socket', Answers command interrupt k (commandHandler cpu bus interrupt.isSome d)
      acknowledged outs result d' value socket'

/-- The host's part of a command: it sends the request and goes on with `k`. -/
theorem exists_program (cpu : Cpu) (bus : Bus σ) (command : Command) (socket : IrqSocket) :
    ∃ k, command.program socket = (sendAll command.request >>= fun _ => k) ∧
      Answerable cpu bus command k socket := by
  cases command with
  | ping =>
      obtain ⟨k, hk, hreply⟩ := exists_cmdPing socket
      refine ⟨_, (congrArg (· >>= _) hk).trans (bind_assoc _ _ _), fun interrupt d acknowledged h => ?_⟩
      exact answers_ping (fun irq n => (hreply irq n).map _) h
  | read addr size =>
      obtain ⟨k, hk, hreply⟩ := exists_cmdRead addr size socket
      refine ⟨_, (congrArg (· >>= _) hk).trans (bind_assoc _ _ _), fun interrupt d acknowledged h => ?_⟩
      exact answers_read (fun value irq n => (hreply value irq n).map _) h
  | write addr size value =>
      obtain ⟨k, hk, hreply⟩ := exists_cmdWrite addr size value socket
      refine ⟨_, (congrArg (· >>= _) hk).trans (bind_assoc _ _ _), fun interrupt d acknowledged h => ?_⟩
      exact answers_write (fun irq n => (hreply irq n).map _) h

/-! ## The phases of a command -/

/-- The phone between two commands, and the interrupt that it handles. -/
inductive Idle : Activity σ → Option Interrupt → Device σ → Prop where
  | mainLoop (checked : Bool) (d : Device σ) : Idle (.mainLoop checked d) none d
  | irqLoop (interrupt : Interrupt) (d : Device σ) (h : d.currentIrq = interrupt.number) :
      Idle (.irqLoop interrupt d) (some interrupt) d

/-- The steps that the phone may still take before it has to wait or serves a command. -/
def rank : Activity σ → List UInt8 → Nat
  | .mainLoop false _, _ => 3
  | .mainLoop true _, [] => 4
  | .mainLoop true _, _ :: _ => 2
  | .irqLoop _ _, _ => 1
  | .handler _ _ _, _ => 0
  | .onerr _, _ => 0

/-- What holds of the interrupts at any time. -/
structure Interrupts (s : System σ) (interrupt : Option Interrupt) : Prop where
  taken : s.taken = s.acknowledged ++ (interrupt.map Interrupt.number).toList
  numbers : ∀ number ∈ s.taken, IsNumber number

section Phases

variable (s : System σ) (command : Command) (unsent : List UInt8) (k : Prog HostEnd) (socket : IrqSocket)
  (interrupt : Option Interrupt) (d : Device σ) (value : Option UInt32)

/-- A command is on its way; the phone has not begun with it. -/
structure Pending (cpu : Cpu) (bus : Bus σ) : Prop where
  issued : ∃ earlier, s.issued = earlier ++ [command] ∧ s.served = earlier.map Command.request
  host : s.host = (sendAll unsent >>= fun _ => k)
  toDevice : s.toDevice ++ unsent = command.request
  toHost : s.toHost = []
  idle : Idle s.activity interrupt d
  interrupts : Interrupts s interrupt
  ready : Ready command interrupt d s.acknowledged socket
  answerable : Answerable cpu bus command k socket

/-- The phone serves the command: it has `rest` to do, and will send `outs`. -/
structure Serving (consumed : List UInt8) (rest : Prog (HandlerEnd σ)) (outs : List UInt8) (result : Nat) : Prop where
  issued : ∃ earlier, s.issued = earlier ++ [command] ∧ s.served = earlier.map Command.request
  host : s.host = (sendAll unsent >>= fun _ => k)
  toDevice : consumed ++ s.toDevice ++ unsent = command.request
  activity : s.activity = .handler interrupt consumed rest
  interrupts : Interrupts s interrupt
  replies : Replies rest (s.toDevice ++ unsent) outs (.returned result d)
  reads : Runs k (s.toHost ++ outs) [] (.ok value, socket)
  after : After interrupt result d socket s.acknowledged

/-- The phone has served the command, or there is none. -/
structure Answered : Prop where
  issued : s.served = s.issued.map Command.request
  toDevice : s.toDevice = []
  reads : Runs s.host s.toHost [] (.ok value, socket)
  idle : Idle s.activity interrupt d
  interrupts : Interrupts s interrupt
  heard : Heard socket s.acknowledged (interrupt.map Interrupt.number)

end Phases

/-- Every state is in one of the phases; `n` bounds the steps up to the end of the command. -/
inductive Phase (cpu : Cpu) (bus : Bus σ) (s : System σ) (n : Nat) : Prop where
  | pending {command : Command} {unsent : List UInt8} {k : Prog HostEnd} {socket : IrqSocket}
      {interrupt : Option Interrupt} {d : Device σ}
      (h : Pending s command unsent k socket interrupt d cpu bus)
      (hn : n = 2 * unsent.length + s.toDevice.length + 18 + rank s.activity s.toDevice)
  | serving {command : Command} {unsent : List UInt8} {k : Prog HostEnd} {socket : IrqSocket}
      {interrupt : Option Interrupt} {d : Device σ} {value : Option UInt32} {consumed : List UInt8}
      {rest : Prog (HandlerEnd σ)} {outs : List UInt8} {result : Nat}
      (h : Serving s command unsent k socket interrupt d value consumed rest outs result)
      (hn : n = 2 * unsent.length + s.toDevice.length + 2 * outs.length + s.toHost.length + 5)
  | answered {socket : IrqSocket} {interrupt : Option Interrupt} {d : Device σ} {value : Option UInt32}
      (h : Answered s socket interrupt d value) (hn : n = s.toHost.length + rank s.activity s.toDevice)

/-! ## Steps of the host -/

section Steps

variable {s s' : System σ} {command : Command} {unsent : List UInt8} {k : Prog HostEnd}
  {interrupt : Option Interrupt} {d : Device σ} {value : Option UInt32} {n : Nat}

/-- What a step of the host can be. -/
theorem hostStep_cases (h : hostStep s = some s') :
    (∃ b rest, s.host = .send b rest ∧ s' = { s with host := rest, toDevice := s.toDevice ++ [b] }) ∨
    (∃ f b toHost, s.host = .recv f ∧ s.toHost = b :: toHost ∧ s' = { s with host := f b, toHost }) := by
  rw [hostStep] at h
  split at h
  · exact .inl ⟨_, _, ‹_›, (Option.some.inj h).symm⟩
  · exact .inr ⟨_, _, _, ‹_›, ‹_›, (Option.some.inj h).symm⟩
  · cases h

/-- A host that has bytes to read waits for the first of them. -/
theorem exists_recv_of_runs {ins : List UInt8} {a : HostEnd} (h : Runs k ins [] a) (hins : ins ≠ []) :
    ∃ f b ins', k = .recv f ∧ ins = b :: ins' ∧ Runs (f b) ins' [] a := by
  cases h with
  | ret a => exact absurd rfl hins
  | recv h => exact ⟨_, _, _, rfl, rfl, h⟩

theorem Answerable.reads (h : Answerable cpu bus command k socket)
    (hready : Ready command interrupt d acknowledged socket) :
    ∃ ins a, ins ≠ [] ∧ Runs k ins [] a := by
  obtain ⟨outs, result, d', value, socket', hanswers⟩ := h _ _ _ hready
  exact ⟨outs, _, hanswers.handler.ne_nil, hanswers.host⟩

/-- A host that sends, or waits, has not ended. -/
theorem host_ne_ret {ins : List UInt8} {a : HostEnd} (hhost : s.host = (sendAll unsent >>= fun _ => k))
    (hk : Runs k ins [] a) (hins : ins ≠ []) (a' : HostEnd) : s.host ≠ .ret a' := by
  rw [hhost]
  cases unsent with
  | nil =>
      obtain ⟨f, b, ins', rfl, -, -⟩ := exists_recv_of_runs hk hins
      exact fun heq => by cases heq
  | cons b unsent => exact fun heq => by cases heq

theorem Pending.host_step (h : Pending s command unsent k socket interrupt d cpu bus)
    (hstep : hostStep s = some s') :
    ∃ b unsent', unsent = b :: unsent' ∧ s'.toDevice = s.toDevice ++ [b] ∧ s'.activity = s.activity ∧
      Pending s' command unsent' k socket interrupt d cpu bus := by
  cases unsent with
  | nil =>
      exfalso
      obtain ⟨ins, a, hins, hk⟩ := h.answerable.reads h.ready
      obtain ⟨f, b, ins', rfl, -, -⟩ := exists_recv_of_runs hk hins
      have hhost : s.host = .recv f := h.host
      rcases hostStep_cases hstep with ⟨b, rest, hsend, -⟩ | ⟨f, b, toHost, -, htoHost, -⟩
      · rw [hhost] at hsend
        cases hsend
      · rw [h.toHost] at htoHost
        cases htoHost
  | cons b unsent =>
      have hhost : s.host = .send b (sendAll unsent >>= fun _ => k) := h.host
      rcases hostStep_cases hstep with ⟨b', rest, hsend, rfl⟩ | ⟨f, b, toHost, hrecv, -, -⟩
      · rw [hhost] at hsend
        obtain ⟨rfl, rfl⟩ := Prog.send.inj hsend
        refine ⟨b, unsent, rfl, rfl, rfl, h.issued, rfl, ?_, h.toHost, h.idle,
          ⟨h.interrupts.taken, h.interrupts.numbers⟩,
          h.ready, h.answerable⟩
        rw [← h.toDevice, List.append_assoc]
        rfl
      · rw [hhost] at hrecv
        cases hrecv

/-- The host sends on, or reads what has come. -/
theorem Serving.host_step {consumed : List UInt8} {rest : Prog (HandlerEnd σ)} {outs : List UInt8} {result : Nat}
    (h : Serving s command unsent k socket interrupt d value consumed rest outs result)
    (hstep : hostStep s = some s') :
    ∃ unsent' k', Serving s' command unsent' k' socket interrupt d value consumed rest outs result ∧
      2 * unsent'.length + s'.toDevice.length + s'.toHost.length
        < 2 * unsent.length + s.toDevice.length + s.toHost.length := by
  have hreads := h.reads
  have hreplies := h.replies
  have htoDevice := h.toDevice
  cases unsent with
  | nil =>
      have hne : s.toHost ++ outs ≠ [] := List.append_ne_nil_of_right_ne_nil _ hreplies.ne_nil
      obtain ⟨f, b, ins, rfl, hins, hrest⟩ := exists_recv_of_runs hreads hne
      have hhost : s.host = .recv f := h.host
      rcases hostStep_cases hstep with ⟨b', rest', hsend, -⟩ | ⟨f', b', toHost, hrecv, htoHost, rfl⟩
      · rw [hhost] at hsend
        cases hsend
      · rw [hhost] at hrecv
        obtain rfl := Prog.recv.inj hrecv
        rw [htoHost] at hins
        obtain ⟨rfl, rfl⟩ := List.cons.inj hins
        refine ⟨[], f b', ⟨h.issued, rfl, htoDevice, h.activity, ⟨h.interrupts.taken, h.interrupts.numbers⟩, hreplies,
          hrest, h.after⟩, ?_⟩
        rw [htoHost]
        exact Nat.lt_succ_self _
  | cons b unsent =>
      have hhost : s.host = .send b (sendAll unsent >>= fun _ => k) := h.host
      rcases hostStep_cases hstep with ⟨b', rest', hsend, rfl⟩ | ⟨f, b', toHost, hrecv, -, -⟩
      · rw [hhost] at hsend
        obtain ⟨rfl, rfl⟩ := Prog.send.inj hsend
        have hqueue : s.toDevice ++ [b] ++ unsent = s.toDevice ++ b :: unsent := by
          rw [List.append_assoc]
          rfl
        refine ⟨unsent, k, ⟨h.issued, rfl, ?_, h.activity, ⟨h.interrupts.taken, h.interrupts.numbers⟩, ?_, hreads,
          h.after⟩, ?_⟩
        · rw [List.append_assoc, hqueue, ← List.append_assoc]
          exact htoDevice
        · rw [hqueue]
          exact hreplies
        · simp only [List.length_append, List.length_cons, List.length_nil]
          omega
      · rw [hhost] at hrecv
        cases hrecv

theorem Answered.host_step (h : Answered s socket interrupt d value) (hstep : hostStep s = some s') :
    Answered s' socket interrupt d value ∧ s'.toHost.length < s.toHost.length ∧ s'.activity = s.activity ∧
      s'.toDevice = s.toDevice := by
  have hreads := h.reads
  rcases hostStep_cases hstep with ⟨b, rest, hsend, -⟩ | ⟨f, b, toHost, hrecv, htoHost, rfl⟩
  · rw [hsend] at hreads
    cases hreads
  · rw [hrecv, htoHost] at hreads
    cases hreads with
    | recv hrest =>
        refine ⟨⟨h.issued, h.toDevice, hrest, h.idle, ⟨h.interrupts.taken, h.interrupts.numbers⟩, h.heard⟩, ?_,
          rfl, rfl⟩
        rw [htoHost]
        exact Nat.lt_succ_self _

/-! ## Steps of the phone -/

theorem continue_of_replies {rest : Prog (HandlerEnd σ)} {ins outs : List UInt8} {a : HandlerEnd σ}
    (h : Replies rest ins outs a) (s : System σ) (interrupt : Option Interrupt) (consumed : List UInt8) :
    s.continue interrupt consumed rest = { s with activity := .handler interrupt consumed rest } := by
  cases rest with
  | ret a' => exact absurd rfl (h.ne_ret a')
  | recv k => rfl
  | send b k => rfl

theorem rank_checked (d : Device σ) (toDevice : List UInt8) :
    (toDevice = [] → rank (.mainLoop true d) toDevice = 4) ∧
      (toDevice ≠ [] → rank (.mainLoop true d) toDevice = 2) := by
  cases toDevice with
  | nil => exact ⟨fun _ => rfl, fun hne => absurd rfl hne⟩
  | cons b toDevice => exact ⟨fun heq => absurd heq (List.cons_ne_nil _ _), fun _ => rfl⟩

theorem rank_le (activity : Activity σ) (toDevice : List UInt8) : rank activity toDevice ≤ 4 := by
  fun_cases rank activity toDevice <;> omega

/-- A byte that is queued brings the phone closer to the handler. -/
theorem rank_append (activity : Activity σ) (toDevice : List UInt8) (b : UInt8) :
    rank activity (toDevice ++ [b]) ≤ rank activity toDevice := by
  cases activity with
  | mainLoop checked d =>
      cases checked with
      | false => exact Nat.le_refl 3
      | true =>
          rw [(rank_checked d _).2 (List.append_ne_nil_of_right_ne_nil _ (List.cons_ne_nil b []))]
          cases toDevice with
          | nil => exact Nat.le_of_ble_eq_true rfl
          | cons b' toDevice => exact Nat.le_refl 2
  | irqLoop i d => exact Nat.le_refl 1
  | handler i consumed rest => exact Nat.le_refl 0
  | onerr c => exact Nat.le_refl 0

/-- Between two commands the phone goes on in its main loop, or calls the handler. -/
theorem deviceStep_of_idle (h : Idle s.activity interrupt d) (hstep : deviceStep cpu bus s = some s') :
    (∃ checked, interrupt = none ∧ s' = { s with activity := .mainLoop checked d } ∧
      rank (.mainLoop checked d) s.toDevice < rank s.activity s.toDevice) ∨
    (s.toDevice ≠ [] ∧
      s' = { s with activity := .handler interrupt [] (commandHandler cpu bus interrupt.isSome d) }) := by
  have hrank := rank_checked d s.toDevice
  cases hactivity : s.activity with
  | mainLoop checked d =>
      rw [hactivity] at h
      cases h
      cases checked with
      | false =>
          simp only [deviceStep, hactivity] at hstep
          split_ifs at hstep with hqueue
          exact .inl ⟨true, rfl, (Option.some.inj hstep).symm, by rw [hrank.2 hqueue]; exact Nat.lt_succ_self 2⟩
      | true =>
          simp only [deviceStep, hactivity] at hstep
          split_ifs at hstep with hqueue
          · exact .inr ⟨hqueue, (Option.some.inj hstep).symm⟩
          · exact .inl ⟨false, rfl, (Option.some.inj hstep).symm, by
              rw [hrank.1 (not_not.mp hqueue)]
              exact Nat.lt_succ_self 3⟩
  | irqLoop i d =>
      rw [hactivity] at h
      cases h
      simp only [deviceStep, hactivity] at hstep
      split_ifs at hstep with hqueue
      exact .inr ⟨hqueue, (Option.some.inj hstep).symm⟩
  | handler i consumed rest =>
      rw [hactivity] at h
      cases h
  | onerr c =>
      rw [hactivity] at h
      cases h

theorem toHost_continue (s : System σ) (interrupt : Option Interrupt) (consumed : List UInt8)
    (rest : Prog (HandlerEnd σ)) : (s.continue interrupt consumed rest).toHost = s.toHost := by
  cases rest with
  | recv k => rfl
  | send b k => rfl
  | ret a =>
      cases a with
      | onerr c => rfl
      | returned result d =>
          cases interrupt with
          | none => rfl
          | some i =>
              rw [System.continue]
              dsimp only
              split_ifs <;> rfl

/-- The phone takes up the command, or goes on in its main loop. -/
theorem Pending.device_step (h : Pending s command unsent k socket interrupt d cpu bus)
    (hstep : deviceStep cpu bus s = some s') :
    s'.toDevice = s.toDevice ∧ s'.toHost = [] ∧
    ((Pending s' command unsent k socket interrupt d cpu bus ∧
        rank s'.activity s'.toDevice < rank s.activity s.toDevice) ∨
      ∃ outs result d' value socket', outs.length ≤ 6 ∧
        Serving s' command unsent k socket' interrupt d' value [] (commandHandler cpu bus interrupt.isSome d) outs
          result) := by
  rcases deviceStep_of_idle h.idle hstep with ⟨checked, rfl, rfl, hrank⟩ | ⟨hqueue, rfl⟩
  · exact ⟨rfl, h.toHost, .inl ⟨⟨h.issued, h.host, h.toDevice, h.toHost, .mainLoop checked d,
      ⟨h.interrupts.taken, h.interrupts.numbers⟩, h.ready, h.answerable⟩, hrank⟩⟩
  · obtain ⟨outs, result, d', value, socket', hanswers⟩ := h.answerable _ _ _ h.ready
    refine ⟨rfl, h.toHost, .inr ⟨outs, result, d', value, socket', hanswers.short, h.issued, h.host, h.toDevice, rfl,
      ⟨h.interrupts.taken, h.interrupts.numbers⟩, ?_, ?_, hanswers.after⟩⟩
    · rw [h.toDevice]
      exact hanswers.handler
    · rw [h.toHost]
      exact hanswers.host

theorem Answered.device_step (h : Answered s socket interrupt d value) (hstep : deviceStep cpu bus s = some s') :
    Answered s' socket interrupt d value ∧ s'.host = s.host ∧ s'.toHost = s.toHost ∧
      rank s'.activity s'.toDevice < rank s.activity s.toDevice := by
  rcases deviceStep_of_idle h.idle hstep with ⟨checked, rfl, rfl, hrank⟩ | ⟨hqueue, -⟩
  · exact ⟨⟨h.issued, h.toDevice, h.reads, .mainLoop checked d, ⟨h.interrupts.taken, h.interrupts.numbers⟩, h.heard⟩,
      rfl, rfl, hrank⟩
  · exact absurd h.toDevice hqueue

/-- The handler returns with the last byte of its reply. -/
theorem answered_of_return {interrupt : Option Interrupt} {consumed : List UInt8} {result : Nat}
    (hissued : s.served ++ [consumed] = s.issued.map Command.request) (htoDevice : s.toDevice = [])
    (hreads : Runs s.host s.toHost [] (.ok value, socket)) (hinterrupts : Interrupts s interrupt)
    (hafter : After interrupt result d socket s.acknowledged) :
    ∃ interrupt', Answered (s.continue interrupt consumed (.ret (.returned result d))) socket interrupt' d value := by
  cases interrupt with
  | none =>
      exact ⟨none, hissued, htoDevice, hreads, .mainLoop false d, ⟨hinterrupts.taken, hinterrupts.numbers⟩, hafter⟩
  | some i =>
      rw [After] at hafter
      by_cases hresult : result = 2
      · rw [if_pos hresult] at hafter
        rw [System.continue]
        dsimp only
        rw [if_pos hresult]
        refine ⟨none, hissued, htoDevice, hreads, .mainLoop i.checked d, ⟨?_, hinterrupts.numbers⟩, hafter⟩
        rw [hinterrupts.taken]
        exact (List.append_nil _).symm
      · rw [if_neg hresult] at hafter
        rw [System.continue]
        dsimp only
        rw [if_neg hresult]
        exact ⟨some i, hissued, htoDevice, hreads, .irqLoop i d hafter.1, ⟨hinterrupts.taken, hinterrupts.numbers⟩,
          hafter.2⟩

/-- The handler consumes a byte, sends one, or sends its last. -/
theorem Serving.device_step {consumed : List UInt8} {rest : Prog (HandlerEnd σ)} {outs : List UInt8} {result : Nat}
    (h : Serving s command unsent k socket interrupt d value consumed rest outs result)
    (hstep : deviceStep cpu bus s = some s') :
    (∃ consumed' rest' outs', Serving s' command unsent k socket interrupt d value consumed' rest' outs' result ∧
      s'.toDevice.length + 2 * outs'.length + s'.toHost.length
        < s.toDevice.length + 2 * outs.length + s.toHost.length) ∨
    ∃ interrupt', Answered s' socket interrupt' d value ∧ s'.toHost.length = s.toHost.length + 1 := by
  obtain ⟨earlier, hissued, hserved⟩ := h.issued
  have hreads := h.reads
  rcases h.replies.first with ⟨b, rfl, hins, rfl⟩ | ⟨f, b, ins, rfl, hins, hrest⟩ | ⟨rest', b, outs', rfl, rfl, hrest⟩
  · -- the last byte
    obtain ⟨htoDevice, rfl⟩ := List.append_eq_nil_iff.mp hins
    simp only [deviceStep, h.activity] at hstep
    obtain rfl := Option.some.inj hstep
    have hconsumed := h.toDevice
    rw [htoDevice, List.append_nil, List.append_nil] at hconsumed
    have hhost : s.host = k := h.host
    have hserved' : s.served ++ [consumed] = s.issued.map Command.request := by
      rw [hserved, hissued, hconsumed, List.map_append]
      rfl
    obtain ⟨interrupt', hanswered⟩ := answered_of_return (s := { s with toHost := s.toHost ++ [b] }) hserved'
      htoDevice (hhost ▸ hreads) ⟨h.interrupts.taken, h.interrupts.numbers⟩ h.after
    refine .inr ⟨interrupt', hanswered, ?_⟩
    rw [toHost_continue, List.length_append]
    rfl
  · -- a byte of the request
    cases htoDevice : s.toDevice with
    | nil =>
        simp only [deviceStep, h.activity, htoDevice] at hstep
        cases hstep
    | cons b' queue =>
        rw [htoDevice] at hins
        obtain ⟨rfl, rfl⟩ := List.cons.inj hins
        simp only [deviceStep, h.activity, htoDevice] at hstep
        rw [continue_of_replies hrest] at hstep
        obtain rfl := Option.some.inj hstep
        refine .inl ⟨consumed ++ [b'], f b', outs, ⟨⟨earlier, hissued, hserved⟩, h.host, ?_, rfl,
          ⟨h.interrupts.taken, h.interrupts.numbers⟩, hrest, hreads, h.after⟩, ?_⟩
        · rw [← h.toDevice, htoDevice, List.append_assoc consumed]
          rfl
        · simp only [List.length_cons]
          omega
  · -- a byte of the reply
    simp only [deviceStep, h.activity] at hstep
    rw [continue_of_replies hrest] at hstep
    obtain rfl := Option.some.inj hstep
    refine .inl ⟨consumed, rest', outs', ⟨⟨earlier, hissued, hserved⟩, h.host, h.toDevice, rfl,
      ⟨h.interrupts.taken, h.interrupts.numbers⟩, hrest, ?_, h.after⟩, ?_⟩
    · rw [List.append_assoc]
      exact hreads
    · simp only [List.length_append, List.length_cons, List.length_nil]
      omega

/-! ## Interrupts -/

theorem interruptStep_cases {number : UInt32} (h : Idle s.activity interrupt d)
    (hstep : step cpu bus (.interrupt number) s = some s') :
    ∃ checked, s.activity = .mainLoop checked d ∧ interrupt = none ∧
      s' = { s with
        activity := .irqLoop ⟨number, checked⟩ { d with currentIrq := number }
        taken := s.taken ++ [number] } := by
  cases hactivity : s.activity with
  | mainLoop checked d =>
      rw [hactivity] at h
      cases h
      simp only [step, hactivity] at hstep
      exact ⟨checked, rfl, rfl, (Option.some.inj hstep).symm⟩
  | irqLoop i d =>
      simp only [step, hactivity] at hstep
      cases hstep
  | handler i consumed rest =>
      simp only [step, hactivity] at hstep
      cases hstep
  | onerr c =>
      simp only [step, hactivity] at hstep
      cases hstep

theorem rank_mainLoop (checked : Bool) (d : Device σ) (toDevice : List UInt8) :
    1 < rank (.mainLoop checked d) toDevice := by
  cases checked with
  | false => exact Nat.lt_of_sub_eq_succ rfl
  | true =>
      cases toDevice with
      | nil => exact Nat.lt_of_sub_eq_succ rfl
      | cons b toDevice => exact Nat.lt_of_sub_eq_succ rfl

theorem Interrupts.take {number : UInt32} (h : Interrupts s none) (hnumber : IsNumber number) (checked : Bool)
    (activity : Activity σ) :
    Interrupts { s with activity, taken := s.taken ++ [number] } (some ⟨number, checked⟩) := by
  have htaken : s.taken = s.acknowledged := h.taken.trans (List.append_nil _)
  refine ⟨congrArg (· ++ [number]) htaken, fun number' hmem => ?_⟩
  rcases List.mem_append.mp hmem with hearlier | hlast
  · exact h.numbers number' hearlier
  · exact List.mem_singleton.mp hlast ▸ hnumber

/-- An interrupt comes before the phone has begun with the command. -/
theorem Pending.interrupt_step {number : UInt32} (h : Pending s command unsent k socket interrupt d cpu bus)
    (hnumber : IsNumber number) (hstep : step cpu bus (.interrupt number) s = some s') :
    s'.toDevice = s.toDevice ∧ rank s'.activity s'.toDevice < rank s.activity s.toDevice ∧
      ∃ interrupt' d', Pending s' command unsent k socket interrupt' d' cpu bus := by
  obtain ⟨checked, hactivity, rfl, rfl⟩ := interruptStep_cases h.idle hstep
  refine ⟨rfl, ?_, some ⟨number, checked⟩, { d with currentIrq := number }, h.issued, h.host, h.toDevice, h.toHost,
    .irqLoop _ _ rfl, h.interrupts.take hnumber checked _, ⟨heard_interrupt h.ready.heard, ?_, fun hack => ?_⟩,
    h.answerable⟩
  · rw [hactivity]
    exact rank_mainLoop checked d s.toDevice
  · intro i hi
    obtain rfl := Option.mem_some.mp hi
    exact ⟨rfl, hnumber⟩
  · exact absurd (h.ready.acknowledges hack).1 Bool.false_ne_true

theorem Answered.interrupt_step {number : UInt32} (h : Answered s socket interrupt d value)
    (hnumber : IsNumber number) (hstep : step cpu bus (.interrupt number) s = some s') :
    s'.host = s.host ∧ s'.toHost = s.toHost ∧ rank s'.activity s'.toDevice < rank s.activity s.toDevice ∧
      ∃ interrupt' d', Answered s' socket interrupt' d' value := by
  obtain ⟨checked, hactivity, rfl, rfl⟩ := interruptStep_cases h.idle hstep
  refine ⟨rfl, rfl, ?_, some ⟨number, checked⟩, { d with currentIrq := number }, h.issued, h.toDevice, h.reads,
    .irqLoop _ _ rfl, h.interrupts.take hnumber checked _, heard_interrupt h.heard⟩
  rw [hactivity]
  exact rank_mainLoop checked d s.toDevice

/-! ## The next command -/

theorem Idle.currentIrq {activity : Activity σ} (h : Idle activity interrupt d) :
    ∀ i ∈ interrupt, d.currentIrq = i.number := by
  intro i hi
  cases h with
  | mainLoop checked d => cases hi
  | irqLoop i' d hd =>
      obtain rfl := Option.mem_some.mp hi
      exact hd

theorem Interrupts.isNumber (h : Interrupts s interrupt) : ∀ i ∈ interrupt, IsNumber i.number := by
  intro i hi
  refine h.numbers i.number ?_
  rw [h.taken, Option.mem_def.mp hi]
  exact List.mem_append_right _ (List.mem_singleton_self _)

theorem Answered.issue_step (h : Answered s socket interrupt d value) (hallowed : Allowed s (.issue command))
    (hstep : step cpu bus (.issue command) s = some s') :
    ∃ unsent k, Pending s' command unsent k socket interrupt d cpu bus := by
  have hreads := h.reads
  cases hhost : s.host with
  | ret r =>
      rw [hhost] at hreads
      obtain ⟨htoHost, rfl⟩ := hreads.of_ret
      simp only [step, hhost] at hstep
      obtain rfl := Option.some.inj hstep
      obtain ⟨k, hprogram, hanswerable⟩ := exists_program cpu bus command socket
      refine ⟨command.request, k, ⟨s.issued, rfl, h.issued⟩, hprogram, ?_, htoHost, h.idle,
        ⟨h.interrupts.taken, h.interrupts.numbers⟩, ⟨h.heard, fun i hi => ⟨h.idle.currentIrq i hi,
          h.interrupts.isNumber i hi⟩, fun hack => ?_⟩, hanswerable⟩
      · rw [h.toDevice, List.nil_append]
      · have hlast := hallowed hack _ _ hhost
        obtain ⟨number, hcurrent, -⟩ := exists_told h.heard hlast
        refine ⟨?_, hlast⟩
        rw [← Option.isSome_map (f := Interrupt.number), hcurrent]
        rfl
  | recv f =>
      simp only [step, hhost] at hstep
      cases hstep
  | send b rest =>
      simp only [step, hhost] at hstep
      cases hstep

theorem issueStep_none (h : ∀ r, s.host ≠ .ret r) : step cpu bus (.issue command) s = none := by
  cases hhost : s.host with
  | ret r => exact absurd hhost (h r)
  | recv f => simp only [step, hhost]
  | send b rest => simp only [step, hhost]

theorem Pending.host_ne_ret (h : Pending s command unsent k socket interrupt d cpu bus) (r : HostEnd) :
    s.host ≠ .ret r := by
  obtain ⟨ins, a, hins, hk⟩ := h.answerable.reads h.ready
  exact IoBridge.host_ne_ret h.host hk hins r

theorem Serving.host_ne_ret {consumed : List UInt8} {rest : Prog (HandlerEnd σ)} {outs : List UInt8} {result : Nat}
    (h : Serving s command unsent k socket interrupt d value consumed rest outs result) (r : HostEnd) :
    s.host ≠ .ret r :=
  IoBridge.host_ne_ret h.host h.reads (List.append_ne_nil_of_right_ne_nil _ h.replies.ne_nil) r

/-- **What a step does**: the command comes closer to its end, unless there is none. -/
theorem phase_step {a : Action} (h : Phase cpu bus s n) (hallowed : Allowed s a)
    (hstep : step cpu bus a s = some s') :
    ∃ m, Phase cpu bus s' m ∧ ((∀ r, s.host ≠ .ret r) → m < n) := by
  cases h with
  | pending h hn =>
      cases a with
      | issue command =>
          rw [issueStep_none h.host_ne_ret] at hstep
          cases hstep
      | host =>
          obtain ⟨b, unsent', rfl, htoDevice, hactivity, h'⟩ := h.host_step hstep
          refine ⟨_, .pending h' rfl, fun _ => ?_⟩
          have hrank := rank_append s.activity s.toDevice b
          rw [hn, hactivity, htoDevice]
          simp only [List.length_append, List.length_cons, List.length_nil]
          omega
      | device =>
          obtain ⟨htoDevice, htoHost, ⟨h', hrank⟩ | ⟨outs, result, d', value, socket', hshort, h'⟩⟩ :=
            h.device_step hstep
          · refine ⟨_, .pending h' rfl, fun _ => ?_⟩
            rw [hn, htoDevice]
            rw [htoDevice] at hrank
            omega
          · refine ⟨_, .serving h' rfl, fun _ => ?_⟩
            rw [hn, htoDevice, htoHost, List.length_nil]
            omega
      | interrupt number =>
          obtain ⟨htoDevice, hrank, interrupt', d', h'⟩ := h.interrupt_step (isNumber_of_lt hallowed) hstep
          refine ⟨_, .pending h' rfl, fun _ => ?_⟩
          rw [hn, htoDevice]
          rw [htoDevice] at hrank
          omega
  | serving h hn =>
      cases a with
      | issue command =>
          rw [issueStep_none h.host_ne_ret] at hstep
          cases hstep
      | host =>
          obtain ⟨unsent', k', h', hlt⟩ := h.host_step hstep
          refine ⟨_, .serving h' rfl, fun _ => ?_⟩
          omega
      | device =>
          rcases h.device_step hstep with ⟨consumed', rest', outs', h', hlt⟩ | ⟨interrupt', h', htoHost⟩
          · refine ⟨_, .serving h' rfl, fun _ => ?_⟩
            omega
          · refine ⟨_, .answered h' rfl, fun _ => ?_⟩
            have hrank := rank_le s'.activity s'.toDevice
            have houts := List.length_pos_of_ne_nil h.replies.ne_nil
            omega
      | interrupt number =>
          simp only [step, h.activity] at hstep
          cases hstep
  | answered h hn =>
      cases a with
      | issue command =>
          obtain ⟨unsent, k, h'⟩ := h.issue_step hallowed hstep
          refine ⟨_, .pending h' rfl, fun hrunning => ?_⟩
          rw [issueStep_none hrunning] at hstep
          cases hstep
      | host =>
          obtain ⟨h', hlt, hactivity, htoDevice⟩ := h.host_step hstep
          refine ⟨_, .answered h' rfl, fun _ => ?_⟩
          rw [hn, hactivity, htoDevice]
          exact Nat.add_lt_add_right hlt _
      | device =>
          obtain ⟨h', -, htoHost, hrank⟩ := h.device_step hstep
          refine ⟨_, .answered h' rfl, fun _ => ?_⟩
          rw [hn, htoHost]
          exact Nat.add_lt_add_left hrank _
      | interrupt number =>
          obtain ⟨-, htoHost, hrank, interrupt', d', h'⟩ := h.interrupt_step (isNumber_of_lt hallowed) hstep
          refine ⟨_, .answered h' rfl, fun _ => ?_⟩
          rw [hn, htoHost]
          exact Nat.add_lt_add_left hrank _

theorem phase_start (d : Device σ) : Phase cpu bus (start d) 3 := by
  have hanswered : Answered (start d) ⟨-1, []⟩ none d none :=
    ⟨rfl, rfl, Runs.ret _, .mainLoop false d, ⟨rfl, fun number hmem => absurd hmem List.not_mem_nil⟩,
      .silent rfl (show (-1 : Int) ≤ 0 by decide)⟩
  exact .answered hanswered rfl

/-! ## Every run -/

theorem Idle.between {activity : Activity σ} (h : Idle activity interrupt d) :
    Between activity (interrupt.map Interrupt.number) := by
  cases h with
  | mainLoop checked d => exact .mainLoop checked d
  | irqLoop i d hd => exact .irqLoop i d hd

/-- Where the host has ended, the two sides are in step. -/
theorem Phase.inStep {result : Except HostError (Option UInt32)} (h : Phase cpu bus s n)
    (hhost : s.host = .ret (result, socket)) : InStep s result socket := by
  cases h with
  | pending h hn => exact absurd hhost (h.host_ne_ret _)
  | serving h hn => exact absurd hhost (h.host_ne_ret _)
  | answered h hn =>
      have hreads := h.reads
      rw [hhost] at hreads
      obtain ⟨htoHost, hend⟩ := hreads.of_ret
      obtain ⟨rfl, rfl⟩ := Prod.mk.inj hend
      exact ⟨⟨_, rfl⟩, ⟨h.toDevice, htoHost⟩, h.issued, ⟨_, h.idle.between, h.interrupts.taken, told_of_heard h.heard⟩,
        h.interrupts.numbers⟩

theorem exists_hostStep_send {b : UInt8} {rest : Prog HostEnd} (h : s.host = .send b rest) :
    ∃ s', hostStep s = some s' := by
  simp only [hostStep, h, Option.some.injEq, exists_eq']

theorem exists_deviceStep_of_idle (h : Idle s.activity interrupt d) (hqueue : s.toDevice ≠ []) :
    ∃ s', deviceStep cpu bus s = some s' := by
  cases hactivity : s.activity with
  | mainLoop checked d =>
      cases checked with
      | false => simp only [deviceStep, hactivity, if_pos hqueue, Option.some.injEq, exists_eq']
      | true => simp only [deviceStep, hactivity, if_pos hqueue, Option.some.injEq, exists_eq']
  | irqLoop i d => simp only [deviceStep, hactivity, if_pos hqueue, Option.some.injEq, exists_eq']
  | handler i consumed rest =>
      rw [hactivity] at h
      cases h
  | onerr c =>
      rw [hactivity] at h
      cases h

theorem request_ne_nil (command : Command) : command.request ≠ [] := by
  cases command <;> exact List.cons_ne_nil _ _

/-- Where it has not, one of the sides can go on. -/
theorem Phase.exists_step (h : Phase cpu bus s n) (hrunning : ∀ r, s.host ≠ .ret r) :
    ∃ s', hostStep s = some s' ∨ deviceStep cpu bus s = some s' := by
  cases h with
  | pending h hn =>
      rename_i command unsent k socket interrupt d
      cases unsent with
      | nil =>
          have hqueue : s.toDevice = command.request := (List.append_nil _).symm.trans h.toDevice
          obtain ⟨s', hs'⟩ : ∃ s', deviceStep cpu bus s = some s' :=
            exists_deviceStep_of_idle h.idle (hqueue ▸ request_ne_nil command)
          exact ⟨s', .inr hs'⟩
      | cons b unsent =>
          obtain ⟨s', hs'⟩ := exists_hostStep_send h.host
          exact ⟨s', .inl hs'⟩
  | serving h hn =>
      rename_i command unsent k socket interrupt d value consumed rest outs result
      rcases h.replies.first with ⟨b, rfl, hins, rfl⟩ | ⟨f, b, ins, rfl, hins, hrest⟩ |
        ⟨rest', b, outs', rfl, rfl, hrest⟩
      · exact ⟨_, .inr (by simp only [deviceStep, h.activity]; rfl)⟩
      · cases htoDevice : s.toDevice with
        | nil =>
            -- the phone waits for a byte that the host has still to send
            rw [htoDevice] at hins
            obtain rfl : unsent = b :: ins := hins
            obtain ⟨s', hs'⟩ := exists_hostStep_send h.host
            exact ⟨s', .inl hs'⟩
        | cons b' queue => exact ⟨_, .inr (by simp only [deviceStep, h.activity, htoDevice]; rfl)⟩
      · exact ⟨_, .inr (by simp only [deviceStep, h.activity]; rfl)⟩
  | answered h hn =>
      have hreads := h.reads
      cases hhost : s.host with
      | ret r => exact absurd hhost (hrunning r)
      | send b rest =>
          rw [hhost] at hreads
          cases hreads
      | recv f =>
          rw [hhost] at hreads
          cases htoHost : s.toHost with
          | nil =>
              rw [htoHost] at hreads
              cases hreads
          | cons b toHost => exact ⟨_, .inl (by simp only [hostStep, hhost, htoHost]; rfl)⟩

/-- A step on the way to the end of a command. -/
def Within (cpu : Cpu) (bus : Bus σ) (s' s : System σ) : Prop :=
  (∀ r, s.host ≠ .ret r) ∧ ∃ a, Allowed s a ∧ step cpu bus a s = some s'

theorem Phase.acc (h : Phase cpu bus s n) : Acc (Within cpu bus) s := by
  induction n using Nat.strong_induction_on generalizing s with
  | _ n ih =>
      refine ⟨_, fun s' hwithin => ?_⟩
      obtain ⟨hrunning, a, hallowed, hstep⟩ := hwithin
      obtain ⟨m, h', hlt⟩ := phase_step h hallowed hstep
      exact ih m (hlt hrunning) h'

end Steps

/-- **Host and phone stay in step**, whenever a device interrupts. When the host has finished a command, both are
between two commands and each command was served once, and the interrupts were told one after the other. While a
command is on its way one of the sides can go on, and it comes to its end whatever happens. -/
theorem bridge_inStep {d : Device σ} {s : System σ} (h : Reachable (step cpu bus) Allowed (start d) s) :
    (∀ result socket, s.host = .ret (result, socket) → InStep s result socket) ∧
    ((∀ r, s.host ≠ .ret r) →
      ∃ s', step cpu bus .host s = some s' ∨ step cpu bus .device s = some s') ∧
    Acc (Within cpu bus) s := by
  have hphase : ∃ n, Phase cpu bus s n := by
    refine h.invariant (P := fun s => ∃ n, Phase cpu bus s n) ⟨3, phase_start d⟩ ?_
    intro s a s' ⟨n, hn⟩ hallowed hstep
    obtain ⟨m, hm, -⟩ := phase_step hn hallowed hstep
    exact ⟨m, hm⟩
  obtain ⟨n, hn⟩ := hphase
  exact ⟨fun result socket => hn.inStep, hn.exists_step, hn.acc⟩

/-- Some steps of the two sides. -/
theorem reachable_sides {t s s' : System σ} (h : Reachable (step cpu bus) Allowed t s) (sides : List Action)
    (hsides : ∀ a ∈ sides, ∀ s : System σ, Allowed s a)
    (hrun : sides.foldlM (fun s a => step cpu bus a s) s = some s') : Reachable (step cpu bus) Allowed t s' := by
  induction sides generalizing s with
  | nil =>
      cases hrun
      exact h
  | cons a sides ih =>
      rw [List.foldlM_cons, Option.bind_eq_bind, Option.bind_eq_some_iff] at hrun
      obtain ⟨s₁, hstep, hrest⟩ := hrun
      have hfirst := h.step (hsides a List.mem_cons_self s) hstep
      exact ih hfirst (fun b hb => hsides b (List.mem_cons_of_mem a hb)) hrest

/-- Nothing is behind the addresses. -/
def emptyBus : Bus Unit where
  reg _ s := (0, s)
  regShort _ s := (0, s)
  regByte _ s := (0, s)
  setReg _ _ s := s
  setRegShort _ _ s := s
  setRegByte _ _ s := s

/-- The host sends or receives `n` bytes, then the phone goes `m` steps on, then the host receives two bytes. -/
def exchange (n m : Nat) : List Action :=
  List.replicate n .host ++ List.replicate m .device ++ List.replicate 2 .host

theorem allowed_exchange {n m : Nat} : ∀ a ∈ exchange n m, ∀ s : System Unit, Allowed s a := by
  intro a ha s
  simp only [exchange, List.mem_append, List.mem_replicate] at ha
  obtain (⟨-, rfl⟩ | ⟨-, rfl⟩) | ⟨-, rfl⟩ := ha <;> trivial

/-- A ping is answered in an interrupt, so the emulator is told its number, and it acknowledges the interrupt. -/
theorem bridge_inStep_acknowledge :
    ∃ s, Reachable (step .pmb8876 emptyBus) Allowed (start ⟨(), 0, 0⟩) s ∧
      s.host = .ret (.ok none, ⟨0, [0x20, 0]⟩) ∧ s.acknowledged = [0x20] ∧
        InStep s (.ok none) ⟨0, [0x20, 0]⟩ := by
  have hstart : Reachable (step .pmb8876 emptyBus) Allowed (start ⟨(), 0, 0⟩) (start ⟨(), 0, 0⟩) := .init
  have hinterrupt := hstart.step (a := .interrupt 0x20)
    (show Allowed (start ⟨(), 0, 0⟩) (.interrupt 0x20) from ⟨by decide, by decide⟩) rfl
  have hping := hinterrupt.step (a := .issue .ping) (show Allowed _ (.issue .ping) from fun hack => False.elim hack)
    rfl
  have htold := reachable_sides hping (exchange 1 4) allowed_exchange rfl
  have hissue := htold.step (a := .issue (.write vicIrqAck 4 0))
    (show Allowed _ (.issue (.write vicIrqAck 4 0)) from fun _ result socket hhost => by
      cases hhost
      exact ⟨0x20, by decide, rfl⟩) rfl
  have hdone := reachable_sides hissue (exchange 9 12) allowed_exchange rfl
  exact ⟨_, hdone, rfl, rfl, (bridge_inStep hdone).1 _ _ rfl⟩

end Pmb887x.IoBridge
