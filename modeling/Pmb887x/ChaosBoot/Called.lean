import Pmb887x.ChaosBoot.InTime
import Pmb887x.ChaosBoot.TimedSession

set_option autoImplicit false

/-! # What is in the memory when a program is called

The whole client: the tasks of the flasher, the file or the kernel, and the jump. In every run, however many
receptions are out of time, the boot loader calls the right address, with all writes of the session in the
memory and nothing else changed. -/

namespace Pmb887x.ChaosBoot

open Library

/-! ## The writes of the client -/

/-- The program to be called and the memory that it is to find. -/
def callTarget (opts : Options) (memory : Memory) : Option (Nat × Memory) :=
  opts.launch.map fun launch => (launch.entry % 2 ^ 32, sessionMemory opts memory)

section

variable {phone : Phone} {d₀ : Device} {target : Option (Nat × Memory)}

theorem applies_chaosWriteRam (addr : Nat) (buff : List UInt8) {chunk : Nat} (hpos : 0 < chunk)
    (hlt : chunk < 2 ^ 32) :
    Applies phone d₀ target (fun memory => memory.writeBytes addr 0 buff) (chaosWriteRam addr buff chunk) := by
  have hblocks : Applies phone d₀ target (fun memory => memory.writeBytes addr 0 buff)
      ((makeWriteBlocks addr buff chunk).forM fun block => writeBlock (writeRequest block.1 block.2) writeTries) := by
    rw [← funext (foldl_makeWriteBlocks addr buff hpos)]
    refine Applies.forM fun block hblock => ?_
    obtain ⟨hne, hle⟩ := mem_makeWriteBlocks hpos hblock
    exact applies_writeBlock _ hne (Nat.lt_of_le_of_lt hle hlt) writeTries
  exact hblocks.bind_left fun _ => .pure true

theorem applies_exitUnless (e : Exit) (ok : Bool) : Applies phone d₀ target id (exitUnless e ok) := by
  cases ok with
  | true => exact .pure ()
  | false => exact .throw id e

theorem applies_runTask (info : PhoneInfo) (task : Task) :
    Applies phone d₀ target (taskMemory task) (runTask info task) := by
  cases task with
  | read addr size =>
      refine applies_chaosKeepAlive.bind_right fun _ => ?_
      exact (applies_chaosReadRam addr size (by decide) (by decide)).bind fun res => .pure (some res)
  | write addr raw =>
      refine (applies_exitUnless _ _).bind_right fun _ => applies_chaosKeepAlive.bind_right fun _ => ?_
      exact (applies_chaosWriteRam addr raw (by decide) (by decide)).bind_left fun _ => .pure none
  | erase addr => exact .throw _ .unknownFlasherCommand

theorem applies_runFlasher (tasks : List Task) :
    Applies phone d₀ target (tasksMemory tasks) (runFlasher tasks) := by
  refine applies_chaosReadInfo.bind_right fun info => ?_
  cases info with
  | none => exact .throw _ .cannotReadPhoneInfo
  | some info => exact Applies.mapM fun task _ => applies_runTask info task

/-- `chaos_write_ram`, or the end of the client. -/
theorem applies_load {α : Type} {F : Memory → Memory} {k : Host α} (addr : Nat) (buff : List UInt8)
    (hk : Applies phone d₀ target F k) :
    Applies phone d₀ target (fun memory => F (memory.writeBytes addr 0 buff))
      (chaosWriteRam addr buff chunkSize >>= fun ok => exitUnless .loadError ok >>= fun _ => k) :=
  (applies_chaosWriteRam addr buff (by decide) (by decide)).bind fun ok =>
    (applies_exitUnless _ ok).bind_right fun _ => hk

theorem applies_runLaunch (launch : Option Launch) :
    Applies phone d₀ target (fun memory => (launch.map fun launch => launchMemory launch memory).getD memory)
      (runLaunch launch) := by
  cases launch with
  | none => exact .pure ()
  | some launch =>
      cases launch with
      | exec execAddr raw =>
          refine applies_chaosKeepAlive.bind_right fun _ => ?_
          have hraw : Applies phone d₀ target (fun memory => memory.writeBytes execAddr 0 raw)
              (chaosWriteRam execAddr raw flasherChunkSize) := applies_chaosWriteRam _ raw (by decide) (by decide)
          exact hraw.bind_left fun ok => applies_exitUnless _ ok
      | linux execAddr kernel dtb =>
          have hkernel : Applies phone d₀ target (fun memory => memory.writeBytes (kernelAddr execAddr) 0 kernel)
              (chaosWriteRam (kernelAddr execAddr) kernel chunkSize >>= exitUnless .loadError) :=
            (applies_chaosWriteRam _ kernel (by decide) (by decide)).bind_left fun ok => applies_exitUnless _ ok
          have hdtb := applies_load (dtbAddr execAddr kernel) dtb hkernel
          have hpreloader := applies_load execAddr (linuxPreloader (dtbAddr execAddr kernel)) hdtb
          refine (applies_exitUnless _ _).bind_right fun _ => (applies_exitUnless _ _).bind_right fun _ => ?_
          exact applies_chaosKeepAlive.bind_right fun _ => hpreloader

/-- The end of the client where it is to go on only if `ok`. -/
theorem triple_exitUnless {P : Device → Prop} (e : Exit) (ok : Bool) :
    Triple phone d₀ target (fun d => ok = true → P d) (exitUnless e ok) fun _ => P := by
  cases ok with
  | true => exact Triple.pure () fun _ h => h rfl
  | false => exact Triple.throw e

theorem triple_openSession (opts : Options) (R : Memory → Prop) :
    Triple phone d₀ target (fun d => d.control = .startwait ∧ R (phone.readInfo d.memory)) (openSession opts)
      fun _ d => d.control = .mainLoop ∧ R d.memory := by
  have hstart : Triple phone d₀ target (fun d => d.control = .startwait ∧ R (phone.readInfo d.memory))
      (portWrite [startByte]) fun _ d => d.control = .mainLoop ∧ R d.memory :=
    Triple.request .start (fun d hd => ⟨hd.1, rfl, hd.2⟩) fun d hd => not_called_of_mainLoop hd
  have hkeep : Applies phone d₀ target id ((List.range 4).forM fun _ => chaosKeepAlive) := by
    rw [← Applies.foldl_id (List.range 4)]
    exact Applies.forM fun _ _ => applies_chaosKeepAlive
  have hspeed : Triple phone d₀ target (fun d => d.control = .mainLoop ∧ R d.memory)
      (changeSpeed opts) fun ok d => ok = true → d.control = .mainLoop ∧ R d.memory := by
    rw [changeSpeed]
    split_ifs with hdiffer
    · exact triple_chaosSetSpeed opts.speed R
    · exact Triple.pure true fun _ h _ => h
  refine hstart.bind fun _ => (Applies.readb R).bind fun c => (applies_exitUnless _ _ R).bind fun _ => ?_
  refine (applies_chaosPing R).bind fun pong => (applies_exitUnless _ pong R).bind fun _ => ?_
  refine (hkeep R).bind fun _ => hspeed.bind fun ok => (triple_exitUnless _ ok).bind fun _ => ?_
  exact applies_chaosKeepAlive R

/-- **A session that comes to its end has applied its writes.** -/
theorem triple_session (opts : Options) (R : Memory → Prop) :
    Triple phone d₀ target
      (fun d => d.control = .startwait ∧ R (sessionMemory opts (phone.readInfo d.memory))) (session opts)
      fun outcome d => outcome.entry = opts.launch.map Launch.entry ∧ d.control = .mainLoop ∧ R d.memory := by
  have htasks : Applies phone d₀ target (tasksMemory opts.tasks) (runTasks opts.tasks) := by
    rw [runTasks]
    split_ifs with hempty
    · rw [List.isEmpty_iff.mp hempty]
      exact .pure []
    · exact applies_runFlasher opts.tasks
  refine (triple_openSession opts (R ∘ sessionMemory opts)).bind fun _ => ?_
  refine (htasks fun memory => R ((opts.launch.map fun launch => launchMemory launch memory).getD memory)).bind
    fun files => ?_
  exact (applies_runLaunch opts.launch R).bind fun _ => Triple.pure _ fun _ h => ⟨rfl, h⟩

end

/-! ## The images in the memory -/

/-- Nothing lies behind the end of the address space. -/
def Launch.Fits : Launch → Prop
  | .exec _ raw => raw.length ≤ addressSpace
  | .linux execAddr kernel dtb => dtbAddr execAddr kernel + dtb.length ≤ addressSpace

/-- The file is in the memory, or the three parts of a Linux system. -/
def Launch.Loaded (memory : Memory) : Launch → Prop
  | .exec execAddr raw => memory.Holds execAddr 0 raw
  | .linux execAddr kernel dtb =>
      memory.Holds execAddr 0 (linuxPreloader (dtbAddr execAddr kernel)) ∧
        memory.Holds (dtbAddr execAddr kernel) 0 dtb ∧ memory.Holds (kernelAddr execAddr) 0 kernel

/-- The device tree is behind the kernel. -/
theorem le_dtbAddr (execAddr : Nat) (kernel : List UInt8) :
    kernelAddr execAddr + kernel.length ≤ dtbAddr execAddr kernel := by
  rw [dtbAddr]
  split_ifs
  · exact Nat.le_add_right _ _
  · exact Nat.le_refl _

/-- **No part of a system is written over another one.** -/
theorem loaded_launchMemory {launch : Launch} (h : launch.Fits) (memory : Memory) :
    launch.Loaded (launchMemory launch memory) := by
  cases launch with
  | exec execAddr raw => exact Memory.holds_writeBytes memory execAddr raw h
  | linux execAddr kernel dtb =>
      have hbehind := le_dtbAddr execAddr kernel
      have hfits : dtbAddr execAddr kernel + dtb.length ≤ addressSpace := h
      have hlength : (linuxPreloader (dtbAddr execAddr kernel)).length = 36 := rfl
      have hkernel : kernelAddr execAddr = execAddr + 0x8000 := rfl
      have hsame (m : Memory) (base : Nat) (bytes : List UInt8) :
          m.SameOutside (m.writeBytes base 0 bytes) base bytes.length :=
        Memory.writeBytes_sameOutside bytes m base 0 bytes.length (Nat.le_of_eq (Nat.zero_add _))
      -- the preloader lies below the kernel, and the kernel below the device tree
      have hpreloaderDtb : Memory.Disjoint execAddr 36 (dtbAddr execAddr kernel) dtb.length :=
        Memory.disjoint_of_le (by omega) hfits
      have hpreloaderKernel : Memory.Disjoint execAddr 36 (kernelAddr execAddr) kernel.length :=
        Memory.disjoint_of_le (by omega) (by omega)
      have hdtbKernel : Memory.Disjoint (dtbAddr execAddr kernel) dtb.length (kernelAddr execAddr) kernel.length :=
        (Memory.disjoint_of_le hbehind hfits).symm
      have hpreloader := Memory.holds_writeBytes memory execAddr (linuxPreloader (dtbAddr execAddr kernel))
        (by rw [hlength]; decide)
      have hdtb := Memory.holds_writeBytes
        (memory.writeBytes execAddr 0 (linuxPreloader (dtbAddr execAddr kernel))) (dtbAddr execAddr kernel) dtb
        (by omega)
      refine ⟨?_, ?_, ?_⟩
      · have hfirst := hpreloader.of_sameOutside (hsame _ _ dtb) hpreloaderDtb (Nat.le_of_eq (Nat.zero_add _))
        exact hfirst.of_sameOutside (hsame _ _ kernel) hpreloaderKernel (Nat.le_of_eq (Nat.zero_add _))
      · exact hdtb.of_sameOutside (hsame _ _ kernel) hdtbKernel (Nat.le_of_eq (Nat.zero_add _))
      · exact Memory.holds_writeBytes _ _ kernel (by omega)

/-! ## The jump -/

section

variable (phone : Phone) (d₀ : Device) (opts : Options)

/-- The program has been called; what is sent now is for it. -/
def Gone (sent : List UInt8) : Prop :=
  ∃ requests tail memory, Legal phone d₀ requests ∧ sent = requests.flatMap Request.bytes ++ tail ∧
    ∃ entry, callTarget opts (phone.readInfo d₀.memory) = some (entry, memory) ∧
      (after phone d₀ requests).control = .called entry ∧ (after phone d₀ requests).memory = memory

/-- Where the client is when it has sent `sent`. -/
def AtStage (sent : List UInt8) : Stage → Prop
  | .goto _ entry => ∃ launch, opts.launch = some launch ∧ entry = launch.entry ∧
      (At phone d₀ (fun d => d.control = .mainLoop ∧ d.memory = sessionMemory opts (phone.readInfo d₀.memory)) sent ∨
        Gone phone d₀ opts sent)
  | .ended _ => True

end

section

variable {phone : Phone} {d₀ : Device} {opts : Options}

theorem Gone.append {sent : List UInt8} (h : Gone phone d₀ opts sent) (more : List UInt8) :
    Gone phone d₀ opts (sent ++ more) := by
  obtain ⟨requests, tail, memory, hlegal, rfl, hend⟩ := h
  exact ⟨requests, tail ++ more, memory, hlegal, List.append_assoc _ _ _, hend⟩

theorem Gone.sendable {sent : List UInt8} (h : Gone phone d₀ opts sent) :
    Sendable phone d₀ (callTarget opts (phone.readInfo d₀.memory)) sent := by
  obtain ⟨requests, tail, memory, hlegal, rfl, entry, hend⟩ := h
  exact ⟨requests, tail, hlegal, List.prefix_refl _, .inr ⟨entry, memory, hend⟩⟩

/-- The request to jump, with the third copy of the address behind it, and all of its beginnings. -/
theorem sendable_gotoRequest {launch : Launch} (hlaunch : opts.launch = some launch) {sent : List UInt8}
    (hat : At phone d₀
      (fun d => d.control = .mainLoop ∧ d.memory = sessionMemory opts (phone.readInfo d₀.memory)) sent) :
    Gone phone d₀ opts (sent ++ gotoRequest launch.entry) ∧
      ∀ part, part <+: gotoRequest launch.entry →
        Sendable phone d₀ (callTarget opts (phone.readInfo d₀.memory)) (sent ++ part) := by
  obtain ⟨requests, hlegal, rfl, hcontrol, hmemory⟩ := hat
  have hready : (Request.goto launch.entry).Ready (after phone d₀ requests) := hcontrol
  have hbehind : after phone d₀ (requests ++ [.goto launch.entry])
      = (Request.goto launch.entry).serve phone (after phone d₀ requests) := after_snoc requests _
  have htarget : callTarget opts (phone.readInfo d₀.memory)
      = some (launch.entry % 2 ^ 32, sessionMemory opts (phone.readInfo d₀.memory)) := by
    rw [callTarget, hlaunch]
    rfl
  have hcalled : (after phone d₀ (requests ++ [.goto launch.entry])).control = .called (launch.entry % 2 ^ 32) := by
    rw [hbehind]
    rfl
  have hsame : (after phone d₀ (requests ++ [.goto launch.entry])).memory
      = sessionMemory opts (phone.readInfo d₀.memory) := by
    rw [hbehind]
    exact hmemory
  have hbytes : requests.flatMap Request.bytes ++ gotoRequest launch.entry
      = (requests ++ [Request.goto launch.entry]).flatMap Request.bytes ++ packBe32 launch.entry := by
    rw [List.flatMap_append, List.flatMap_singleton, List.append_assoc]
    rfl
  constructor
  · exact ⟨_, _, _, hlegal.snoc hready, hbytes, _, htarget, hcalled, hsame⟩
  · intro part hpart
    refine ⟨_, packBe32 launch.entry, hlegal.snoc hready, ?_, .inr ⟨_, _, htarget, hcalled, hsame⟩⟩
    rw [← hbytes]
    exact (List.prefix_append_right_inj _).mpr hpart

theorem speaks_gotoPass {files : List (Option (List UInt8))} {entry : Nat} {sent : List UInt8}
    (h : AtStage phone d₀ opts sent (.goto files entry)) :
    TimedProg.Speaks (Sendable phone d₀ (callTarget opts (phone.readInfo d₀.memory)))
      (AtStage phone d₀ opts) (gotoPass files entry) sent := by
  obtain ⟨launch, hlaunch, rfl, hplace⟩ := h
  have hsend : TimedProg.Speaks (Sendable phone d₀ (callTarget opts (phone.readInfo d₀.memory)))
      (fun sent _ => Gone phone d₀ opts sent) (TimedProg.sendAll (gotoRequest launch.entry)) sent := by
    rcases hplace with hat | hgone
    · obtain ⟨hgone, hparts⟩ := sendable_gotoRequest hlaunch hat
      exact TimedProg.speaks_sendAll _ hparts hgone
    · exact TimedProg.speaks_sendAll _ (fun part _ => (hgone.append part).sendable) (hgone.append _)
  refine hsend.bind fun sent _ hgone => ?_
  have hread : TimedProg.Speaks (Sendable phone d₀ (callTarget opts (phone.readInfo d₀.memory)))
      (fun sent _ => Gone phone d₀ opts sent) (TimedProg.recvUpTo 4) sent :=
    TimedProg.speaks_recvUpTo 4 fun _ => hgone
  refine hread.bind fun sent data hgone => ?_
  split_ifs with hshort hmain
  · -- `chaos_keep_alive` and the same request once more
    have hkeep : TimedProg.Speaks (Sendable phone d₀ (callTarget opts (phone.readInfo d₀.memory)))
        (fun sent _ => Gone phone d₀ opts sent) (TimedProg.sendAll [keepAliveLetter]) sent :=
      TimedProg.speaks_sendAll _ (fun part _ => (hgone.append part).sendable) (hgone.append _)
    refine hkeep.bind fun sent _ hgone => ?_
    exact (⟨launch, hlaunch, rfl, .inr hgone⟩ : AtStage phone d₀ opts sent (.goto files launch.entry))
  · trivial
  · trivial

theorem speaks_client (hcontrol : d₀.control = .startwait) :
    TimedProg.Speaks (Sendable phone d₀ (callTarget opts (phone.readInfo d₀.memory)))
      (AtStage phone d₀ opts) (client opts) [] := by
  have htriple : Triple phone d₀ (callTarget opts (phone.readInfo d₀.memory)) _ (session opts) _ :=
    triple_session opts fun memory => memory = sessionMemory opts (phone.readInfo d₀.memory)
  have hsession := htriple [] ⟨[], .nil, rfl, hcontrol, rfl⟩
  refine hsession.bind fun sent result hresult => ?_
  cases result with
  | error e => trivial
  | ok outcome =>
      obtain ⟨requests, hlegal, hsent, hentry, hloaded⟩ := hresult outcome rfl
      obtain ⟨files, entry⟩ := outcome
      rw [show entry = opts.launch.map Launch.entry from hentry]
      cases hlaunch : opts.launch with
      | none => trivial
      | some launch => exact ⟨launch, hlaunch, rfl, .inl ⟨requests, hlegal, hsent, hloaded⟩⟩

/-- **Whatever is late, a program is called only with everything loaded.** In every run of the client and the
boot loader, with any receptions out of time, the address that is called is the one of `--exec` or `--linux`, and
the memory then is that behind `read_info` with all writes of the session in it; the parts of what is to run are
all there. -/
theorem client_calls_loaded (hcontrol : d₀.control = .startwait) {c : TimedLink Stage Device}
    (h : TimedLink.Reaches stageProgram (bootRound phone) ⟨client opts, bootRound phone d₀, [], []⟩ c) {d : Device}
    {address : Nat} (hdevice : c.device = .ret d) (hcalled : d.control = .called address) :
    ∃ launch, opts.launch = some launch ∧ address = launch.entry % 2 ^ 32 ∧
      d.memory = sessionMemory opts (phone.readInfo d₀.memory) ∧ (launch.Fits → launch.Loaded d.memory) := by
  have hnext : ∀ sent stage p, AtStage phone d₀ opts sent stage → stageProgram stage = some p →
      TimedProg.Speaks (Sendable phone d₀ (callTarget opts (phone.readInfo d₀.memory))) (AtStage phone d₀ opts) p
        sent := by
    intro sent stage p hstage hp
    cases stage with
    | goto files entry =>
        obtain rfl := Option.some.inj hp
        exact speaks_gotoPass hstage
    | ended result => cases hp
  have hnothing : Sendable phone d₀ (callTarget opts (phone.readInfo d₀.memory)) [] := by
    refine ⟨[], [], .nil, List.nil_prefix, .inl ⟨rfl, fun a ha => ?_⟩⟩
    exact absurd (hcontrol.symm.trans ha) nofun
  obtain ⟨heard, hsendable, hhears⟩ := h.hears hnext hnothing (speaks_client hcontrol)
  rw [hdevice] at hhears
  have htarget := hsendable.called (List.prefix_append _ _) hhears hcalled
  obtain ⟨launch, hlaunch, heq⟩ := Option.map_eq_some_iff.mp htarget
  obtain ⟨haddress, hmemory⟩ := Prod.mk.inj heq
  refine ⟨launch, hlaunch, haddress.symm, hmemory.symm, fun hfits => ?_⟩
  rw [← hmemory, sessionMemory, hlaunch]
  exact loaded_launchMemory hfits _

end

namespace Example

/-- The program without the tasks. -/
def execOptions : Options := { options with speed := 115200, tasks := [] }

/-- The time for the answer to the only block runs out before the boot loader has seen it. The block is sent once
    more, the late answer is taken for the second one, and the second is left for the jump. -/
def lateMoves : List TimedLink.Move :=
  [.host] ++ List.replicate 3 .device ++ List.replicate 2 .host ++ List.replicate 3 .device ++
    List.replicate 21 .host ++ [.timeOut] ++ List.replicate 15 .host ++ List.replicate 29 .device ++
    List.replicate 16 .host ++ List.replicate 32 .device

/-- The program is called, and the second answer to the block is still on its way. -/
def calledLate (c : TimedLink Stage Device) : Bool :=
  match c.device with
  | .ret d => d.control = .called 0xA8100000 && c.toHost.take 2 = answerOk
  | _ => false

end Example

/-- A block is sent twice, its two answers are late, and the program that is called is in the memory. -/
theorem client_calls_loaded_late :
    ∃ (c : TimedLink Stage Device) (d : Device),
      TimedLink.Reaches stageProgram (bootRound Example.phone)
        ⟨client Example.execOptions, bootRound Example.phone Example.device, [], []⟩ c ∧
      c.toHost.take 2 = answerOk ∧ c.device = .ret d ∧ d.control = .called 0xA8100000 ∧
      d.memory.Holds 0xA8100000 0 [0xFE, 0xFF, 0xFF, 0xEA] := by
  have hlate : (run (TimedLink.move stageProgram (bootRound Example.phone)) Example.lateMoves
      ⟨client Example.execOptions, bootRound Example.phone Example.device, [], []⟩).any Example.calledLate = true := by
    decide +kernel
  obtain ⟨c, hrun, hlast⟩ := (Option.any_eq_true _ _).mp hlate
  have hreaches := TimedLink.reaches_of_run Example.lateMoves hrun
  unfold Example.calledLate at hlast
  split at hlast
  · next d hdevice =>
      obtain ⟨hcalled, hanswer⟩ := (Bool.and_eq_true _ _).mp hlast
      obtain ⟨launch, hlaunch, -, -, hloaded⟩ :=
        client_calls_loaded rfl hreaches hdevice (of_decide_eq_true hcalled)
      obtain rfl := Option.some.inj hlaunch
      have hfits : ([0xFE, 0xFF, 0xFF, 0xEA] : List UInt8).length ≤ addressSpace := by decide
      exact ⟨c, d, hreaches, of_decide_eq_true hanswer, hdevice, of_decide_eq_true hcalled, hloaded hfits⟩
  · cases hlast

end Pmb887x.ChaosBoot
