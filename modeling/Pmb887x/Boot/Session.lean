import Pmb887x.Boot.Plan

set_option autoImplicit false

/-! # The whole conversation (`boot.py`, `preloader/src/main.c`)

From the moment the BootROM has answered, `main` loads the preloader, sets the speed, programs the external
RAM if the payload goes there, writes the payload and calls it. The BootROM is not part of the repository; it
is a program that takes the BSL request, acknowledges it and starts the preloader.

However the two sides interleave, the payload is called once, with everything in place
(`main_runs_payload`). -/

namespace Pmb887x.Boot

open Library Preloader

/-! ## The host -/

def bootSpeed : Nat := 115200

/-- The host side of `main`. -/
abbrev Session := ExceptT MainError Prog

def ofHost {α : Type} (p : Host α) : Session α := ExceptT.adapt .host p

/-- `for value in data: checksum ^= value` -/
def bslChecksum (data : List UInt8) : UInt8 := data.foldl (· ^^^ ·) 0

def loadPreloader (data : List UInt8) : Session Unit := do
  if data.length > 0xFFFF then
    throw .preloaderTooLarge
  let checksum := bslChecksum data
  ofHost (portWrite ([0x30] ++ leBytes 2 data.length))
  ofHost (portWrite data)
  ofHost (portWrite [checksum])
  let status ← ofHost readByte
  if status ≠ 0x01 ∧ status ≠ 0xB1 ∧ status ≠ 0xC1 then
    throw (.invalidBslStatus status)
  ofHost (expectByte statusReady "preloader ready status")

def preloaderPing : Host Unit := do
  portWrite [cmdPingByte]
  expectByte statusPong "ping response"

/-- The result is the new rate of the port. -/
def preloaderSetSpeed (rate speed : Nat) : Host Nat :=
  if speed = rate then do
    preloaderPing
    pure rate
  else do
    portWrite ([cmdSetSpeedByte] ++ (← packU32 speed))
    -- `port.flush()` and `port.baudrate = speed`: the request is out before the rate changes
    preloaderPing
    pure speed

def preloaderInitExtram : Host Unit := do
  let addressField ← packU32 extramAddress
  let sizeField ← packU32 extramSize
  portWrite ([cmdInitExtramByte] ++ (addressField ++ sizeField))
  expectByte statusSuccess "EXTRAM initialization status"

def preloaderGoto (address : Nat) : Host Unit := do
  portWrite ([cmdGotoByte] ++ (← packU32 address))
  expectByte statusSuccess "GOTO status"

section Main

-- `zlib.crc32`
variable (zlibCrc32 : List UInt8 → Nat)

/-- `main` between `load_preloader` and `forward_output`; the result is the rate of the port. -/
def runPlan (plan : Plan) (speed : Nat) (payload : List UInt8) : Host Nat := do
  let rate ← preloaderSetSpeed bootSpeed speed
  (if plan.initExtram then preloaderInitExtram else pure ())
  preloaderWritePayload zlibCrc32 plan.writeAddress payload
  preloaderGoto plan.execAddress
  pure rate

/-- `main` behind `wait_for_bootrom`, which has found `cpu`. -/
def mainSession (image : Platform → Cpu → List UInt8) (args : Args) (payload : List UInt8)
    (cpu : Cpu) : Session Nat := do
  let plan ← (liftExcept (planBoot args payload))
  if plan.cpu ≠ none ∧ plan.cpu ≠ some cpu then
    throw .cpuMismatch
  let preloader ← liftExcept (selectPreloader image cpu plan.platform)
  loadPreloader preloader
  ofHost (runPlan zlibCrc32 plan args.speed payload)
where
  liftExcept {α : Type} (r : Except MainError α) : Session α := ExceptT.mk (.ret r)

end Main

/-! ## Composition on the host -/

section Compose

variable {α β : Type} {body : Device → Prog Device} {device device' : Prog Device}
  {toDevice toDevice' toHost toHost' : List UInt8}

theorem reaches_host_bind {p : Host α} {a : α}
    (h : Config.Reaches body ⟨p.run, device, toDevice, toHost⟩ ⟨.ret (.ok a), device', toDevice', toHost'⟩)
    (k : α → Host β) :
    Config.Reaches body ⟨(p >>= k).run, device, toDevice, toHost⟩
      ⟨(k a).run, device', toDevice', toHost'⟩ :=
  h.host_bind (ExceptT.bindCont k)

theorem ofHost_bind_run (p : Host α) (k : α → Session β) :
    (ofHost p >>= k).run = p.run >>= fun r => ExceptT.bindCont k (r.mapError .host) := by
  have hadapt : (ofHost p).run = Except.mapError .host <$> p.run := rfl
  simp only [ExceptT.run_bind, hadapt, map_eq_pure_bind, bind_assoc, pure_bind]
  congr 1

theorem reaches_ofHost_bind {p : Host α} {a : α}
    (h : Config.Reaches body ⟨p.run, device, toDevice, toHost⟩ ⟨.ret (.ok a), device', toDevice', toHost'⟩)
    (k : α → Session β) :
    Config.Reaches body ⟨(ofHost p >>= k).run, device, toDevice, toHost⟩
      ⟨(k a).run, device', toDevice', toHost'⟩ := by
  rw [ofHost_bind_run]
  exact h.host_bind _

theorem reaches_ofHost {p : Host α} {a : α}
    (h : Config.Reaches body ⟨p.run, device, toDevice, toHost⟩
      ⟨.ret (.ok a), device', toDevice', toHost'⟩) :
    Config.Reaches body ⟨(ofHost p).run, device, toDevice, toHost⟩
      ⟨.ret (.ok a), device', toDevice', toHost'⟩ := by
  have hend := reaches_ofHost_bind h (pure : α → Session α)
  rwa [bind_pure] at hend

theorem reaches_portWrite (body : Device → Prog Device) (device : Prog Device)
    (toDevice toHost data : List UInt8) :
    Config.Reaches body ⟨(portWrite data).run, device, toDevice, toHost⟩
      ⟨.ret (.ok ()), device, toDevice ++ data, toHost⟩ := by
  have hwrite : (portWrite data).run = Prog.sendAll data >>= fun _ => .ret (.ok ()) := by
    rw [portWrite, ExceptT.run_lift, map_eq_pure_bind]
    rfl
  rw [hwrite]
  exact Config.reaches_sendAll body data _ device toDevice toHost

theorem reaches_readByte (body : Device → Prog Device) (device : Prog Device)
    (toDevice toHost : List UInt8) (b : UInt8) :
    Config.Reaches body ⟨readByte.run, device, toDevice, b :: toHost⟩
      ⟨.ret (.ok b), device, toDevice, toHost⟩ :=
  .single (.inl rfl)

theorem reaches_expectByte (body : Device → Prog Device) (device : Prog Device)
    (toDevice toHost : List UInt8) (expected : UInt8) (description : String) :
    Config.Reaches body ⟨(expectByte expected description).run, device, toDevice, expected :: toHost⟩
      ⟨.ret (.ok ()), device, toDevice, toHost⟩ := by
  refine (reaches_host_bind (reaches_readByte body device toDevice toHost expected) _).trans ?_
  rw [if_neg (not_not.2 rfl)]
  exact .refl

end Compose

/-! ## The rounds of the preloader -/

section Rounds

variable (payload : Nat → Device → Prog Device) {d : Device}

theorem mainRound_command (hcontrol : d.control = .command) :
    mainRound payload d = Prog.getc >>= command payload d := by
  unfold mainRound
  rw [hcontrol]

theorem runs_mainRound_ping (hcontrol : d.control = .command) :
    Prog.Runs (mainRound payload d) [cmdPingByte] [statusPong] d := by
  rw [mainRound_command payload hcontrol]
  exact Prog.Runs.bind_getc (Prog.Runs.bind_putc (Prog.Runs.ret d))

theorem runs_mainRound_setSpeed (hcontrol : d.control = .command) {speed : Nat} (h : speed < 2 ^ 32) :
    Prog.Runs (mainRound payload d) (cmdSetSpeedByte :: leBytes 4 speed) []
      { d with baudRate := speed, control := .awaitPing } := by
  rw [mainRound_command payload hcontrol]
  exact Prog.Runs.bind_getc ((runs_usartReadU32 h).map _)

/-- The wait for the ping ends with it and skips everything else. -/
theorem runs_mainRound_awaitPing (hcontrol : d.control = .awaitPing) :
    Prog.Runs (mainRound payload d) [cmdPingByte] [statusPong] { d with control := .command } := by
  refine Prog.Runs.bind_getc ?_
  rw [hcontrol]
  exact Prog.Runs.bind_putc (Prog.Runs.ret _)

theorem runs_mainRound_noise (hcontrol : d.control = .awaitPing) {b : UInt8} (hb : b ≠ cmdPingByte) :
    Prog.Runs (mainRound payload d) [b] [] d := by
  refine Prog.Runs.bind_getc ?_
  rw [hcontrol]
  simp only [ne_eq, hb, not_false_eq_true, if_true]
  exact Prog.Runs.ret d

/-- The window of the external RAM passes the checks of `cmd_init_extram`. -/
theorem runs_mainRound_initExtram (hcontrol : d.control = .command) :
    Prog.Runs (mainRound payload d)
      (cmdInitExtramByte :: (leBytes 4 extramAddress ++ leBytes 4 extramSize)) [statusSuccess]
      { d with ebu := extramRegisters extramAddress extramSize } := by
  rw [mainRound_command payload hcontrol, ← List.append_nil (leBytes 4 extramSize)]
  refine Prog.Runs.bind_getc ?_
  refine (runs_usartReadU32 (by decide)).bind_recv ((runs_usartReadU32 (by decide)).bind_recv ?_)
  rw [if_neg (by decide), if_neg (by decide), if_neg (by decide), if_neg (by decide)]
  exact Prog.Runs.bind_putc (Prog.Runs.ret _)

end Rounds

/-! ## The exchanges -/

section Exchanges

variable (payload : Nat → Device → Prog Device) {d d' : Device}

/-- A request that one round answers with the byte the host expects. -/
theorem reaches_command {request : List UInt8} {expected : UInt8} (description : String)
    (h : Prog.Runs (mainRound payload d) request [expected] d') :
    Config.Reaches (mainRound payload)
      ⟨(portWrite request >>= fun _ => expectByte expected description).run, mainRound payload d, [], []⟩
      ⟨.ret (.ok ()), mainRound payload d', [], []⟩ := by
  refine (reaches_host_bind (reaches_portWrite _ _ [] [] request) _).trans ?_
  have hserve := Config.reaches_of_runs (mainRound payload) h (expectByte expected description).run [] []
  rw [List.append_nil, List.nil_append] at hserve
  exact hserve.trans (reaches_expectByte _ _ [] [] expected description)

/-- A ping behind noise: a speed change ends with the first ping that gets through. -/
theorem reaches_preloaderPing_noise (hcontrol : d.control = .awaitPing) (noise : List UInt8)
    (hnoise : cmdPingByte ∉ noise) :
    Config.Reaches (mainRound payload) ⟨preloaderPing.run, mainRound payload d, noise, []⟩
      ⟨.ret (.ok ()), mainRound payload { d with control := .command }, [], []⟩ := by
  induction noise with
  | nil => exact reaches_command payload _ (runs_mainRound_awaitPing payload hcontrol)
  | cons b noise ih =>
      rw [List.mem_cons, not_or] at hnoise
      have hround := runs_mainRound_noise payload hcontrol (Ne.symm hnoise.1)
      exact (Config.reaches_of_runs _ hround preloaderPing.run noise []).trans (ih hnoise.2)

theorem reaches_preloaderSetSpeed (hcontrol : d.control = .command) {rate speed : Nat}
    (hrate : d.baudRate = rate) (hspeed : speed < 2 ^ 32) :
    Config.Reaches (mainRound payload)
      ⟨(preloaderSetSpeed rate speed).run, mainRound payload d, [], []⟩
      ⟨.ret (.ok speed), mainRound payload { d with baudRate := speed }, [], []⟩ := by
  rw [preloaderSetSpeed]
  by_cases hsame : speed = rate
  · rw [if_pos hsame]
    have hping := reaches_command payload "ping response" (runs_mainRound_ping payload hcontrol)
    have hall := reaches_host_bind hping (fun _ => pure rate)
    rwa [← hsame, ← hrate.trans hsame.symm] at hall ⊢
  · rw [if_neg hsame, packU32_of_lt hspeed, pure_bind]
    refine (reaches_host_bind (reaches_portWrite _ _ [] [] _) _).trans ?_
    have hchange := Config.reaches_of_runs (mainRound payload)
      (runs_mainRound_setSpeed payload hcontrol hspeed)
      (preloaderPing >>= fun _ => pure speed : Host Nat).run [] []
    rw [List.append_nil] at hchange
    refine hchange.trans ?_
    have hping := reaches_preloaderPing_noise payload
      (d := { d with baudRate := speed, control := .awaitPing }) rfl [] List.not_mem_nil
    have hall := reaches_host_bind hping (fun _ => (pure speed : Host Nat))
    rwa [← hcontrol] at hall

theorem reaches_preloaderInitExtram (hcontrol : d.control = .command) :
    Config.Reaches (mainRound payload) ⟨preloaderInitExtram.run, mainRound payload d, [], []⟩
      ⟨.ret (.ok ()), mainRound payload { d with ebu := extramRegisters extramAddress extramSize },
        [], []⟩ := by
  rw [preloaderInitExtram, packU32_of_lt (by decide), packU32_of_lt (by decide)]
  exact reaches_command payload _ (runs_mainRound_initExtram payload hcontrol)

/-- The preloader acknowledges `GOTO` before it calls the payload. -/
theorem reaches_preloaderGoto (hcontrol : d.control = .command) {address : Nat}
    (haddress : address < 2 ^ 32) :
    Config.Reaches (mainRound payload) ⟨(preloaderGoto address).run, mainRound payload d, [], []⟩
      ⟨.ret (.ok ()), payload address { d with dtcmEnabled := false }, [], []⟩ := by
  rw [preloaderGoto, packU32_of_lt haddress, pure_bind]
  refine (reaches_host_bind (reaches_portWrite _ _ [] [] _) _).trans ?_
  rw [mainRound_command payload hcontrol]
  -- the device takes the command byte, then the address, and acknowledges
  refine .head (.inr rfl) ?_
  have hread := Config.reaches_of_runs_bind (mainRound payload) (runs_usartReadU32 haddress)
    (fun address => Prog.putc statusSuccess >>= fun _ => payload address { d with dtcmEnabled := false })
    (expectByte statusSuccess "GOTO status").run [] []
  rw [List.append_nil] at hread
  exact (hread.tail (.inr rfl)).trans (reaches_expectByte _ _ [] [] statusSuccess "GOTO status")

end Exchanges

/-! ## The BootROM -/

/-- What `load_preloader` sends. -/
def bslRequest (data : List UInt8) : List UInt8 :=
  [0x30] ++ leBytes 2 data.length ++ data ++ [bslChecksum data]

/-- A BootROM that takes `preloader` and reports success. -/
structure AcceptsPreloader (bsl : Prog Unit) (preloader : List UInt8) (status : UInt8) : Prop where
  runs : Prog.Runs bsl (bslRequest preloader) [status] ()
  success : status = 0x01 ∨ status = 0xB1 ∨ status = 0xC1

/-- The device from the BootROM on. -/
def fromBootRom (bsl : Prog Unit) (d : Device) : Prog Device := bsl >>= fun _ => mainEntry d

section Whole

variable (program : Nat → Device → Prog Device) {bsl : Prog Unit} {preloader : List UInt8} {status : UInt8}

theorem reaches_loadPreloader (hsize : preloader.length ≤ 0xFFFF)
    (hbsl : AcceptsPreloader bsl preloader status) (d : Device) :
    Config.Reaches (mainRound program)
      ⟨(loadPreloader preloader).run, fromBootRom bsl d, [], []⟩
      ⟨.ret (.ok ()), mainRound program { d with dtcmEnabled := true, control := .command }, [], []⟩ := by
  rw [loadPreloader, if_neg (Nat.not_lt.mpr hsize)]
  refine (reaches_ofHost_bind (reaches_portWrite _ _ [] [] _) _).trans ?_
  refine (reaches_ofHost_bind (reaches_portWrite _ _ _ [] _) _).trans ?_
  refine (reaches_ofHost_bind (reaches_portWrite _ _ _ [] _) _).trans ?_
  have hready : Prog.Runs (fromBootRom bsl d) (bslRequest preloader) [status, statusReady]
      { d with dtcmEnabled := true, control := .command } := by
    have hboth := hbsl.runs.bind (f := fun _ => mainEntry d) (Prog.Runs.bind_putc (Prog.Runs.ret _))
    rwa [List.append_nil] at hboth
  have hboot := fun host : Prog (Except MainError Unit) =>
    Config.reaches_of_runs (mainRound program) hready host [] []
  rw [bslRequest] at hboot
  simp only [List.append_nil, List.nil_append] at hboot ⊢
  refine (hboot _).trans ?_
  refine (reaches_ofHost_bind (reaches_readByte _ _ [] [statusReady] status) _).trans ?_
  have hok : ¬ (status ≠ 0x01 ∧ status ≠ 0xB1 ∧ status ≠ 0xC1) := by
    rintro ⟨h01, hb1, hc1⟩
    rcases hbsl.success with h | h | h
    · exact h01 h
    · exact hb1 h
    · exact hc1 h
  rw [if_neg hok]
  exact reaches_ofHost (reaches_expectByte _ _ [] [] statusReady "preloader ready status")

variable {zlibCrc32 : List UInt8 → Nat}

theorem reaches_preloaderWritePayload (hcrc : ∀ data, zlibCrc32 data = (crc32 data).toNat) {d : Device}
    (hcontrol : d.control = .command) {address : Nat} {data : List UInt8} {initExtram : Bool}
    (hcheck : checkPayload data address = .ok initExtram) :
    ∃ m', Delivered d.memory m' address data ∧
      Config.Reaches (mainRound program)
        ⟨(preloaderWritePayload zlibCrc32 address data).run, mainRound program d, [], []⟩
        ⟨.ret (.ok ()), mainRound program { d with memory := m' }, [], []⟩ := by
  obtain ⟨hsize, hd⟩ := checkPayload_disjoint hcheck
  have hstart : Delivered d.memory d.memory address (data.take 0) :=
    ⟨Memory.holds_nil _ _ _, fun _ _ _ => rfl⟩
  exact reaches_writeBlocks program hcrc d.memory hsize hd _ 0 d rfl hcontrol hstart

/-- What the payload finds when it is called. -/
def calledWith (plan : Plan) (speed : Nat) (d : Device) (m : Memory) : Device :=
  { memory := m
    ebu := if plan.initExtram then extramRegisters extramAddress extramSize else d.ebu
    baudRate := speed
    dtcmEnabled := false
    control := .command }

/-- From the command loop to the payload. -/
theorem reaches_runPlan (hcrc : ∀ data, zlibCrc32 data = (crc32 data).toNat) {plan : Plan}
    {speed : Nat} {payload : List UInt8} {d : Device} (hcontrol : d.control = .command)
    (hrate : d.baudRate = bootSpeed) (hspeed : speed < 2 ^ 32)
    (hcheck : checkPayload payload plan.writeAddress = .ok plan.initExtram)
    (hexec : plan.execAddress < 2 ^ 32) :
    ∃ m', Delivered d.memory m' plan.writeAddress payload ∧
      Config.Reaches (mainRound program)
        ⟨(runPlan zlibCrc32 plan speed payload).run, mainRound program d, [], []⟩
        ⟨.ret (.ok speed), program plan.execAddress (calledWith plan speed d m'), [], []⟩ := by
  have hset := reaches_preloaderSetSpeed program hcontrol hrate hspeed
  -- the device in front of the write command
  have hinit : Config.Reaches (mainRound program)
      ⟨(if plan.initExtram then preloaderInitExtram else pure ()).run,
        mainRound program { d with baudRate := speed }, [], []⟩
      ⟨.ret (.ok ()), mainRound program { d with
        baudRate := speed
        ebu := if plan.initExtram then extramRegisters extramAddress extramSize else d.ebu }, [], []⟩ := by
    cases plan.initExtram with
    | false => exact .refl
    | true => exact reaches_preloaderInitExtram program (d := { d with baudRate := speed }) hcontrol
  obtain ⟨m', hdelivered, hwrite⟩ := reaches_preloaderWritePayload program hcrc
    (d := { d with
      baudRate := speed
      ebu := if plan.initExtram then extramRegisters extramAddress extramSize else d.ebu }) hcontrol hcheck
  refine ⟨m', hdelivered, ?_⟩
  have hgoto := reaches_preloaderGoto program
    (d := { d with
      baudRate := speed
      ebu := if plan.initExtram then extramRegisters extramAddress extramSize else d.ebu
      memory := m' }) hcontrol hexec
  rw [runPlan]
  refine (reaches_host_bind hset _).trans ((reaches_host_bind hinit _).trans
    ((reaches_host_bind hwrite _).trans ?_))
  have hend := reaches_host_bind hgoto (fun _ => (pure speed : Host Nat))
  rwa [show calledWith plan speed d m' = _ from congrArg (Device.mk _ _ _ _) hcontrol.symm]

/-- **The payload runs.** For every payload and command line that `main` accepts, every preloader it
    selects and every BootROM that starts it, and however the two sides interleave: the host ends without an
    error and with its port at the rate of the device, the device calls the payload at the planned entry, the
    payload stands in memory, the external RAM is programmed if it is used, the DTCM is off, no byte is in
    flight, and nothing else in memory but the block buffer has changed. No run misses that call, and if the
    payload waits for input, every run ends there. -/
theorem main_runs_payload (hcrc : ∀ data, zlibCrc32 data = (crc32 data).toNat)
    (image : Platform → Cpu → List UInt8) (args : Args) (payload : List UInt8) (cpu : Cpu) (plan : Plan)
    (d : Device) (hargs : args.Parsed) (hspeed : args.speed < 2 ^ 32)
    (hplan : planBoot args payload = .ok plan) (hcpu : plan.cpu = none ∨ plan.cpu = some cpu)
    (hselect : selectPreloader image cpu plan.platform = .ok preloader)
    (hsize : preloader.length ≤ 0xFFFF) (hbsl : AcceptsPreloader bsl preloader status)
    (hrate : d.baudRate = bootSpeed) :
    let start : Config (Except MainError Nat) Device :=
      ⟨(mainSession zlibCrc32 image args payload cpu).run, fromBootRom bsl d, [], []⟩
    ∃ m', m'.readBytes plan.writeAddress 0 payload.length = payload ∧
      (∀ a, ¬ Memory.InBuffer plan.writeAddress payload.length a →
        ¬ Memory.InBuffer dtcmAddress lz4BlockSize a → m' a = d.memory a) ∧
      let called : Config (Except MainError Nat) Device :=
        ⟨.ret (.ok args.speed), program plan.execAddress (calledWith plan args.speed d m'), [], []⟩
      Config.Reaches (mainRound program) start called ∧
      (∀ c, Config.Reaches (mainRound program) start c →
        (∃ f, Config.Reaches (mainRound program) c f ∧ Config.Reaches (mainRound program) called f) ∧
        ∀ r, c.host = .ret r → r = .ok args.speed) ∧
      ((∃ k, program plan.execAddress (calledWith plan args.speed d m') = .recv k) →
        (∀ c, Config.Reaches (mainRound program) start c → Config.Reaches (mainRound program) c called) ∧
        Acc (fun c' c => Config.Step (mainRound program) c c') start) := by
  intro start
  obtain ⟨hcheck, hexec⟩ := planBoot_ok hargs hplan
  obtain ⟨m', hdelivered, hrun⟩ := reaches_runPlan program hcrc
    (d := { d with dtcmEnabled := true, control := .command }) rfl hrate hspeed hcheck hexec
  have hreach : Config.Reaches (mainRound program) start
      ⟨.ret (.ok args.speed), program plan.execAddress (calledWith plan args.speed d m'), [], []⟩ := by
    have haccepted : ¬ (plan.cpu ≠ none ∧ plan.cpu ≠ some cpu) := by
      rintro ⟨hnone, hsome⟩
      exact hcpu.elim hnone hsome
    have hlift : ∀ {α : Type} (a : α) (k : α → Session Nat),
        (mainSession.liftExcept (.ok a) >>= k).run = (k a).run := fun _ _ => rfl
    have hsession : (mainSession zlibCrc32 image args payload cpu).run
        = (loadPreloader preloader >>= fun _ =>
            ofHost (runPlan zlibCrc32 plan args.speed payload)).run := by
      rw [mainSession, hplan, hlift, if_neg haccepted, hselect, hlift]
    rw [show start = ⟨_, _, _, _⟩ from rfl, hsession]
    exact ((reaches_loadPreloader program hsize hbsl d).host_bind _).trans (reaches_ofHost hrun)
  refine ⟨m', hdelivered.holds.readBytes_eq, hdelivered.frame, hreach, fun c hc => ?_, fun hwaits => ?_⟩
  · obtain ⟨f, hcf, hcalled⟩ := Config.joins hc hreach
    refine ⟨⟨f, hcf, hcalled⟩, fun r hr => ?_⟩
    -- a result stays, so both are the one of `f`
    exact Prog.ret.inj ((hcf.host_ret hr).symm.trans (hcalled.host_ret rfl))
  · exact Config.every_run ⟨rfl, hwaits, rfl, rfl⟩ hreach

end Whole

/-- An image that is its header and nothing else. -/
def headerImage (cpu : Cpu) : List UInt8 := List.replicate 4 0 ++ cpu.magic ++ [1] ++ List.replicate 24 0

/-- A BootROM that takes 40 bytes. -/
def takingBootRom : Prog Unit := do
  let _ ← Prog.recvAll 40
  Prog.putc 0xC1

theorem takingBootRom_accepts : AcceptsPreloader takingBootRom (headerImage .pmb8876) 0xC1 := by
  have hlength : (bslRequest (headerImage .pmb8876)).length = 40 := by decide
  have htake := Prog.runs_recvAll (bslRequest (headerImage .pmb8876))
  rw [hlength] at htake
  refine ⟨?_, .inr (.inr rfl)⟩
  have hboth := htake.bind_recv (f := fun _ => Prog.putc 0xC1) (Prog.Runs.bind_putc (Prog.Runs.ret ()))
  rwa [List.append_nil] at hboth

/-- A payload without a header for the start of the SRAM, on an Apoxi phone. -/
theorem main_runs_payload_apoxi :
    ∃ m' : Memory, m'.readBytes 0x00080000 0 20 = List.replicate 20 0x41 ∧
      Config.Reaches (mainRound fun _ d => .recv fun _ => .ret d)
        ⟨(mainSession (fun data => (crc32 data).toNat) (fun _ => headerImage)
            ⟨some .apoxi, 1625000, some 0x00080000, some 0x00080000⟩ (List.replicate 20 0x41)
            .pmb8876).run,
          fromBootRom takingBootRom ⟨fun _ => 0, ⟨0, 0, 0, 0, 0⟩, bootSpeed, false, .command⟩, [], []⟩
        ⟨.ret (.ok 1625000), .recv fun _ => .ret ⟨m', ⟨0, 0, 0, 0, 0⟩, 1625000, false, .command⟩,
          [], []⟩ := by
  obtain ⟨m', hheld, -, hreach, -⟩ := main_runs_payload (fun _ d => .recv fun _ => .ret d)
    (fun _ => rfl) (fun _ => headerImage)
    ⟨some .apoxi, 1625000, some 0x00080000, some 0x00080000⟩ (List.replicate 20 0x41) .pmb8876
    ⟨none, .apoxi, 0x00080000, 0x00080000, false⟩ ⟨fun _ => 0, ⟨0, 0, 0, 0, 0⟩, bootSpeed, false, .command⟩
    ⟨by simp, by simp⟩ (by decide) rfl (.inl rfl) rfl (by decide) takingBootRom_accepts rfl
  exact ⟨m', hheld, hreach⟩

end Pmb887x.Boot
