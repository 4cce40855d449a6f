import Pmb887x.ChaosBoot.Requests

set_option autoImplicit false

/-! # Sessions in which every answer is in time

The client then gets through: every read of the flasher has what the memory holds behind the writes in front
of it, and the file or the kernel is called. However the two sides interleave, no run can miss that end
(`client_gets_through`). -/

namespace Pmb887x.ChaosBoot

open Library

/-! ## What a session writes and reads -/

def taskMemory : Task → Memory → Memory
  | .write addr raw, memory => memory.writeBytes addr 0 raw
  | .read _ _, memory => memory
  | .erase _, memory => memory

def tasksMemory (tasks : List Task) (memory : Memory) : Memory :=
  tasks.foldl (fun memory task => taskMemory task memory) memory

def launchMemory : Launch → Memory → Memory
  | .exec execAddr raw, memory => memory.writeBytes execAddr 0 raw
  | .linux execAddr kernel dtb, memory =>
      let dtbAddr := dtbAddr execAddr kernel
      ((memory.writeBytes execAddr 0 (linuxPreloader dtbAddr)).writeBytes dtbAddr 0 dtb).writeBytes
        (kernelAddr execAddr) 0 kernel

def sessionMemory (opts : Options) (memory : Memory) : Memory :=
  let memory := tasksMemory opts.tasks memory
  (opts.launch.map fun launch => launchMemory launch memory).getD memory

def taskFile : Task → Memory → Option (List UInt8)
  | .read addr size, memory => some (memory.readBytes addr 0 size)
  | .write _ _, _ => none
  | .erase _, _ => none

def tasksFiles : List Task → Memory → List (Option (List UInt8))
  | [], _ => []
  | task :: rest, memory => taskFile task memory :: tasksFiles rest (taskMemory task memory)

/-- What the tool does: it writes to RAM only, and it does not erase. -/
def Task.Supported (info : PhoneInfo) : Task → Prop
  | .read _ _ => True
  | .write addr _ => ¬ (info.flashBase ≤ addr ∧ addr ≤ info.flashBase + info.flashSize)
  | .erase _ => False

def Launch.Supported : Launch → Prop
  | .exec _ _ => True
  | .linux execAddr kernel _ => execAddr &&& 0xFFFFF = 0 ∧ dtbAddr execAddr kernel < 2 ^ 32

/-- What is in the information block of the phone. -/
def phoneInfo (phone : Phone) (memory : Memory) : PhoneInfo :=
  unpackInfo (memory.readBytes (phone.start + infoOffset) 0 infoSize)

instance (info : PhoneInfo) : DecidablePred (Task.Supported info)
  | .read _ _ => isTrue trivial
  | .write addr _ => inferInstanceAs (Decidable (¬ (info.flashBase ≤ addr ∧ addr ≤ info.flashBase + info.flashSize)))
  | .erase _ => isFalse id

/-- The options get as far as the jump. The rates of the two ends are not compared: 3250000, with a code behind
`iSpeeds`, passes for a speed here. -/
structure Options.Supported (opts : Options) (info : PhoneInfo) : Prop where
  speed : opts.speed = opts.bootSpeed ∨ (chaosSpeeds.lookup opts.speed).isSome
  tasks : ∀ task ∈ opts.tasks, task.Supported info
  launch : ∀ launch, opts.launch = some launch → launch.Supported

/-! ## Exchanges -/

/-- The host ends with `a` and the boot loader waits as `d'`, with nothing left on the link. -/
def Exchanges (phone : Phone) {α : Type} (p : Host α) (d : Device) (a : α) (d' : Device) : Prop :=
  Config.Reaches (bootRound phone) ⟨p.run.patient, bootRound phone d, [], []⟩
    ⟨.ret (.ok a), bootRound phone d', [], []⟩

section

variable {phone : Phone} {α β : Type} {d d' d'' : Device}

namespace Exchanges

theorem pure (a : α) : Exchanges phone (pure a : Host α) d a d := .refl

theorem bind {p : Host α} {f : α → Host β} {a : α} {b : β} (hp : Exchanges phone p d a d')
    (hf : Exchanges phone (f a) d' b d'') : Exchanges phone (p >>= f) d b d'' := by
  have hrun : (p >>= f).run.patient = p.run.patient >>= fun r => (ExceptT.bindCont f r).patient :=
    TimedProg.patient_bind _ _
  rw [Exchanges, hrun]
  exact (hp.host_bind fun r => (ExceptT.bindCont f r).patient).trans hf

/-- **A request, and the answer as the client reads it.** -/
theorem request {k : Host α} {a : α} (r : Request) (hready : r.Ready d)
    (hk : Prog.Runs k.run.patient (r.reply phone d) [] (.ok a)) :
    Exchanges phone (portWrite r.bytes >>= fun _ => k) d a (r.serve phone d) := by
  have hrun : (portWrite r.bytes >>= fun _ => k).run.patient
      = Prog.sendAll r.bytes >>= fun _ => k.run.patient := by
    rw [portWrite, ExceptT.run_bind_lift, TimedProg.patient_bind, TimedProg.patient_sendAll]
  have hsend := Config.reaches_sendAll (bootRound phone) r.bytes k.run.patient (bootRound phone d) [] []
  have hruns : Prog.Runs (bootRound phone d) r.bytes (r.reply phone d) (r.serve phone d) := runs_request hready
  have hserve := Config.reaches_of_runs (bootRound phone) hruns k.run.patient [] []
  have hreceive := Config.reaches_reply (bootRound phone) hk rfl (bootRound phone (r.serve phone d)) [] []
  simp only [List.append_nil, List.nil_append] at hsend hserve hreceive
  rw [Exchanges, hrun]
  exact (hsend.trans hserve).trans hreceive

end Exchanges

/-! ## Reading an answer -/

theorem runs_portRead (f : List UInt8 → α) (data : List UInt8) :
    Prog.Runs (portRead data.length >>= fun data => pure (f data) : Host α).run.patient data [] (.ok (f data)) := by
  rw [portRead, ExceptT.run_bind_lift, TimedProg.patient_bind, TimedProg.patient_recvUpTo]
  exact (Prog.runs_recvAll data).map fun data => (Except.ok (f data) : Except Exit α)

theorem runs_readb (f : Option UInt8 → α) (b : UInt8) :
    Prog.Runs (readb >>= fun c => pure (f c) : Host α).run.patient [b] [] (.ok (f (some b))) :=
  .recv (.ret _)

theorem readAnswer_reply (data : List UInt8) :
    readAnswer data.length (data ++ (answerOk ++ [xorChecksum data, 0])) = some data := by
  have hlength : ¬ (data ++ (answerOk ++ [xorChecksum data, 0])).length < data.length + 4 := by
    rw [List.length_append]
    exact Nat.lt_irrefl _
  have hok : ((data ++ (answerOk ++ [xorChecksum data, 0])).drop data.length).take 2 = answerOk := by
    rw [List.drop_left]
    rfl
  have hget (i : Nat) : (data ++ (answerOk ++ [xorChecksum data, 0])).getD (data.length + i) 0
      = (answerOk ++ [xorChecksum data, 0]).getD i 0 := by
    rw [List.getD_eq_getElem?_getD, List.getElem?_append_right (Nat.le_add_right _ _), Nat.add_sub_cancel_left,
      List.getD_eq_getElem?_getD]
  have hchk : ((answerOk ++ [xorChecksum data, 0]).getD 3 0).toNat <<< 8
      ||| ((answerOk ++ [xorChecksum data, 0]).getD 2 0).toNat = (xorChecksum data).toNat := Nat.zero_or _
  rw [readAnswer, if_neg hlength]
  simp only [hok, hget, hchk, List.take_left, ne_eq, not_true_eq_false, if_false]

/-! ## In `main_loop` -/

variable {speed : Option UInt32} {memory memory' memory'' : Memory}

/-- An exchange in `main_loop`. -/
def InLoop (phone : Phone) (speed : Option UInt32) (p : Host α) (memory : Memory) (a : α) (memory' : Memory) : Prop :=
  Exchanges phone p ⟨memory, speed, .mainLoop⟩ a ⟨memory', speed, .mainLoop⟩

theorem inLoop_chaosPing : InLoop phone speed chaosPing memory true memory :=
  Exchanges.request .ping rfl (runs_readb (fun c => decide (c = some answerR)) answerR)

theorem inLoop_chaosKeepAlive : InLoop phone speed chaosKeepAlive memory () memory := by
  have hrequest : InLoop phone speed (portWrite [keepAliveLetter] >>= fun _ => pure ()) memory () memory :=
    Exchanges.request .keepAlive rfl (.ret _)
  rwa [bind_pure_unit] at hrequest

theorem inLoop_chaosReadInfo :
    InLoop phone speed chaosReadInfo memory (some (phoneInfo phone memory)) memory := by
  have hread := runs_portRead (fun raw => if raw.length ≠ infoSize then none else some (unpackInfo raw))
    (memory.readBytes (phone.start + infoOffset) 0 infoSize)
  rw [Memory.readBytes_length, if_neg (not_not.mpr rfl)] at hread
  exact Exchanges.request .info rfl hread

theorem inLoop_readOnce (addr : Nat) {size : Nat} (hpos : 0 < size) (hlt : size < 2 ^ 32) :
    InLoop phone speed (readOnce (readRequest addr size) size) memory (some (memory.readBytes addr 0 size))
      memory := by
  have hread := runs_portRead (readAnswer size)
    (Request.reply phone (.read addr size) ⟨memory, speed, .mainLoop⟩)
  have hlength : (Request.reply phone (.read addr size) ⟨memory, speed, .mainLoop⟩).length = size + 4 := by
    rw [Request.reply, List.length_append, Memory.readBytes_length]
    rfl
  have hanswer := readAnswer_reply (memory.readBytes addr 0 size)
  rw [Memory.readBytes_length] at hanswer
  rw [hlength, show readAnswer size (Request.reply phone (.read addr size) ⟨memory, speed, .mainLoop⟩) = _
    from hanswer] at hread
  exact Exchanges.request (.read addr size) ⟨rfl, hpos, hlt⟩ hread

theorem inLoop_readBlock (addr : Nat) {size : Nat} (hpos : 0 < size) (hlt : size < 2 ^ 32) (tries : Nat) :
    InLoop phone speed (readBlock (readRequest addr size) size tries) memory (memory.readBytes addr 0 size)
      memory := by
  cases tries with
  | zero => exact (inLoop_readOnce addr hpos hlt).bind (.pure _)
  | succ tries => exact (inLoop_readOnce addr hpos hlt).bind (.pure _)

/-- Block by block, with the memory as it is. -/
theorem inLoop_mapM {f : α → Host β} {g : α → β} {xs : List α}
    (hf : ∀ x ∈ xs, InLoop phone speed (f x) memory (g x) memory) :
    InLoop phone speed (xs.mapM f) memory (xs.map g) memory := by
  induction xs with
  | nil => exact Exchanges.pure []
  | cons x rest ih =>
      have hrest := ih fun y hy => hf y (List.mem_cons_of_mem x hy)
      rw [List.mapM_cons]
      exact (hf x List.mem_cons_self).bind (hrest.bind (.pure _))

theorem inLoop_chaosReadRam (addr size : Nat) {chunk : Nat} (hpos : 0 < chunk) (hlt : chunk < 2 ^ 32) :
    InLoop phone speed (chaosReadRam addr size chunk) memory (memory.readBytes addr 0 size) memory := by
  have hparts : InLoop phone speed
      ((cut size chunk).mapM fun block => readBlock (readRequest (addr + block.1) block.2) block.2 10) memory
      ((cut size chunk).map fun block => memory.readBytes (addr + block.1) 0 block.2) memory := by
    refine inLoop_mapM fun block hblock => ?_
    obtain ⟨hsize, hle⟩ := mem_cut hpos hblock
    exact inLoop_readBlock _ hsize (Nat.lt_of_le_of_lt hle hlt) 10
  rw [← flatMap_cut memory addr hpos, List.flatMap_def]
  exact hparts.bind (.pure _)

theorem inLoop_writeBlock (addr : Nat) {tmp : List UInt8} (hne : tmp ≠ []) (hlt : tmp.length < 2 ^ 32)
    (tries : Nat) :
    InLoop phone speed (writeBlock (writeRequest addr tmp) tries) memory () (memory.writeBytes addr 0 tmp) := by
  have honce : InLoop phone speed (writeOnce (writeRequest addr tmp)) memory true (memory.writeBytes addr 0 tmp) :=
    Exchanges.request (.write addr tmp) ⟨rfl, hne, hlt⟩ (runs_portRead (fun ok => decide (ok = answerOk)) answerOk)
  cases tries with
  | zero => exact honce.bind (.pure _)
  | succ tries => exact honce.bind (.pure _)

/-- Block by block, with the memory as the blocks in front have left it. -/
theorem inLoop_forM {f : α → Host Unit} {F : α → Memory → Memory} {xs : List α}
    (hf : ∀ x ∈ xs, ∀ memory, InLoop phone speed (f x) memory () (F x memory)) (memory : Memory) :
    InLoop phone speed (xs.forM f) memory () (xs.foldl (fun memory x => F x memory) memory) := by
  induction xs generalizing memory with
  | nil => exact Exchanges.pure ()
  | cons x rest ih =>
      have hrest := ih (fun y hy => hf y (List.mem_cons_of_mem x hy)) (F x memory)
      exact (hf x List.mem_cons_self memory).bind hrest

theorem inLoop_chaosWriteRam (addr : Nat) (buff : List UInt8) {chunk : Nat} (hpos : 0 < chunk)
    (hlt : chunk < 2 ^ 32) :
    InLoop phone speed (chaosWriteRam addr buff chunk) memory true (memory.writeBytes addr 0 buff) := by
  have hblocks : InLoop phone speed
      ((makeWriteBlocks addr buff chunk).forM fun block => writeBlock (writeRequest block.1 block.2) writeTries)
      memory () (memory.writeBytes addr 0 buff) := by
    rw [← foldl_makeWriteBlocks addr buff hpos memory]
    refine inLoop_forM (fun block hblock memory => ?_) memory
    obtain ⟨hne, hle⟩ := mem_makeWriteBlocks hpos hblock
    exact inLoop_writeBlock _ hne (Nat.lt_of_le_of_lt hle hlt) writeTries
  exact hblocks.bind (.pure true)

theorem inLoop_exitUnless (e : Exit) {ok : Bool} (hok : ok = true) :
    InLoop phone speed (exitUnless e ok) memory () memory := by
  rw [hok]
  exact Exchanges.pure ()

/-! ## Tasks and images -/

theorem inLoop_runTask {info : PhoneInfo} {task : Task} (h : task.Supported info) :
    InLoop phone speed (runTask info task) memory (taskFile task memory) (taskMemory task memory) := by
  cases task with
  | read addr size =>
      have hread : InLoop phone speed (chaosReadRam addr size flasherChunkSize) memory
          (memory.readBytes addr 0 size) memory := inLoop_chaosReadRam addr size (by decide) (by decide)
      exact inLoop_chaosKeepAlive.bind (hread.bind (.pure _))
  | write addr raw =>
      have hwrite : InLoop phone speed (chaosWriteRam addr raw flasherChunkSize) memory true
          (memory.writeBytes addr 0 raw) := inLoop_chaosWriteRam addr raw (by decide) (by decide)
      have hram : (!decide (info.flashBase ≤ addr ∧ addr ≤ info.flashBase + info.flashSize)) = true := by
        rw [decide_eq_false h]
        rfl
      exact (inLoop_exitUnless _ hram).bind (inLoop_chaosKeepAlive.bind (hwrite.bind (.pure none)))
  | erase addr => exact absurd h not_false

theorem inLoop_tasks {info : PhoneInfo} {tasks : List Task} (h : ∀ task ∈ tasks, task.Supported info)
    (memory : Memory) :
    InLoop phone speed (tasks.mapM (runTask info)) memory (tasksFiles tasks memory) (tasksMemory tasks memory) := by
  induction tasks generalizing memory with
  | nil => exact Exchanges.pure []
  | cons task rest ih =>
      have hrest := ih (fun other hmem => h other (List.mem_cons_of_mem task hmem)) (taskMemory task memory)
      rw [List.mapM_cons]
      exact (inLoop_runTask (h task List.mem_cons_self)).bind (hrest.bind (.pure _))

theorem inLoop_runTasks {tasks : List Task} (h : ∀ task ∈ tasks, task.Supported (phoneInfo phone memory)) :
    InLoop phone speed (runTasks tasks) memory (tasksFiles tasks memory) (tasksMemory tasks memory) := by
  rw [runTasks]
  split_ifs with hempty
  · rw [List.isEmpty_iff.mp hempty]
    exact Exchanges.pure []
  · exact inLoop_chaosReadInfo.bind (inLoop_tasks h memory)

/-- `chaos_write_ram` in front of the check of its result. -/
theorem inLoop_load {k : Host α} {a : α} (addr : Nat) (buff : List UInt8)
    (hk : InLoop phone speed k (memory.writeBytes addr 0 buff) a memory') :
    InLoop phone speed
      (chaosWriteRam addr buff chunkSize >>= fun ok => exitUnless .loadError ok >>= fun _ => k) memory a memory' :=
  (inLoop_chaosWriteRam addr buff (by decide) (by decide)).bind ((inLoop_exitUnless _ rfl).bind hk)

theorem inLoop_runLaunch {launch : Option Launch} (h : ∀ l, launch = some l → l.Supported) :
    InLoop phone speed (runLaunch launch) memory ()
      ((launch.map fun launch => launchMemory launch memory).getD memory) := by
  cases launch with
  | none => exact Exchanges.pure ()
  | some launch =>
      cases launch with
      | exec execAddr raw =>
          have hraw : InLoop phone speed (chaosWriteRam execAddr raw flasherChunkSize) memory true
              (memory.writeBytes execAddr 0 raw) := inLoop_chaosWriteRam execAddr raw (by decide) (by decide)
          exact inLoop_chaosKeepAlive.bind (hraw.bind (inLoop_exitUnless _ rfl))
      | linux execAddr kernel dtb =>
          obtain ⟨haligned, hdtb⟩ := h _ rfl
          have hkernel (memory : Memory) :
              InLoop phone speed (chaosWriteRam (kernelAddr execAddr) kernel chunkSize >>= exitUnless .loadError)
                memory () (memory.writeBytes (kernelAddr execAddr) 0 kernel) :=
            (inLoop_chaosWriteRam _ kernel (by decide) (by decide)).bind (inLoop_exitUnless _ rfl)
          refine (inLoop_exitUnless _ (decide_eq_true haligned)).bind ?_
          refine (inLoop_exitUnless _ (decide_eq_true hdtb)).bind (inLoop_chaosKeepAlive.bind ?_)
          exact inLoop_load execAddr _ (inLoop_load (dtbAddr execAddr kernel) dtb (hkernel _))

/-! ## The whole session -/

theorem exchanges_changeSpeed {opts : Options}
    (h : opts.speed = opts.bootSpeed ∨ (chaosSpeeds.lookup opts.speed).isSome) :
    ∃ speed', Exchanges phone (changeSpeed opts) ⟨memory, speed, .mainLoop⟩ true ⟨memory, speed', .mainLoop⟩ := by
  rw [changeSpeed]
  by_cases hsame : opts.speed = opts.bootSpeed
  · rw [if_neg (not_not.mpr hsame)]
    exact ⟨speed, .pure true⟩
  · obtain ⟨code, hcode⟩ := Option.isSome_iff_exists.mp (h.resolve_left hsame)
    have hset : Exchanges phone (portWrite [speedLetter, code] >>= fun _ => readb) ⟨memory, speed, .mainLoop⟩
        (some 0x68) ⟨memory, iSpeeds[code.toNat]?, .awaitPing⟩ :=
      Exchanges.request (.setSpeed code) rfl (.recv (.ret _))
    have hconfirm : Exchanges phone
        (portWrite [pingLetter] >>= fun _ => readb >>= fun c => pure (decide (c = some 0x48)))
        ⟨memory, iSpeeds[code.toNat]?, .awaitPing⟩ true ⟨memory, iSpeeds[code.toNat]?, .mainLoop⟩ :=
      Exchanges.request .confirmSpeed rfl (runs_readb (fun c => decide (c = some 0x48)) 0x48)
    rw [if_pos hsame, chaosSetSpeed, hcode]
    refine ⟨iSpeeds[code.toNat]?, ?_⟩
    dsimp only
    rw [← bind_assoc]
    refine hset.bind ?_
    rw [if_pos rfl]
    exact hconfirm

theorem exchanges_openSession {opts : Options}
    (h : opts.speed = opts.bootSpeed ∨ (chaosSpeeds.lookup opts.speed).isSome) (hcontrol : d.control = .startwait) :
    ∃ speed, Exchanges phone (openSession opts) d () ⟨phone.readInfo d.memory, speed, .mainLoop⟩ := by
  obtain ⟨speed, hchange⟩ : ∃ speed, Exchanges phone (changeSpeed opts)
      ⟨phone.readInfo d.memory, d.speed, .mainLoop⟩ true ⟨phone.readInfo d.memory, speed, .mainLoop⟩ :=
    exchanges_changeSpeed h
  have hstart : Exchanges phone (portWrite [startByte] >>= fun _ => readb) d (some answerMain)
      ⟨phone.readInfo d.memory, d.speed, .mainLoop⟩ := Exchanges.request .start hcontrol (.recv (.ret _))
  have hkeep : InLoop phone d.speed ((List.range 4).forM fun _ => chaosKeepAlive) (phone.readInfo d.memory) ()
      ((List.range 4).foldl (fun memory _ => memory) (phone.readInfo d.memory)) :=
    inLoop_forM (fun _ _ _ => inLoop_chaosKeepAlive) _
  refine ⟨speed, ?_⟩
  rw [openSession, ← bind_assoc]
  refine hstart.bind ((inLoop_exitUnless _ (decide_eq_true rfl)).bind ?_)
  refine inLoop_chaosPing.bind ((inLoop_exitUnless _ rfl).bind (hkeep.bind ?_))
  exact hchange.bind ((inLoop_exitUnless _ rfl).bind inLoop_chaosKeepAlive)

/-- **A session in time.** Every read has what is in the memory at that point, and every write is in it. -/
theorem exchanges_session {opts : Options} (h : opts.Supported (phoneInfo phone (phone.readInfo d.memory)))
    (hcontrol : d.control = .startwait) :
    ∃ speed, Exchanges phone (session opts) d
      ⟨tasksFiles opts.tasks (phone.readInfo d.memory), opts.launch.map Launch.entry⟩
      ⟨sessionMemory opts (phone.readInfo d.memory), speed, .mainLoop⟩ := by
  obtain ⟨speed, hopen⟩ := exchanges_openSession h.speed hcontrol
  exact ⟨speed, hopen.bind ((inLoop_runTasks h.tasks).bind ((inLoop_runLaunch h.launch).bind (.pure _)))⟩

/-- The client up to its jump. -/
theorem reaches_client {opts : Options} (h : opts.Supported (phoneInfo phone (phone.readInfo d.memory)))
    (hcontrol : d.control = .startwait) :
    ∃ speed, Config.Reaches (bootRound phone) ⟨(client opts).patient, bootRound phone d, [], []⟩
      ⟨.ret (sessionStage
          (.ok ⟨tasksFiles opts.tasks (phone.readInfo d.memory), opts.launch.map Launch.entry⟩)),
        bootRound phone ⟨sessionMemory opts (phone.readInfo d.memory), speed, .mainLoop⟩, [], []⟩ := by
  obtain ⟨speed, hsession⟩ := exchanges_session h hcontrol
  refine ⟨speed, ?_⟩
  rw [client, TimedProg.patient_bind]
  exact hsession.host_bind fun r => (pure (sessionStage r) : TimedProg Stage).patient

/-- The jump: the third copy of the address is left to the program that is called. -/
theorem reaches_gotoPass (files : List (Option (List UInt8))) (entry : Nat) (hcontrol : d.control = .mainLoop) :
    Config.Reaches (bootRound phone) ⟨(gotoPass files entry).patient, bootRound phone d, [], []⟩
      ⟨.ret (.ended (.ok files)), .ret { d with control := .called (entry % 2 ^ 32) }, packBe32 entry, []⟩ := by
  have hready : (Request.goto entry).Ready d := hcontrol
  have hreceive (k : List UInt8 → Prog Stage) (hk : k (leBytes 4 (entry % 2 ^ 32)) = .ret (.ended (.ok files))) :
      Prog.Runs (Prog.recvAll 4 >>= k) (leBytes 4 (entry % 2 ^ 32)) [] (.ended (.ok files)) := by
    have hend : Prog.Runs (k (leBytes 4 (entry % 2 ^ 32))) [] [] (.ended (.ok files)) := hk ▸ .ret _
    have hall := (Prog.runs_recvAll (leBytes 4 (entry % 2 ^ 32))).bind hend
    rwa [List.append_nil] at hall
  have hruns : Prog.Runs (bootRound phone d) ([gotoLetter] ++ packBe32 entry ++ packBe32 entry)
      (leBytes 4 (entry % 2 ^ 32)) { d with control := .called (entry % 2 ^ 32) } := runs_request hready
  have hserve (host : Prog Stage) :
      Config.Reaches (bootRound phone) ⟨host, bootRound phone d, gotoRequest entry, []⟩
        ⟨host, .ret { d with control := .called (entry % 2 ^ 32) }, packBe32 entry, leBytes 4 (entry % 2 ^ 32)⟩ := by
    have hreaches := Config.reaches_of_runs_bind (bootRound phone) hruns (pure : Device → Prog Device) host
      (packBe32 entry) []
    rwa [bind_pure] at hreaches
  rw [gotoPass, TimedProg.patient_bind, TimedProg.patient_sendAll]
  refine (Config.reaches_sendAll _ _ _ _ [] []).trans ?_
  rw [TimedProg.patient_bind, TimedProg.patient_recvUpTo]
  exact (hserve _).trans (Config.reaches_reply _ (hreceive _ rfl) rfl _ _ [])

/-- The client as far as the first pass of `chaos_goto`. -/
def firstPass (opts : Options) : TimedProg Stage := do
  let stage ← client opts
  (stageProgram stage).getD (pure stage)

/-- Where the client has got through: with nothing to call the boot loader waits for its next command. -/
def through (phone : Phone) (opts : Options) (memory : Memory) (speed : Option UInt32) : Config Stage Device :=
  let stage := Stage.ended (.ok (tasksFiles opts.tasks memory))
  match opts.launch with
  | none => ⟨.ret stage, bootRound phone ⟨sessionMemory opts memory, speed, .mainLoop⟩, [], []⟩
  | some launch =>
      ⟨.ret stage, .ret ⟨sessionMemory opts memory, speed, .called (launch.entry % 2 ^ 32)⟩, packBe32 launch.entry, []⟩

theorem reaches_through {opts : Options} (h : opts.Supported (phoneInfo phone (phone.readInfo d.memory)))
    (hcontrol : d.control = .startwait) :
    ∃ speed, Config.Reaches (bootRound phone) ⟨(firstPass opts).patient, bootRound phone d, [], []⟩
      (through phone opts (phone.readInfo d.memory) speed) := by
  obtain ⟨speed, hclient⟩ := reaches_client h hcontrol
  refine ⟨speed, ?_⟩
  rw [firstPass, TimedProg.patient_bind]
  refine (hclient.host_bind _).trans ?_
  rw [through]
  cases opts.launch with
  | none => exact .refl
  | some launch =>
      have hloop :
          (⟨sessionMemory opts (phone.readInfo d.memory), speed, .mainLoop⟩ : Device).control = .mainLoop := rfl
      exact reaches_gotoPass _ launch.entry hloop

/-- **A session in time is one of the sessions in which receptions may be late.** -/
theorem calls_in_time {opts : Options} (h : opts.Supported (phoneInfo phone (phone.readInfo d.memory)))
    (hcontrol : d.control = .startwait) {launch : Launch} (hlaunch : opts.launch = some launch) :
    ∃ p speed, TimedLink.Reaches stageProgram (bootRound phone) ⟨client opts, bootRound phone d, [], []⟩
      ⟨p, .ret ⟨sessionMemory opts (phone.readInfo d.memory), speed, .called (launch.entry % 2 ^ 32)⟩,
        packBe32 launch.entry, []⟩ := by
  obtain ⟨speed, hclient⟩ := reaches_client h hcontrol
  rw [hlaunch] at hclient
  obtain ⟨p, hp, hsession⟩ := TimedLink.reaches_of_patient hclient
  obtain rfl := TimedProg.eq_ret_of_patient hp.symm
  have hloop : (⟨sessionMemory opts (phone.readInfo d.memory), speed, .mainLoop⟩ : Device).control = .mainLoop := rfl
  obtain ⟨p, -, hpass⟩ := TimedLink.reaches_of_patient
    (reaches_gotoPass (tasksFiles opts.tasks (phone.readInfo d.memory)) launch.entry hloop)
  refine ⟨p, speed, (hsession.tail ?_).trans hpass⟩
  exact .next rfl _ _ _

/-- **In time, the client gets through.** From wherever the two sides have come, in whatever order, they come to a
place behind the one where the files are read and the right program is called with everything loaded. -/
theorem client_gets_through {opts : Options} (h : opts.Supported (phoneInfo phone (phone.readInfo d.memory)))
    (hcontrol : d.control = .startwait) :
    ∃ speed, ∀ c, Config.Reaches (bootRound phone) ⟨(firstPass opts).patient, bootRound phone d, [], []⟩ c →
      ∃ c', Config.Reaches (bootRound phone) c c' ∧
        Config.Reaches (bootRound phone) (through phone opts (phone.readInfo d.memory) speed) c' := by
  obtain ⟨speed, hthrough⟩ := reaches_through h hcontrol
  exact ⟨speed, fun c hc => Config.joins hc hthrough⟩

end

/-! ## An example: a write, a read of it at another speed, and a program -/

namespace Example

def phone : Phone where
  start := 0x4000
  readInfo := id
  otherCommand _ d := pure d
  program _ := Prog.recv fun _ => .ret ()

def device : Device := ⟨fun _ => 0, none, .startwait⟩

def options : Options where
  bootSpeed := 115200
  speed := 921600
  tasks := [.write 0xA8000000 [0x1E, 0xFF, 0x2F, 0xE1], .read 0xA8000000 4]
  launch := some (.exec 0xA8100000 [0xFE, 0xFF, 0xFF, 0xEA])

theorem options_supported : options.Supported (phoneInfo phone (phone.readInfo device.memory)) where
  speed := .inr (by decide)
  tasks := by decide +kernel
  launch := by
    intro launch hlaunch
    obtain rfl := Option.some.inj hlaunch
    trivial

end Example

/-- The four bytes that were written are read back, and the program is called. -/
theorem client_gets_through_example :
    ∃ speed, ∀ c,
      Config.Reaches (bootRound Example.phone)
        ⟨(firstPass Example.options).patient, bootRound Example.phone Example.device, [], []⟩ c →
      ∃ c', Config.Reaches (bootRound Example.phone) c c' ∧
        Config.Reaches (bootRound Example.phone)
          (through Example.phone Example.options Example.device.memory speed) c' :=
  client_gets_through Example.options_supported rfl

end Pmb887x.ChaosBoot
