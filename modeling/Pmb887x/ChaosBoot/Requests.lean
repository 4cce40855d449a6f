import Pmb887x.ChaosBoot.Host

set_option autoImplicit false

/-! # What the boot loader makes of the client's requests

A session is a string of requests. `Request.serve` is what a request does to the device, and
`runs_request` that one round of the boot loader does just that, reading the request and no more. -/

namespace Pmb887x.ChaosBoot

open Library Prog

/-! ## Words and blocks -/

/-- Four bytes put together again. -/
theorem shiftedBytes_eq (n : Nat) (hn : n < 2 ^ 32) :
    (n / 256 / 256 / 256 % 256) <<< 24 ||| (n / 256 / 256 % 256) <<< 16 ||| (n / 256 % 256) <<< 8 ||| n % 256 = n := by
  have hlow : (n / 256 % 256) <<< 8 ||| n % 256 = n % 65536 := by
    rw [← Nat.shiftLeft_add_eq_or_of_lt (Nat.mod_lt n (by decide)), Nat.shiftLeft_eq]
    omega
  have hmiddle : (n / 256 / 256 % 256) <<< 16 ||| n % 65536 = n % 16777216 := by
    rw [← Nat.shiftLeft_add_eq_or_of_lt (Nat.mod_lt n (by decide)), Nat.shiftLeft_eq]
    omega
  have hhigh : (n / 256 / 256 / 256 % 256) <<< 24 ||| n % 16777216 = n := by
    rw [← Nat.shiftLeft_add_eq_or_of_lt (Nat.mod_lt n (by decide)), Nat.shiftLeft_eq]
    omega
  rw [Nat.or_assoc, Nat.or_assoc, hlow, hmiddle, hhigh]

theorem runs_rxWord (n : Nat) : Runs rxWord (packBe32 n) [] (n % 2 ^ 32) := by
  have hmask : n &&& 0xFFFFFFFF = n % 2 ^ 32 := Nat.and_two_pow_sub_one_eq_mod n 32
  have hvalue := shiftedBytes_eq (n % 2 ^ 32) (Nat.mod_lt n (by decide))
  rw [packBe32, hmask]
  simp only [leBytes, List.reverse_cons, List.reverse_nil, List.nil_append, List.cons_append]
  refine runs_of_eq ?_ hvalue
  refine Runs.bind_getc (Runs.bind_getc (Runs.bind_getc (Runs.bind_getc ?_)))
  simp only [UInt8.toNat_ofNat']
  exact Runs.ret _
where
  runs_of_eq {p : Prog Nat} {ins : List UInt8} {a b : Nat} (h : Runs p ins [] a) (hab : a = b) :
      Runs p ins [] b := hab ▸ h

theorem runs_rxMemblkLoop (r4 : Nat) (bytes : List UInt8) :
    ∀ (memory : Memory) (offset : Nat) (r8 : UInt8),
      Runs (rxMemblkLoop r4 bytes.length memory offset r8) bytes []
        (memory.writeBytes r4 offset bytes, bytes.foldl (· ^^^ ·) r8) := by
  induction bytes with
  | nil =>
      intro memory offset r8
      exact Runs.ret _
  | cons b rest ih =>
      intro memory offset r8
      exact Runs.bind_getc (ih (memory.write r4 offset b) (offset + 1) (r8 ^^^ b))

theorem runs_txMemLoop (memory : Memory) (r6 : Nat) :
    ∀ (count offset : Nat) (r8 : UInt8),
      Runs (txMemLoop memory r6 count offset r8) [] (memory.readBytes r6 offset count)
        ((memory.readBytes r6 offset count).foldl (· ^^^ ·) r8) := by
  intro count
  induction count with
  | zero =>
      intro offset r8
      exact Runs.ret _
  | succ count ih =>
      intro offset r8
      have hbytes : memory.readBytes r6 offset (count + 1)
          = memory.read r6 offset :: memory.readBytes r6 (offset + 1) count := by
        rw [Nat.add_comm count 1, Memory.readBytes_append]
        rfl
      rw [hbytes, List.foldl_cons]
      exact Runs.bind_putc (ih (offset + 1) _)

theorem passes_of_pos {count : Nat} (h : 0 < count) : passes count = count := if_neg (Nat.ne_of_gt h)

/-- The address is taken modulo 2³². -/
theorem writeBytes_mod (memory : Memory) (addr : Nat) (bytes : List UInt8) :
    memory.writeBytes (addr % 2 ^ 32) 0 bytes = memory.writeBytes addr 0 bytes := by
  have hwrite : ∀ (m : Memory) (offset : Nat) (v : UInt8),
      m.write (addr % 2 ^ 32) offset v = m.write addr offset v := by
    intro m offset v
    funext a
    have haddress : address (addr % 2 ^ 32) offset = address addr offset := Nat.mod_add_mod addr (2 ^ 32) offset
    rw [Memory.write, Memory.write, haddress]
  suffices h : ∀ (bytes : List UInt8) (memory : Memory) (offset : Nat),
      memory.writeBytes (addr % 2 ^ 32) offset bytes = memory.writeBytes addr offset bytes from h bytes memory 0
  intro bytes
  induction bytes with
  | nil =>
      intro memory offset
      rfl
  | cons b rest ih =>
      intro memory offset
      rw [Memory.writeBytes, Memory.writeBytes, ih, hwrite]

theorem readBytes_mod (memory : Memory) (addr count : Nat) :
    memory.readBytes (addr % 2 ^ 32) 0 count = memory.readBytes addr 0 count := by
  refine List.map_congr_left fun i _ => ?_
  rw [Memory.read, Memory.read, address, address, addressSpace, Nat.mod_add_mod]

/-! ## Requests -/

/-- What the client sends. A change of the speed is two requests. -/
inductive Request where
  | start
  | ping
  | keepAlive
  | setSpeed (code : UInt8)
  | confirmSpeed
  | info
  | read (addr size : Nat)
  | write (addr : Nat) (tmp : List UInt8)
  /-- with the two copies of the address that are compared -/
  | goto (addr : Nat)

namespace Request

def bytes : Request → List UInt8
  | start => [startByte]
  | ping => [pingLetter]
  | keepAlive => [keepAliveLetter]
  | setSpeed code => [speedLetter, code]
  | confirmSpeed => [pingLetter]
  | info => [infoLetter]
  | read addr size => readRequest addr size
  | write addr tmp => writeRequest addr tmp
  | goto addr => [gotoLetter] ++ packBe32 addr ++ packBe32 addr

section

variable (phone : Phone)

/-- The device behind the request. -/
def serve : Request → Device → Device
  | start, d => { d with memory := phone.readInfo d.memory, control := .mainLoop }
  | setSpeed code, d => { d with speed := iSpeeds[code.toNat]?, control := .awaitPing }
  | confirmSpeed, d => { d with control := .mainLoop }
  | write addr tmp, d => { d with memory := d.memory.writeBytes addr 0 tmp }
  | goto addr, d => { d with control := .called (addr % 2 ^ 32) }
  | ping, d => d
  | keepAlive, d => d
  | info, d => d
  | read _ _, d => d

/-- What the device answers. -/
def reply : Request → Device → List UInt8
  | start, _ => [answerMain]
  | ping, _ => [answerR]
  | keepAlive, _ => []
  | setSpeed _, _ => [0x68]
  | confirmSpeed, _ => [0x48]
  | info, d => d.memory.readBytes (phone.start + infoOffset) 0 infoSize
  | read addr size, d =>
      let data := d.memory.readBytes addr 0 size
      data ++ (answerOk ++ [xorChecksum data, 0])
  | write _ _, _ => answerOk
  | goto addr, _ => leBytes 4 (addr % 2 ^ 32)

end

/-- The request finds the device where it waits for it, and the counts of its loops are not zero. -/
def Ready (d : Device) : Request → Prop
  | start => d.control = .startwait
  | confirmSpeed => d.control = .awaitPing
  | read _ size => d.control = .mainLoop ∧ 0 < size ∧ size < 2 ^ 32
  | write _ tmp => d.control = .mainLoop ∧ tmp ≠ [] ∧ tmp.length < 2 ^ 32
  | ping => d.control = .mainLoop
  | keepAlive => d.control = .mainLoop
  | setSpeed _ => d.control = .mainLoop
  | info => d.control = .mainLoop
  | goto _ => d.control = .mainLoop

end Request

section Serving

variable {phone : Phone} {d : Device}

theorem runs_cmdWrite (addr : Nat) {tmp : List UInt8} (hne : tmp ≠ []) (hlt : tmp.length < 2 ^ 32) :
    Runs (cmdWrite d) (packBe32 addr ++ packBe32 tmp.length ++ tmp ++ [xorChecksum tmp]) answerOk
      { d with memory := d.memory.writeBytes addr 0 tmp } := by
  have hcount : passes (tmp.length % 2 ^ 32) = tmp.length := by
    rw [Nat.mod_eq_of_lt hlt, passes_of_pos (List.length_pos_iff.mpr hne)]
  have hblock : Runs (rxMemblk d.memory (addr % 2 ^ 32) (tmp.length % 2 ^ 32)) (tmp ++ [xorChecksum tmp]) []
      (d.memory.writeBytes addr 0 tmp, true) := by
    have hloop := runs_rxMemblkLoop (addr % 2 ^ 32) tmp d.memory 0 0
    rw [writeBytes_mod] at hloop
    rw [rxMemblk, hcount]
    refine hloop.bind_recv (Runs.bind_getc ?_)
    have hsame : decide (xorChecksum tmp = tmp.foldl (· ^^^ ·) 0) = true := decide_eq_true rfl
    rw [hsame]
    exact Runs.ret _
  rw [List.append_assoc, List.append_assoc]
  refine (runs_rxWord addr).bind_recv ((runs_rxWord tmp.length).bind_recv ?_)
  rw [← List.append_nil (tmp ++ _)]
  refine hblock.bind_recv ?_
  rw [← List.append_nil answerOk]
  exact (runs_sendAll answerOk).bind_send (Runs.ret _)

theorem runs_cmdRead (addr : Nat) {size : Nat} (hpos : 0 < size) (hlt : size < 2 ^ 32) :
    Runs (cmdRead d) (packBe32 addr ++ packBe32 size) (Request.reply phone (.read addr size) d) d := by
  have hcount : passes (size % 2 ^ 32) = size := by rw [Nat.mod_eq_of_lt hlt, passes_of_pos hpos]
  have hloop := runs_txMemLoop d.memory (addr % 2 ^ 32) size 0 0
  rw [readBytes_mod] at hloop
  refine (runs_rxWord addr).bind_recv ?_
  rw [← List.append_nil (packBe32 size)]
  refine (runs_rxWord size).bind_recv ?_
  rw [hcount]
  exact hloop.bind_send ((runs_sendAll answerOk).bind_send (Runs.bind_putc (Runs.bind_putc (Runs.ret d))))

theorem runs_cmdGoto (addr : Nat) :
    Runs (cmdGoto d) (packBe32 addr ++ packBe32 addr) (leBytes 4 (addr % 2 ^ 32))
      { d with control := .called (addr % 2 ^ 32) } := by
  refine (runs_rxWord addr).bind_recv ?_
  rw [← List.append_nil (packBe32 addr)]
  refine (runs_rxWord addr).bind_recv ?_
  rw [if_pos rfl, ← List.append_nil (leBytes 4 _)]
  exact (runs_sendAll _).bind_send (Runs.ret _)

/-- **One round serves one request.** -/
theorem runs_request {r : Request} (hready : r.Ready d) :
    Runs (bootRound phone d) r.bytes (r.reply phone d) (r.serve phone d) := by
  cases r with
  | start =>
      rw [bootRound, show d.control = .startwait from hready]
      exact Runs.bind_getc (Runs.bind_putc (Runs.ret _))
  | confirmSpeed =>
      rw [bootRound, show d.control = .awaitPing from hready]
      exact Runs.bind_getc (Runs.bind_putc (Runs.ret _))
  | ping =>
      rw [bootRound, show d.control = .mainLoop from hready]
      exact Runs.bind_getc (Runs.bind_putc (Runs.ret d))
  | keepAlive =>
      rw [bootRound, show d.control = .mainLoop from hready]
      exact Runs.bind_getc (Runs.ret d)
  | setSpeed code =>
      rw [bootRound, show d.control = .mainLoop from hready]
      exact Runs.bind_getc (Runs.bind_getc (Runs.bind_putc (Runs.ret _)))
  | info =>
      rw [bootRound, show d.control = .mainLoop from hready]
      refine Runs.bind_getc ?_
      have hsend := (runs_sendAll (d.memory.readBytes (phone.start + infoOffset) 0 infoSize)).bind_send
        (f := fun _ => (pure d : Prog Device)) (Runs.ret d)
      rwa [List.append_nil] at hsend
  | read addr size =>
      obtain ⟨hcontrol, hpos, hlt⟩ := hready
      rw [bootRound, hcontrol]
      exact Runs.bind_getc (runs_cmdRead addr hpos hlt)
  | write addr tmp =>
      obtain ⟨hcontrol, hne, hlt⟩ := hready
      rw [bootRound, hcontrol]
      exact Runs.bind_getc (runs_cmdWrite addr hne hlt)
  | goto addr =>
      rw [bootRound, show d.control = .mainLoop from hready]
      exact Runs.bind_getc (runs_cmdGoto addr)

end Serving

/-! ## The blocks of a range -/

section Blocks

variable {total chunk : Nat}

theorem mem_cut (hchunk : 0 < chunk) {j size : Nat} (h : (j, size) ∈ cut total chunk) :
    0 < size ∧ size ≤ chunk := by
  obtain ⟨j', hj', heq⟩ := List.mem_map.mp h
  obtain ⟨rfl, rfl⟩ := Prod.mk.inj heq
  obtain ⟨i, hi, rfl⟩ := List.mem_range'.mp hj'
  have hlt : 0 + chunk * i < total := by
    have hle : chunk * (i + 1) ≤ total + chunk - 1 :=
      (Nat.mul_le_mul_left chunk hi).trans (Nat.mul_div_le _ _)
    rw [Nat.mul_succ] at hle
    omega
  omega

/-- What is written block by block is written as a whole. -/
theorem foldl_range'_writeBytes (addr : Nat) (bytes : List UInt8) (hchunk : 0 < chunk) :
    ∀ (n s : Nat) (memory : Memory), bytes.length ≤ s + n * chunk →
      (List.range' s n chunk).foldl (fun memory j => memory.writeBytes (addr + j) 0
        ((bytes.drop j).take (min chunk (bytes.length - j)))) memory
      = memory.writeBytes addr s (bytes.drop s) := by
  intro n
  induction n with
  | zero =>
      intro s memory h
      rw [List.drop_eq_nil_of_le (by omega)]
      rfl
  | succ n ih =>
      intro s memory h
      have htake : (bytes.drop s).take (min chunk (bytes.length - s)) = (bytes.drop s).take chunk := by
        rw [List.take_eq_take_iff, List.length_drop]
        omega
      rw [List.range'_succ, List.foldl_cons, htake, ih (s + chunk) _ (by rw [Nat.succ_mul] at h; omega),
        Memory.writeBytes_base_add, Nat.add_zero]
      conv_rhs => rw [← List.take_append_drop chunk (bytes.drop s), Memory.writeBytes_append, List.drop_drop]
      by_cases hlast : bytes.length ≤ s + chunk
      · rw [List.drop_eq_nil_of_le hlast]
        rfl
      · have hlength : ((bytes.drop s).take chunk).length = chunk := by
          rw [List.length_take, List.length_drop]
          omega
        rw [hlength]

theorem foldl_makeWriteBlocks (addr : Nat) (bytes : List UInt8) (hchunk : 0 < chunk) (memory : Memory) :
    (makeWriteBlocks addr bytes chunk).foldl (fun memory block => memory.writeBytes block.1 0 block.2) memory
      = memory.writeBytes addr 0 bytes := by
  rw [makeWriteBlocks, cut, List.map_map, List.foldl_map]
  refine foldl_range'_writeBytes addr bytes hchunk _ 0 memory ?_
  rw [Nat.zero_add]
  have hdiv := Nat.lt_div_mul_add (a := bytes.length + chunk - 1) hchunk
  omega

/-- What is read block by block is read as a whole. -/
theorem flatMap_range'_readBytes (memory : Memory) (addr : Nat) (hchunk : 0 < chunk) :
    ∀ (n s : Nat), total ≤ s + n * chunk →
      (List.range' s n chunk).flatMap (fun j => memory.readBytes (addr + j) 0 (min chunk (total - j)))
      = memory.readBytes addr s (total - s) := by
  intro n
  induction n with
  | zero =>
      intro s h
      rw [Nat.sub_eq_zero_of_le (by omega)]
      rfl
  | succ n ih =>
      intro s h
      rw [List.range'_succ, List.flatMap_cons, ih (s + chunk) (by rw [Nat.succ_mul] at h; omega),
        Memory.readBytes_base_add]
      by_cases hlast : total ≤ s + chunk
      · rw [Nat.sub_eq_zero_of_le hlast, Nat.min_eq_right (by omega)]
        exact List.append_nil _
      · rw [Nat.min_eq_left (by omega), ← Memory.readBytes_append]
        congr 1
        omega

theorem flatMap_cut (memory : Memory) (addr : Nat) (hchunk : 0 < chunk) :
    (cut total chunk).flatMap (fun block => memory.readBytes (addr + block.1) 0 block.2)
      = memory.readBytes addr 0 total := by
  rw [cut, List.flatMap_map]
  refine flatMap_range'_readBytes memory addr hchunk _ 0 ?_
  rw [Nat.zero_add]
  have hdiv := Nat.lt_div_mul_add (a := total + chunk - 1) hchunk
  omega

theorem mem_makeWriteBlocks {addr : Nat} {bytes : List UInt8} (hchunk : 0 < chunk) {block : Nat × List UInt8}
    (h : block ∈ makeWriteBlocks addr bytes chunk) : block.2 ≠ [] ∧ block.2.length ≤ chunk := by
  rw [makeWriteBlocks] at h
  obtain ⟨⟨j, size⟩, hcut, rfl⟩ := List.mem_map.mp h
  obtain ⟨j', hj', heq⟩ := List.mem_map.mp hcut
  obtain ⟨rfl, rfl⟩ := Prod.mk.inj heq
  obtain ⟨hpos, hle⟩ := mem_cut hchunk hcut
  constructor
  · refine List.ne_nil_of_length_pos ?_
    rw [List.length_take, List.length_drop]
    omega
  · rw [List.length_take]
    omega

end Blocks

end Pmb887x.ChaosBoot
