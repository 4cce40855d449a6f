import Pmb887x.Library.Hex
import Pmb887x.Library.Memory
import Pmb887x.Sie.SerialPort

set_option autoImplicit false

/-! # A phone's memory over AT commands (`Sie/CGSN.pm`)

`AT+CGSN*` stores at most 128 bytes, `AT+CGSN:` reads. Both functions go through the data in pieces of
128 bytes; only `readMemory` moves the address on with them. -/

namespace Pmb887x.Sie

open Library

/-! ## The commands -/

/-- `sprintf("AT+CGSN*%08X%s", …)` with the carriage return; `bin2hex` are upper-case digits. -/
def writeCommand (addr : Nat) (bytes : List UInt8) : List Char :=
  ['A', 'T', '+', 'C', 'G', 'S', 'N', '*'] ++ hexPadded 8 addr ++ hexBytes bytes ++ ['\r']

/-- `sprintf("AT+CGSN:%08X,%08X", …)` with the carriage return. -/
def readCommand (addr size : Nat) : List Char :=
  ['A', 'T', '+', 'C', 'G', 'S', 'N', ':'] ++ hexPadded 8 addr ++ [','] ++ hexPadded 8 size ++ ['\r']

/-- What a command asks the phone for. -/
inductive Request where
  | write (addr : Nat) (bytes : List UInt8)
  | read (addr size : Nat)

/-- The phone's reading of a command: eight digits for an address or a size, pairs of digits for at
most 128 bytes. -/
def parseRequest (command : List Char) : Option Request :=
  if command.take 8 = ['A', 'T', '+', 'C', 'G', 'S', 'N', '*'] then do
    let addr ← hexNumber ((command.drop 8).take 8)
    guard ((command.drop 16).getLast? = some '\r')
    let bytes ← bytesOfHex (command.drop 16).dropLast
    guard (bytes.length ≤ 128)
    return .write addr bytes
  else if command.take 8 = ['A', 'T', '+', 'C', 'G', 'S', 'N', ':'] then do
    let addr ← hexNumber ((command.drop 8).take 8)
    guard (command[16]? = some ',')
    let size ← hexNumber ((command.drop 17).take 8)
    guard (command.drop 25 = ['\r'])
    return .read addr size
  else none

/-! ## The phone -/

/-- A phone: its memory in a state, and what a command makes it do and answer, in the pieces in which
the answer arrives. -/
structure Phone (σ : Type) where
  memory : σ → Memory
  answer : σ → List Char → σ × Input

variable {σ : Type}

/-- The phone executes the two requests, and acknowledges them with `0xA1`. What it does with any
other command is left open. -/
structure Phone.Executes (phone : Phone σ) : Prop where
  pieces : ∀ s command, ∀ piece ∈ (phone.answer s command).2, piece ≠ []
  write : ∀ s command addr bytes, parseRequest command = some (.write addr bytes) →
    phone.memory (phone.answer s command).1 = (phone.memory s).writeBytes addr 0 bytes ∧
      (phone.answer s command).2.flatten = binaryReply [0xA1]
  read : ∀ s command addr size, parseRequest command = some (.read addr size) →
    phone.memory (phone.answer s command).1 = phone.memory s ∧
      (phone.answer s command).2.flatten
        = binaryReply (0xA1 :: (phone.memory s).readBytes addr 0 size)

/-- The phone and what of its answers is not read yet. -/
structure Link (σ : Type) where
  phone : σ
  input : Input

/-- `sendAt` with a binary response. -/
def exchange (phone : Phone σ) (size : Nat) (command : List Char) (link : Link σ) :
    AtResult × Link σ :=
  let answered := phone.answer link.phone command
  let result := sendAt (.binary size) (link.input ++ answered.2)
  (result.1, ⟨answered.1, result.2⟩)

/-! ## The program -/

/-- The loop of `writeMemory`. -/
def writeChunks (phone : Phone σ) (addr : Nat) (data : List UInt8) (offset : Nat) (link : Link σ) :
    Bool × Link σ :=
  if offset < data.length then
    let exchanged := exchange phone 1 (writeCommand addr ((data.drop offset).take 128)) link
    if exchanged.1.status ≠ .ok then (false, exchanged.2)
    else if exchanged.1.response.headD 0 ≠ 0xA1 then (false, exchanged.2)
    else writeChunks phone addr data (offset + 128) exchanged.2
  else (true, link)
termination_by data.length - offset
decreasing_by omega

def writeMemory (phone : Phone σ) (addr : Nat) (data : List UInt8) (link : Link σ) :
    Bool × Link σ :=
  writeChunks phone addr data 0 link

/-- The loop of `readMemory`. -/
def readChunks (phone : Phone σ) (addr size offset : Nat) (out : List UInt8) (link : Link σ) :
    Option (List UInt8) × Link σ :=
  if offset < size then
    let chunkSize := min 128 (size - offset)
    let exchanged := exchange phone (chunkSize + 1) (readCommand (addr + offset) chunkSize) link
    if exchanged.1.status ≠ .ok then (none, exchanged.2)
    else if exchanged.1.response.headD 0 ≠ 0xA1 then (none, exchanged.2)
    else readChunks phone addr size (offset + 128) (out ++ exchanged.1.response.drop 1) exchanged.2
  else (some out, link)
termination_by size - offset
decreasing_by omega

def readMemory (phone : Phone σ) (addr size : Nat) (link : Link σ) :
    Option (List UInt8) × Link σ :=
  readChunks phone addr size 0 [] link

/-- What is written is read back, and nothing else has changed. -/
def RoundTrip (phone : Phone σ) (addr : UInt32) (data : List UInt8) (s : σ) : Prop :=
  let written := writeMemory phone addr.toNat data ⟨s, []⟩
  let got := readMemory phone addr.toNat data.length written.2
  got.1 = some data ∧
    Memory.SameOutside (phone.memory s) (phone.memory got.2.phone) addr.toNat data.length

/-! ## Commands are understood -/

theorem parseRequest_writeCommand {addr : Nat} {bytes : List UInt8} (haddr : addr < 2 ^ 32)
    (hbytes : bytes.length ≤ 128) :
    parseRequest (writeCommand addr bytes) = some (.write addr bytes) := by
  have haddr' : addr < 16 ^ 8 := Nat.lt_of_lt_of_eq haddr (by decide)
  have hdigits := hexFixed_length 8 addr
  rw [writeCommand, hexPadded_of_lt (by decide) haddr']
  have hdrop8 : (['A', 'T', '+', 'C', 'G', 'S', 'N', '*'] ++ hexFixed 8 addr ++ hexBytes bytes
      ++ ['\r']).drop 8 = hexFixed 8 addr ++ (hexBytes bytes ++ ['\r']) := by
    rw [List.append_assoc, List.append_assoc]
    rfl
  have hdrop16 : (['A', 'T', '+', 'C', 'G', 'S', 'N', '*'] ++ hexFixed 8 addr ++ hexBytes bytes
      ++ ['\r']).drop 16 = hexBytes bytes ++ ['\r'] := by
    rw [← List.drop_drop (i := 8) (j := 8), hdrop8, List.drop_left' hdigits]
  rw [parseRequest, if_pos (by rw [List.append_assoc, List.append_assoc]; rfl), hdrop8, hdrop16,
    List.take_left' hdigits, hexNumber_hexFixed haddr', List.getLast?_concat, List.dropLast_concat,
    bytesOfHex_hexBytes]
  simp [hbytes]

/-- What the phone sees of a read command, whatever the width of the address. -/
theorem readCommand_drop_eight (addr size : Nat) :
    (readCommand addr size).drop 8 = hexPadded 8 addr ++ ([','] ++ hexPadded 8 size ++ ['\r']) := by
  rw [readCommand, List.append_assoc, List.append_assoc, List.append_assoc, List.append_assoc]
  rfl

theorem readCommand_take_eight (addr size : Nat) :
    (readCommand addr size).take 8 = ['A', 'T', '+', 'C', 'G', 'S', 'N', ':'] := by
  rw [readCommand, List.append_assoc, List.append_assoc, List.append_assoc]
  rfl

theorem parseRequest_readCommand {addr size : Nat} (haddr : addr < 2 ^ 32)
    (hsize : size < 2 ^ 32) :
    parseRequest (readCommand addr size) = some (.read addr size) := by
  have haddr' : addr < 16 ^ 8 := Nat.lt_of_lt_of_eq haddr (by decide)
  have hsize' : size < 16 ^ 8 := Nat.lt_of_lt_of_eq hsize (by decide)
  have hdrop8 := readCommand_drop_eight addr size
  rw [hexPadded_of_lt (by decide) haddr', hexPadded_of_lt (by decide) hsize'] at hdrop8
  have hdrop16 : (readCommand addr size).drop 16 = ',' :: (hexFixed 8 size ++ ['\r']) := by
    rw [← List.drop_drop (i := 8) (j := 8), hdrop8, List.drop_left' (hexFixed_length 8 addr)]
    rfl
  have hdrop17 : (readCommand addr size).drop 17 = hexFixed 8 size ++ ['\r'] := by
    rw [← List.drop_drop (i := 1) (j := 16), hdrop16]
    rfl
  have hdrop25 : (readCommand addr size).drop 25 = ['\r'] := by
    rw [← List.drop_drop (i := 8) (j := 17), hdrop17, List.drop_left' (hexFixed_length 8 size)]
  have hcomma : (readCommand addr size)[16]? = some ',' := by
    have := congrArg List.head? hdrop16
    rwa [List.head?_drop] at this
  rw [parseRequest, readCommand_take_eight, if_neg (by decide), if_pos rfl, hdrop8, hdrop17,
    hdrop25, hcomma, List.take_left' (hexFixed_length 8 addr),
    List.take_left' (hexFixed_length 8 size), hexNumber_hexFixed haddr', hexNumber_hexFixed hsize']
  rfl

/-- Behind the address space an address takes nine digits, and the command is not understood. -/
theorem parseRequest_readCommand_of_le {addr size : Nat} (h : 2 ^ 32 ≤ addr) :
    parseRequest (readCommand addr size) = none := by
  have hle : 16 ^ 8 ≤ addr := by
    rw [show (16 : Nat) ^ 8 = 2 ^ 32 by decide]
    exact h
  have hlong : 8 < (hexNat addr).length := hexNat_length hle
  have hpadded : hexPadded 8 addr = hexNat addr := hexPadded_of_le hle
  have hcomma : (readCommand addr size)[16]? ≠ some ',' := by
    have hat : (readCommand addr size)[16]? = (hexNat addr)[8]? := by
      have := congrArg (fun l => l[8]?) (readCommand_drop_eight addr size)
      rwa [List.getElem?_drop, hpadded, List.getElem?_append_left hlong] at this
    rw [hat]
    intro hc
    exact hexValue_of_mem_hexNat (List.mem_of_getElem? hc) (by decide)
  rw [parseRequest, readCommand_take_eight, if_neg (by decide), if_pos rfl]
  cases hexNumber (((readCommand addr size).drop 8).take 8) with
  | none => rfl
  | some addr' =>
      simp only [Option.bind_eq_bind, Option.bind_some, guard, if_neg hcomma]
      rfl

/-! ## One piece -/

variable {phone : Phone σ}

/-- A piece of a write is stored at the address, wherever it is in the data. -/
theorem exchange_write (hphone : phone.Executes) {addr : Nat} (haddr : addr < 2 ^ 32)
    (bytes : List UInt8) (hbytes : bytes.length ≤ 128) (s : σ) :
    ∃ s', exchange phone 1 (writeCommand addr bytes) ⟨s, []⟩ = (⟨.ok, [[0xA1]]⟩, ⟨s', []⟩) ∧
      phone.memory s' = (phone.memory s).writeBytes addr 0 bytes := by
  obtain ⟨hmemory, hflat⟩ := hphone.write s _ addr bytes (parseRequest_writeCommand haddr hbytes)
  refine ⟨_, ?_, hmemory⟩
  rw [exchange, List.nil_append]
  have hanswer := sendAt_binary (hphone.pieces s _) hflat
  rw [List.length_singleton] at hanswer
  rw [hanswer]

/-- A piece of a read, inside the address space. -/
theorem exchange_read (hphone : phone.Executes) {addr size : Nat} (haddr : addr < 2 ^ 32)
    (hsize : size < 2 ^ 32) (s : σ) :
    ∃ s', exchange phone (size + 1) (readCommand addr size) ⟨s, []⟩
        = (⟨.ok, [0xA1 :: (phone.memory s).readBytes addr 0 size]⟩, ⟨s', []⟩) ∧
      phone.memory s' = phone.memory s := by
  obtain ⟨hmemory, hflat⟩ := hphone.read s _ addr size (parseRequest_readCommand haddr hsize)
  refine ⟨_, ?_, hmemory⟩
  rw [exchange, List.nil_append]
  have hanswer := sendAt_binary (hphone.pieces s _) hflat
  rw [List.length_cons, Memory.readBytes_length] at hanswer
  rw [hanswer]

/-- A pass of the loop of `writeMemory`. -/
theorem writeChunks_step (hphone : phone.Executes) {addr : Nat} (haddr : addr < 2 ^ 32)
    {data : List UInt8} {offset : Nat} (h : offset < data.length) (s : σ) :
    ∃ s', writeChunks phone addr data offset ⟨s, []⟩
        = writeChunks phone addr data (offset + 128) ⟨s', []⟩ ∧
      phone.memory s'
        = (phone.memory s).writeBytes addr 0 ((data.drop offset).take 128) := by
  obtain ⟨s', hexchange, hmemory⟩ := exchange_write hphone haddr ((data.drop offset).take 128)
    (List.length_take_le _ _) s
  refine ⟨s', ?_, hmemory⟩
  rw [writeChunks, if_pos h, hexchange]
  rfl

theorem writeChunks_end {addr : Nat} {data : List UInt8} {offset : Nat} (h : data.length ≤ offset)
    (link : Link σ) : writeChunks phone addr data offset link = (true, link) := by
  rw [writeChunks, if_neg (by omega)]

/-- A pass of the loop of `readMemory`. -/
theorem readChunks_step (hphone : phone.Executes) {addr size offset : Nat} (out : List UInt8)
    (haddr : addr + offset < 2 ^ 32) (h : offset < size) (s : σ) :
    ∃ s', readChunks phone addr size offset out ⟨s, []⟩
        = readChunks phone addr size (offset + 128)
            (out ++ (phone.memory s).readBytes (addr + offset) 0 (min 128 (size - offset)))
            ⟨s', []⟩ ∧
      phone.memory s' = phone.memory s := by
  obtain ⟨s', hexchange, hmemory⟩ := exchange_read hphone haddr
    (show min 128 (size - offset) < 2 ^ 32 by omega) s
  refine ⟨s', ?_, hmemory⟩
  rw [readChunks, if_pos h]
  simp only [hexchange]
  rfl

theorem readChunks_end {addr size offset : Nat} (out : List UInt8) (h : size ≤ offset)
    (link : Link σ) : readChunks phone addr size offset out link = (some out, link) := by
  rw [readChunks, if_neg (by omega)]

/-- What is read so far stays in front. -/
theorem readChunks_prefix {addr size offset : Nat} {out result : List UInt8} {link link' : Link σ}
    (h : readChunks phone addr size offset out link = (some result, link')) : out <+: result := by
  induction hleft : size - offset using Nat.strongRecOn generalizing offset out link with
  | ind n ih =>
      rw [readChunks] at h
      by_cases hmore : offset < size
      · rw [if_pos hmore] at h
        simp only [] at h
        split_ifs at h
        · exact absurd (congrArg Prod.fst h) nofun
        · exact absurd (congrArg Prod.fst h) nofun
        · exact (List.prefix_append out _).trans (ih _ (by omega) h rfl)
      · rw [if_neg hmore] at h
        obtain rfl := Option.some.inj (congrArg Prod.fst h)
        exact List.prefix_refl _

/-! ## One piece of data -/

/-- **Up to 128 bytes come back as they were written**, whatever the phone's memory, the address and
the pieces in which the answers arrive. -/
theorem roundTrip_of_le (hphone : phone.Executes) (addr : UInt32) {data : List UInt8}
    (h : data.length ≤ 128) (s : σ) : RoundTrip phone addr data s := by
  rw [RoundTrip]
  rcases Nat.eq_zero_or_pos data.length with hnil | hpos
  · obtain rfl := List.length_eq_zero_iff.mp hnil
    rw [writeMemory, writeChunks_end hnil.le, readMemory, readChunks_end _ hnil.le]
    exact ⟨rfl, Memory.SameOutside.refl _ _ _⟩
  · obtain ⟨s₁, hwrite, hmemory₁⟩ := writeChunks_step hphone addr.toNat_lt hpos s
    rw [List.drop_zero, List.take_of_length_le h] at hmemory₁
    obtain ⟨s₂, hread, hmemory₂⟩ := readChunks_step hphone []
      (show addr.toNat + 0 < 2 ^ 32 from addr.toNat_lt) hpos s₁
    have hholds := Memory.holds_writeBytes (phone.memory s) addr.toNat data
      (Nat.le_trans h (by decide))
    rw [writeMemory, hwrite, writeChunks_end (by omega), readMemory, hread,
      readChunks_end _ (by omega), List.nil_append, Nat.add_zero, Nat.sub_zero,
      Nat.min_eq_right h, hmemory₁, hholds.readBytes_eq]
    refine ⟨rfl, ?_⟩
    rw [hmemory₂, hmemory₁]
    exact Memory.writeBytes_sameOutside data _ _ _ _ (by omega)

/-! ## More data -/

/-- The pieces of a write all go to the same 128 bytes. -/
theorem writeChunks_keeps (hphone : phone.Executes) {addr : Nat} (haddr : addr < 2 ^ 32)
    (data : List UInt8) (offset : Nat) (s : σ) :
    ∃ s', writeChunks phone addr data offset ⟨s, []⟩ = (true, ⟨s', []⟩) ∧
      Memory.SameOutside (phone.memory s) (phone.memory s') addr 128 := by
  induction hleft : data.length - offset using Nat.strongRecOn generalizing offset s with
  | ind n ih =>
      by_cases hmore : offset < data.length
      · obtain ⟨s₁, hstep, hmemory⟩ := writeChunks_step hphone haddr hmore s
        obtain ⟨s', hrest, hsame⟩ := ih _ (by omega) (offset + 128) s₁ rfl
        refine ⟨s', hstep.trans hrest, Memory.SameOutside.trans ?_ hsame⟩
        rw [hmemory]
        refine Memory.writeBytes_sameOutside _ _ _ _ _ ?_
        rw [Nat.zero_add]
        exact List.length_take_le _ _
      · exact ⟨s, writeChunks_end (by omega) _, Memory.SameOutside.refl _ _ _⟩

/-- A phone that is nothing but memory, answers in one piece, and says nothing to other commands. -/
def ramPhone : Phone Memory where
  memory := id
  answer := fun memory command =>
    match parseRequest command with
    | some (.write addr bytes) => (memory.writeBytes addr 0 bytes, [binaryReply [0xA1]])
    | some (.read addr size) => (memory, [binaryReply (0xA1 :: memory.readBytes addr 0 size)])
    | none => (memory, [])

theorem ramPhone_executes : ramPhone.Executes where
  pieces := by
    intro memory command piece hpiece
    simp only [ramPhone] at hpiece
    cases hrequest : parseRequest command with
    | none =>
        rw [hrequest] at hpiece
        cases hpiece
    | some request =>
        rw [hrequest] at hpiece
        cases request with
        | write addr bytes => rw [List.mem_singleton.mp hpiece]; exact List.cons_ne_nil _ _
        | read addr size => rw [List.mem_singleton.mp hpiece]; exact List.cons_ne_nil _ _
  write := by
    intro memory command addr bytes hrequest
    simp only [ramPhone, hrequest, List.flatten_cons, List.flatten_nil, List.append_nil, id,
      and_self]
  read := by
    intro memory command addr size hrequest
    simp only [ramPhone, hrequest, List.flatten_cons, List.flatten_nil, List.append_nil, id,
      and_self]

/-- The second piece of a read, past the end of the address space. -/
theorem readChunks_overflow {addr size offset : Nat} (out : List UInt8)
    (haddr : 2 ^ 32 ≤ addr + offset) (h : offset < size) (memory : Memory) :
    (readChunks ramPhone addr size offset out ⟨memory, []⟩).1 = none := by
  have hanswer : (exchange ramPhone (min 128 (size - offset) + 1)
      (readCommand (addr + offset) (min 128 (size - offset))) ⟨memory, []⟩).1.status
        = .timeout := by
    simp only [exchange, ramPhone, parseRequest_readCommand_of_le haddr, List.append_nil]
    exact sendAt_silent _
  rw [readChunks, if_pos h]
  simp only [hanswer]
  rfl

/-- Where the memory does not have the byte already, the second piece is not there. -/
theorem not_roundTrip (addr : UInt32) {data : List UInt8} {memory : Memory} {b : UInt8}
    (hbyte : data[128]? = some b) (hmemory : memory.read addr.toNat 128 ≠ b) :
    ¬ RoundTrip ramPhone addr data memory := by
  have hlength : 128 < data.length := (List.getElem?_eq_some_iff.mp hbyte).1
  rintro ⟨hdata, -⟩
  obtain ⟨m₁, hwrite, hsame⟩ :=
    writeChunks_keeps ramPhone_executes addr.toNat_lt data 0 memory
  obtain ⟨m₂, hfirst, hmemory₂⟩ := readChunks_step ramPhone_executes []
    (show addr.toNat + 0 < 2 ^ 32 from addr.toNat_lt) (show 0 < data.length by omega) m₁
  rw [writeMemory, hwrite, readMemory, hfirst] at hdata
  by_cases hin : addr.toNat + (0 + 128) < 2 ^ 32
  · obtain ⟨m₃, hsecond, -⟩ := readChunks_step ramPhone_executes
      ([] ++ (ramPhone.memory m₁).readBytes (addr.toNat + 0) 0 (min 128 (data.length - 0))) hin
      (show 0 + 128 < data.length by omega) m₂
    rw [hsecond] at hdata
    -- the byte that is read is the one that was there before
    obtain ⟨rest, hrest⟩ := readChunks_prefix (Prod.ext hdata rfl)
    have hkept : m₂.read (addr.toNat + (0 + 128)) 0 = memory.read addr.toNat 128 := by
      have hread := hsame (address addr.toNat 128) (by
        rintro ⟨i, hi, haddress⟩
        have := address_inj (by decide) (Nat.lt_trans hi (by decide)) haddress
        omega)
      have hm₂ : m₂ = m₁ := hmemory₂
      rw [hm₂, Memory.read, Memory.address_add]
      exact hread
    have hread : data[128]? = some (memory.read addr.toNat 128) := by
      have hfirstLength : ([] ++ (ramPhone.memory m₁).readBytes (addr.toNat + 0) 0
          (min 128 (data.length - 0))).length = 128 := by
        rw [List.nil_append, Memory.readBytes_length]
        omega
      obtain ⟨k, hk⟩ := Nat.exists_eq_add_of_lt (show 0 < min 128 (data.length - (0 + 128)) by omega)
      rw [← hrest, List.append_assoc, List.getElem?_append_right (by omega), hfirstLength, hk,
        Nat.zero_add, Nat.sub_self, Memory.readBytes, List.range_succ_eq_map, ← hkept]
      rfl
    rw [hbyte] at hread
    exact hmemory (Option.some.inj hread).symm
  · -- the address of the second piece does not fit the command
    have hnone := readChunks_overflow ([] ++ (ramPhone.memory m₁).readBytes (addr.toNat + 0) 0
      (min 128 (data.length - 0))) (show 2 ^ 32 ≤ addr.toNat + (0 + 128) by omega)
      (show 0 + 128 < data.length by omega) m₂
    rw [hnone] at hdata
    cases hdata

/-- **Data come back for every phone exactly if they are one piece.** Of longer data `writeMemory`
stores every piece at the address of the first, and for some memory the bytes behind it are not
those of the data. -/
theorem roundTrip_iff (addr : UInt32) (data : List UInt8) :
    (∀ (σ : Type) (phone : Phone σ) (s : σ), phone.Executes → RoundTrip phone addr data s) ↔
      data.length ≤ 128 := by
  constructor
  · intro hall
    by_contra hlong
    obtain ⟨b, hbyte⟩ : ∃ b, data[128]? = some b :=
      ⟨data[128], List.getElem?_eq_getElem (by omega)⟩
    have hother : (if b = 0 then 1 else 0) ≠ b := by
      split_ifs with hzero
      · rw [hzero]
        decide
      · exact Ne.symm hzero
    exact @not_roundTrip addr data (fun _ => if b = 0 then 1 else 0) b hbyte hother
      (hall Memory ramPhone _ ramPhone_executes)
  · exact fun h σ phone s hphone => roundTrip_of_le hphone addr h s

/-- 129 bytes over a memory of zeros. -/
theorem roundTrip_counterexample :
    ramPhone.Executes ∧
      ¬ RoundTrip ramPhone 0xA8000000 (List.replicate 129 0x55) (fun _ => 0) :=
  ⟨ramPhone_executes, not_roundTrip 0xA8000000 (show (List.replicate 129 0x55)[128]? = some 0x55 by
    rw [List.getElem?_replicate, if_pos (by decide)]) (by decide)⟩

end Pmb887x.Sie
