import Pmb887x.IoBridge.Replies

set_option autoImplicit false

/-! # Accesses to a memory

Behind the bridge may be plain memory. A command for one, two or four bytes then stores and loads just these.
The one for three bytes is made of two accesses that both start at the address. -/

namespace Pmb887x.IoBridge

open Library Library.Prog Library.Config

/-- A byte at each address. -/
abbrev ByteMemory := UInt32 → UInt8

def setByte (addr : UInt32) (value : UInt8) (m : ByteMemory) : ByteMemory :=
  fun a => if a = addr then value else m a

/-- A little-endian memory without registers. -/
def plainMemory : Bus ByteMemory where
  reg addr m := (beWord (m (addr + 1 + 1 + 1)) (m (addr + 1 + 1)) (m (addr + 1)) (m addr), m)
  regShort addr m := ((m addr).toUInt16 ||| (m (addr + 1)).toUInt16 <<< 8, m)
  regByte addr m := (m addr, m)
  setReg addr value m :=
    setByte addr value.toUInt8 (setByte (addr + 1) (value >>> 8).toUInt8
      (setByte (addr + 1 + 1) (value >>> 16).toUInt8 (setByte (addr + 1 + 1 + 1) (value >>> 24).toUInt8 m)))
  setRegShort addr value m := setByte addr value.toUInt8 (setByte (addr + 1) (value >>> 8).toUInt8 m)
  setRegByte addr value m := setByte addr value m

/-! ## Consecutive bytes -/

/-- The memory with some bytes at consecutive addresses. -/
def stored (addr : UInt32) (bytes : List UInt8) (m : ByteMemory) : ByteMemory :=
  fun a => bytes.getD (a - addr).toNat (m a)

/-- The bytes at consecutive addresses. -/
def loaded (addr : UInt32) : Nat → ByteMemory → List UInt8
  | 0, _ => []
  | size + 1, m => m addr :: loaded (addr + 1) size m

theorem stored_nil (addr : UInt32) (m : ByteMemory) : stored addr [] m = m := rfl

theorem toNat_sub_succ {a addr : UInt32} (h : a ≠ addr) : (a - addr).toNat = (a - (addr + 1)).toNat + 1 := by
  have hne : a.toNat ≠ addr.toNat := fun heq => h (UInt32.toNat_inj.mp heq)
  have ha := a.toNat_lt
  have haddr := addr.toNat_lt
  have hone : (1 : UInt32).toNat = 1 := rfl
  rw [UInt32.toNat_sub, UInt32.toNat_sub, UInt32.toNat_add, hone]
  omega

theorem stored_cons (addr : UInt32) (value : UInt8) (bytes : List UInt8) (m : ByteMemory) :
    stored addr (value :: bytes) m = setByte addr value (stored (addr + 1) bytes m) := by
  funext a
  rw [setByte]
  split_ifs with ha
  · rw [stored, ha, UInt32.sub_self]
    rfl
  · rw [stored, toNat_sub_succ ha, List.getD_cons_succ]
    rfl

/-! ## The bytes of a value -/

theorem ofNat_div (value : UInt32) {k : UInt32} (hk : k.toNat ≤ 24) :
    UInt8.ofNat (value.toNat / 2 ^ k.toNat) = (value >>> k).toUInt8 := by
  apply UInt8.toNat_inj.mp
  rw [UInt8.toNat_ofNat', UInt32.toNat_toUInt8, UInt32.toNat_shiftRight, Nat.mod_eq_of_lt (a := k.toNat) (by omega),
    Nat.shiftRight_eq_div_pow]

/-- The bytes of a value, the lowest first. -/
theorem leBytes_four (value : UInt32) :
    leBytes 4 value.toNat
      = [value.toUInt8, (value >>> 8).toUInt8, (value >>> 16).toUInt8, (value >>> 24).toUInt8] := by
  rw [← ofNat_div value (k := 8) (by decide), ← ofNat_div value (k := 16) (by decide),
    ← ofNat_div value (k := 24) (by decide)]
  simp only [leBytes, Nat.div_div_eq_div_mul]
  rfl

theorem leBytes_three (value : UInt32) :
    leBytes 3 value.toNat = [value.toUInt8, (value >>> 8).toUInt8, (value >>> 16).toUInt8] := by
  rw [← take_leBytes (show 3 ≤ 4 by decide), leBytes_four]
  rfl

theorem leBytes_two (value : UInt32) : leBytes 2 value.toNat = [value.toUInt8, (value >>> 8).toUInt8] := by
  rw [← take_leBytes (show 2 ≤ 4 by decide), leBytes_four]
  rfl

theorem leBytes_one (value : UInt32) : leBytes 1 value.toNat = [value.toUInt8] := by
  rw [← take_leBytes (show 1 ≤ 4 by decide), leBytes_four]
  rfl

theorem toUInt16_toUInt8 (value : UInt32) : value.toUInt16.toUInt8 = value.toUInt8 := by
  apply UInt8.toNat_inj.mp
  rw [UInt16.toNat_toUInt8, UInt32.toNat_toUInt16, UInt32.toNat_toUInt8]
  omega

theorem toUInt16_shiftRight_toUInt8 (value : UInt32) : (value.toUInt16 >>> 8).toUInt8 = (value >>> 8).toUInt8 := by
  apply UInt8.toNat_inj.mp
  rw [UInt16.toNat_toUInt8, UInt16.toNat_shiftRight, UInt32.toNat_toUInt16, UInt32.toNat_toUInt8,
    UInt32.toNat_shiftRight]
  change (value.toNat % 2 ^ 16) >>> 8 % 2 ^ 8 = value.toNat >>> 8 % 2 ^ 8
  rw [Nat.shiftRight_eq_div_pow, Nat.shiftRight_eq_div_pow]
  omega

theorem setByte_comm {a b : UInt32} (h : a ≠ b) (x y : UInt8) (m : ByteMemory) :
    setByte a x (setByte b y m) = setByte b y (setByte a x m) := by
  funext c
  simp only [setByte]
  split_ifs with ha hb hb
  · exact absurd (ha.symm.trans hb) h
  · rfl
  · rfl
  · rfl

theorem setByte_setByte (a : UInt32) (x y : UInt8) (m : ByteMemory) :
    setByte a x (setByte a y m) = setByte a x m := by
  funext c
  simp only [setByte]
  split_ifs <;> rfl

/-! ## The accesses -/

theorem writeAccess_four (addr value : UInt32) (m : ByteMemory) :
    writeAccess plainMemory (writeLetter 4) addr value m = stored addr (leBytes 4 value.toNat) m := by
  rw [leBytes_four, stored_cons, stored_cons, stored_cons, stored_cons, stored_nil]
  rfl

theorem setRegShort_stored (addr value : UInt32) (m : ByteMemory) :
    plainMemory.setRegShort addr value.toUInt16 m = stored addr [value.toUInt8, (value >>> 8).toUInt8] m := by
  rw [stored_cons, stored_cons, stored_nil, ← toUInt16_toUInt8, ← toUInt16_shiftRight_toUInt8]
  rfl

theorem writeAccess_two (addr value : UInt32) (m : ByteMemory) :
    writeAccess plainMemory (writeLetter 2) addr value m = stored addr (leBytes 2 value.toNat) m := by
  rw [leBytes_two]
  exact setRegShort_stored addr value m

theorem writeAccess_one (addr value : UInt32) (m : ByteMemory) :
    writeAccess plainMemory (writeLetter 1) addr value m = stored addr (leBytes 1 value.toNat) m := by
  rw [leBytes_one, stored_cons, stored_nil]
  rfl

theorem shiftRight_shiftRight (value : UInt32) : value >>> 8 >>> 8 = value >>> 16 := by
  apply UInt32.toNat_inj.mp
  simp only [UInt32.toNat_shiftRight]
  change value.toNat >>> 8 >>> 8 = value.toNat >>> 16
  rw [← Nat.shiftRight_add]

theorem succ_ne (addr : UInt32) : addr + 1 ≠ addr := by
  intro h
  have hnat := congrArg UInt32.toNat h
  have haddr := addr.toNat_lt
  have hone : (1 : UInt32).toNat = 1 := rfl
  rw [UInt32.toNat_add, hone] at hnat
  omega

/-- Three bytes: the second access starts where the first did, so the lowest byte is gone. -/
theorem writeAccess_three (addr value : UInt32) (m : ByteMemory) :
    writeAccess plainMemory (writeLetter 3) addr value m
      = stored addr [(value >>> 8).toUInt8, (value >>> 16).toUInt8] m := by
  change plainMemory.setRegShort addr (value >>> 8).toUInt16 (setByte addr value.toUInt8 m) = _
  rw [setRegShort_stored, shiftRight_shiftRight, stored_cons, stored_cons, stored_nil, stored_cons, stored_cons,
    stored_nil, setByte_comm (succ_ne addr), setByte_setByte]

/-! ### Reading -/

theorem toNat_ofLeBytes (bytes : List UInt8) (h : bytes.length ≤ 4) :
    (UInt32.ofNat (ofLeBytes bytes)).toNat = ofLeBytes bytes := by
  rw [UInt32.toNat_ofNat', Nat.mod_eq_of_lt (ofLeBytes_lt_two_pow h)]

theorem ofLeBytes_four (a b c d : UInt8) : beWord d c b a = UInt32.ofNat (ofLeBytes [a, b, c, d]) := by
  apply UInt32.toNat_inj.mp
  rw [beWord_toNat, toNat_ofLeBytes [a, b, c, d] (Nat.le_refl 4)]
  simp only [ofLeBytes]
  omega

theorem toNat_short (a b : UInt8) : (a.toUInt16 ||| b.toUInt16 <<< 8).toUInt32.toNat = a.toNat + 2 ^ 8 * b.toNat := by
  have hb := b.toNat_lt
  rw [UInt16.toNat_toUInt32, UInt16.toNat_or, UInt16.toNat_shiftLeft, UInt8.toNat_toUInt16, UInt8.toNat_toUInt16]
  change a.toNat ||| (b.toNat <<< 8) % 2 ^ 16 = _
  rw [Nat.mod_eq_of_lt (by rw [Nat.shiftLeft_eq]; omega), or_shiftLeft a.toNat_lt]

theorem readAccess_four (addr : UInt32) (m : ByteMemory) :
    readAccess plainMemory (readLetter 4) addr m = (UInt32.ofNat (ofLeBytes (loaded addr 4 m)), m) :=
  congrArg (fun value => (value, m)) (ofLeBytes_four _ _ _ _)

theorem readAccess_two (addr : UInt32) (m : ByteMemory) :
    readAccess plainMemory (readLetter 2) addr m = (UInt32.ofNat (ofLeBytes (loaded addr 2 m)), m) := by
  refine congrArg (fun value => (value, m)) (UInt32.toNat_inj.mp ?_)
  rw [toNat_ofLeBytes (loaded addr 2 m) (show 2 ≤ 4 by decide)]
  exact toNat_short _ _

theorem readAccess_one (addr : UInt32) (m : ByteMemory) :
    readAccess plainMemory (readLetter 1) addr m = (UInt32.ofNat (ofLeBytes (loaded addr 1 m)), m) := by
  refine congrArg (fun value => (value, m)) (UInt32.toNat_inj.mp ?_)
  rw [toNat_ofLeBytes (loaded addr 1 m) (show 1 ≤ 4 by decide)]
  rfl

/-- Three bytes: the lowest is read twice, the highest not at all. -/
theorem readAccess_three (addr : UInt32) (m : ByteMemory) :
    readAccess plainMemory (readLetter 3) addr m
      = (UInt32.ofNat (ofLeBytes [m addr, m addr, m (addr + 1)]), m) := by
  refine congrArg (fun value => (value, m)) (UInt32.toNat_inj.mp ?_)
  have hlow := (m addr).toNat_lt
  have hhigh := (m (addr + 1)).toNat_lt
  rw [toNat_ofLeBytes [m addr, m addr, m (addr + 1)] (show 3 ≤ 4 by decide)]
  change (((m addr).toUInt16 ||| (m (addr + 1)).toUInt16 <<< 8).toUInt32 <<< 8 ||| (m addr).toUInt32).toNat = _
  rw [UInt32.toNat_or, UInt32.toNat_shiftLeft, toNat_short, UInt8.toNat_toUInt32]
  change ((m addr).toNat + 2 ^ 8 * (m (addr + 1)).toNat) <<< 8 % 2 ^ 32 ||| (m addr).toNat = _
  rw [Nat.mod_eq_of_lt (by rw [Nat.shiftLeft_eq]; omega), Nat.or_comm, or_shiftLeft hlow]
  simp only [ofLeBytes]
  omega

/-! ## One command -/

/-- An address that the bridge passes on as it is. -/
structure Plain (cpu : Cpu) (addr : UInt32) : Prop where
  noAddress : addr ≠ noAddress
  vicIrqCurrent : addr ≠ vicIrqCurrent
  vicIrqAck : addr ≠ vicIrqAck
  cguStat : addr ≠ cguStat
  i2cClc : addr ≠ i2cClc cpu
  difTb : cpu = .pmb8875 → addr ≠ difTb

variable {cpu : Cpu} {addr : UInt32}

theorem readValue_plain (h : Plain cpu addr) (c : UInt8) (d : Device ByteMemory) :
    readValue plainMemory c addr d
      = ((readAccess plainMemory c addr d.bus).1, { d with bus := (readAccess plainMemory c addr d.bus).2 }) := by
  simp only [readValue, if_neg h.vicIrqCurrent, if_neg h.noAddress, if_neg h.cguStat]

theorem replacedValue_plain (h : Plain cpu addr) (value : UInt32) (d : Device ByteMemory) :
    replacedValue cpu addr value d = (value, d) := by
  cases cpu with
  | pmb8875 =>
      have hclc : ¬ (addr = i2cClc .pmb8875 ∧ value &&& modClcRmc ≠ 0) := fun hand => h.i2cClc hand.1
      have htb : ¬ (addr = difTb ∧ value = 0x1FF0) := fun hand => h.difTb rfl hand.1
      simp only [replacedValue, if_neg hclc, if_neg htb]
  | pmb8876 => simp only [replacedValue, if_neg h.i2cClc]

theorem writeValue_plain (h : Plain cpu addr) (c : UInt8) (value : UInt32) (irq : Bool) (d : Device ByteMemory) :
    writeValue cpu plainMemory c addr value irq d
      = { d with bus := writeAccess plainMemory c addr value d.bus } := by
  have hack : ¬ (irq = true ∧ addr = vicIrqAck) := fun hand => h.vicIrqAck hand.2
  simp only [writeValue, replacedValue_plain h, if_neg h.noAddress, if_neg hack]

section Exchanges

variable (irq : Bool) (d : Device ByteMemory) (socket : IrqSocket) (size : Nat)

theorem exchange_write (h : Plain cpu addr) (value : UInt32) :
    ∃ result, Exchange (cmdWriteUnaligned addr size value socket) (commandHandler cpu plainMemory irq d)
      (.ok (), afterReply irq d.currentIrq socket)
      (.returned result { d with bus := writeAccess plainMemory (writeLetter size) addr value d.bus }) := by
  obtain ⟨k, hk, hreply⟩ := exists_cmdWrite addr size value socket
  have hrun := replies_write cpu plainMemory irq d (isWrite_writeLetter size) addr value
  rw [writeValue_plain h] at hrun
  rw [hk]
  exact ⟨_, exchange_of_runs (hreply irq d.currentIrq) hrun.runs⟩

theorem exchange_read (h : Plain cpu addr) :
    Exchange (cmdReadUnaligned addr size socket) (commandHandler cpu plainMemory irq d)
      (.ok (readAccess plainMemory (readLetter size) addr d.bus).1, afterReply irq d.currentIrq socket)
      (.returned 1 { d with bus := (readAccess plainMemory (readLetter size) addr d.bus).2 }) := by
  obtain ⟨k, hk, hreply⟩ := exists_cmdRead addr size socket
  have hrun := replies_read cpu plainMemory irq d (isRead_readLetter size) addr
  rw [readValue_plain h] at hrun
  rw [hk]
  exact exchange_of_runs (hreply _ irq d.currentIrq) hrun.runs

end Exchanges

/-! ## All sizes -/

/-- What commands of a size are to do at an address, in every run of host and phone: a write stores the lowest
bytes of the value there and changes no other byte, a read returns the bytes that are there, and one after the
other returns the value as far as it fits. -/
structure Accesses (cpu : Cpu) (irq : Bool) (d : Device ByteMemory) (socket : IrqSocket) (addr : UInt32) (size : Nat)
    (value : UInt32) : Prop where
  writes : ∃ socket' result,
    Exchange (cmdWriteUnaligned addr size value socket) (commandHandler cpu plainMemory irq d) (.ok (), socket')
      (.returned result { d with bus := stored addr (leBytes size value.toNat) d.bus })
  reads : ∃ socket' result,
    Exchange (cmdReadUnaligned addr size socket) (commandHandler cpu plainMemory irq d)
      (.ok (UInt32.ofNat (ofLeBytes (loaded addr size d.bus))), socket') (.returned result d)
  readsBack : ∀ socket' result d',
    Exchange (cmdWriteUnaligned addr size value socket) (commandHandler cpu plainMemory irq d) (.ok (), socket')
      (.returned result d') →
    ∃ socket'' result', Exchange (cmdReadUnaligned addr size socket') (commandHandler cpu plainMemory irq d')
      (.ok (UInt32.ofNat (value.toNat % 256 ^ size)), socket'') (.returned result' d')

theorem loaded_setByte {a addr : UInt32} {size : Nat} (h : size ≤ (a - addr).toNat) (value : UInt8) (m : ByteMemory) :
    loaded addr size (setByte a value m) = loaded addr size m := by
  induction size generalizing addr with
  | zero => rfl
  | succ size ih =>
      have hne : a ≠ addr := by
        rintro rfl
        rw [UInt32.sub_self] at h
        exact Nat.not_succ_le_zero _ h
      rw [toNat_sub_succ hne] at h
      rw [loaded, loaded, ih (Nat.le_of_succ_le_succ h), setByte, if_neg (Ne.symm hne)]

/-- What was stored is loaded again. -/
theorem loaded_stored (addr : UInt32) (bytes : List UInt8) (m : ByteMemory) (h : bytes.length < 2 ^ 32) :
    loaded addr bytes.length (stored addr bytes m) = bytes := by
  induction bytes generalizing addr with
  | nil => rfl
  | cons value bytes ih =>
      have hlength : bytes.length ≤ (addr - (addr + 1)).toNat := by
        have haddr := addr.toNat_lt
        have hone : (1 : UInt32).toNat = 1 := rfl
        rw [UInt32.toNat_sub, UInt32.toNat_add, hone]
        rw [List.length_cons] at h
        omega
      have htail := ih (addr + 1) (Nat.lt_of_succ_lt h)
      rw [List.length_cons, loaded, stored_cons, loaded_setByte hlength, htail, setByte, if_pos rfl]

theorem loaded_stored_leBytes (addr : UInt32) {size : Nat} (h : size ≤ 4) (n : Nat) (m : ByteMemory) :
    loaded addr size (stored addr (leBytes size n) m) = leBytes size n := by
  have hload := loaded_stored addr (leBytes size n) m (by rw [leBytes_length]; omega)
  rwa [leBytes_length] at hload

/-- It is enough that the accesses are right. -/
theorem accesses_of (h : Plain cpu addr) (irq : Bool) (d : Device ByteMemory) (socket : IrqSocket) {size : Nat}
    (hsize : size ≤ 4) {value : UInt32}
    (hwrite : writeAccess plainMemory (writeLetter size) addr value d.bus
      = stored addr (leBytes size value.toNat) d.bus)
    (hread : ∀ m, m = d.bus ∨ m = stored addr (leBytes size value.toNat) d.bus →
      readAccess plainMemory (readLetter size) addr m = (UInt32.ofNat (ofLeBytes (loaded addr size m)), m)) :
    Accesses cpu irq d socket addr size value := by
  refine ⟨?_, ?_, fun socket' result d' hd' => ?_⟩
  · obtain ⟨result, hexchange⟩ := exchange_write irq d socket size h value
    rw [hwrite] at hexchange
    exact ⟨_, result, hexchange⟩
  · have hexchange := exchange_read irq d socket size h
    rw [hread d.bus (.inl rfl)] at hexchange
    exact ⟨_, 1, hexchange⟩
  · obtain ⟨result', hexchange⟩ := exchange_write irq d socket size h value
    obtain ⟨-, hdevice⟩ := hexchange.unique hd'
    obtain ⟨-, rfl⟩ := HandlerEnd.returned.inj hdevice
    have hexchange' := exchange_read irq
      { d with bus := writeAccess plainMemory (writeLetter size) addr value d.bus } socket' size h
    rw [hwrite] at hexchange' ⊢
    rw [hread _ (.inr rfl), loaded_stored_leBytes addr hsize, ofLeBytes_leBytes] at hexchange'
    exact ⟨_, 1, hexchange'⟩

/-- The bytes of the value that are to be stored and those in the memory are all the same. -/
def AllSame (addr value : UInt32) (m : ByteMemory) : Prop :=
  ∀ byte ∈ leBytes 3 value.toNat ++ loaded addr 3 m, byte = m addr

theorem setByte_self {m : ByteMemory} {value : UInt8} (h : m addr = value) : setByte addr value m = m := by
  funext a
  rw [setByte]
  split_ifs with ha
  · rw [ha, h]
  · rfl

theorem accesses_three (h : Plain cpu addr) (irq : Bool) (d : Device ByteMemory) (socket : IrqSocket)
    {value : UInt32} (hsame : AllSame addr value d.bus) : Accesses cpu irq d socket addr 3 value := by
  have hvalue : leBytes 3 value.toNat = List.replicate 3 (d.bus addr) :=
    List.eq_replicate_iff.mpr ⟨leBytes_length 3 _, fun byte hbyte => hsame byte (List.mem_append_left _ hbyte)⟩
  have hmemory : loaded addr 3 d.bus = List.replicate 3 (d.bus addr) :=
    List.eq_replicate_iff.mpr ⟨rfl, fun byte hbyte => hsame byte (List.mem_append_right _ hbyte)⟩
  refine accesses_of h irq d socket (by decide) ?_ fun m hm => ?_
  · obtain ⟨-, hb, hrest⟩ := List.cons_eq_cons.mp ((leBytes_three value).symm.trans hvalue) |>.imp_right
      List.cons.inj
    obtain ⟨hb', -⟩ := List.cons.inj hrest
    have hlast : d.bus (addr + 1 + 1) = d.bus addr := (List.cons.inj (List.cons.inj (List.cons.inj hmemory).2).2).1
    rw [writeAccess_three, hb, hb', hvalue]
    simp only [List.replicate, stored_cons, stored_nil, setByte_self hlast]
  · have hload : loaded addr 3 m = List.replicate 3 (d.bus addr) := by
      rcases hm with rfl | rfl
      · exact hmemory
      · rw [loaded_stored_leBytes addr (by decide), hvalue]
    obtain ⟨hfirst, hrest⟩ := List.cons.inj hload
    obtain ⟨hsecond, -⟩ := List.cons.inj hrest
    rw [readAccess_three, hload, hfirst, hsecond]
    rfl

theorem loaded_three_stored_two (addr : UInt32) (a b : UInt8) (m : ByteMemory) :
    loaded addr 3 (stored addr [a, b] m) = [a, b, m (addr + 1 + 1)] := by
  obtain ⟨hfirst, hrest⟩ := List.cons.inj (loaded_stored addr [a, b] m (show 2 < 2 ^ 32 by decide))
  obtain ⟨hsecond, -⟩ := List.cons.inj hrest
  have hne : addr + 1 + 1 ≠ addr := by
    intro heq
    have hnat := congrArg UInt32.toNat heq
    have haddr := addr.toNat_lt
    have hone : (1 : UInt32).toNat = 1 := rfl
    rw [UInt32.toNat_add, UInt32.toNat_add, hone] at hnat
    omega
  have hthird : stored addr [a, b] m (addr + 1 + 1) = m (addr + 1 + 1) := by
    rw [stored_cons, stored_cons, stored_nil, setByte, if_neg hne, setByte, if_neg (succ_ne (addr + 1))]
  rw [loaded, loaded, loaded, loaded, hfirst, hsecond, hthird]

/-- What three bytes have to be for the write to be right. -/
theorem allSame_of_accesses (h : Plain cpu addr) {irq : Bool} {d : Device ByteMemory} {socket : IrqSocket}
    {value : UInt32} (haccesses : Accesses cpu irq d socket addr 3 value) : AllSame addr value d.bus := by
  obtain ⟨_, result, hwrite⟩ := haccesses.writes
  obtain ⟨_, _, hread⟩ := haccesses.reads
  obtain ⟨result', hwrite'⟩ := exchange_write irq d socket 3 h value
  have hread' := exchange_read irq d socket 3 h
  -- the memory of the write, byte by byte
  have hmemory : stored addr [(value >>> 8).toUInt8, (value >>> 16).toUInt8] d.bus
      = stored addr (leBytes 3 value.toNat) d.bus := by
    obtain ⟨-, hdevice⟩ := hwrite'.unique hwrite
    obtain ⟨-, hdevice⟩ := HandlerEnd.returned.inj hdevice
    rw [← writeAccess_three]
    exact (Device.mk.inj hdevice).1
  -- the bytes of the read
  have hbytes : [d.bus addr, d.bus addr, d.bus (addr + 1)] = loaded addr 3 d.bus := by
    obtain ⟨hhost, -⟩ := hread'.unique hread
    have hvalue := Except.ok.inj (Prod.mk.inj hhost).1
    rw [readAccess_three] at hvalue
    have hnat := congrArg UInt32.toNat hvalue
    rw [toNat_ofLeBytes [_, _, _] (show 3 ≤ 4 by decide), toNat_ofLeBytes (loaded addr 3 _) (show 3 ≤ 4 by decide)]
      at hnat
    exact ofLeBytes_inj rfl hnat
  have hstored := congrArg (loaded addr 3) hmemory
  rw [loaded_stored_leBytes addr (by decide), leBytes_three, loaded_three_stored_two] at hstored
  obtain ⟨hb, hrest⟩ := List.cons.inj hstored
  obtain ⟨hb', hrest⟩ := List.cons.inj hrest
  obtain ⟨hb'', -⟩ := List.cons.inj hrest
  obtain ⟨-, hrest⟩ := List.cons.inj hbytes
  obtain ⟨hm, hrest⟩ := List.cons.inj hrest
  obtain ⟨hm', -⟩ := List.cons.inj hrest
  rw [AllSame, leBytes_three, ← hbytes, ← hb, ← hb', ← hb'', ← hm', ← hm]
  intro byte hbyte
  simp only [List.cons_append, List.nil_append, List.mem_cons, List.not_mem_nil, or_false, or_self] at hbyte
  exact hbyte

/-- **When the bytes are right**: any size but three, or three bytes that are all the same. -/
theorem accesses_iff (h : Plain cpu addr) (irq : Bool) (d : Device ByteMemory) (socket : IrqSocket) {size : Nat}
    (hsize : 1 ≤ size ∧ size ≤ 4) (value : UInt32) :
    Accesses cpu irq d socket addr size value ↔ size ≠ 3 ∨ AllSame addr value d.bus := by
  obtain ⟨hlow, hhigh⟩ := hsize
  constructor
  · intro haccesses
    by_cases hthree : size = 3
    · subst hthree
      exact .inr (allSame_of_accesses h haccesses)
    · exact .inl hthree
  · intro hcondition
    by_cases hthree : size = 3
    · subst hthree
      exact accesses_three h irq d socket (hcondition.resolve_left (fun hne => hne rfl))
    · have hsizes : size = 1 ∨ size = 2 ∨ size = 4 := by omega
      rcases hsizes with rfl | rfl | rfl
      · exact accesses_of h irq d socket hhigh (writeAccess_one addr value _) fun m _ => readAccess_one addr m
      · exact accesses_of h irq d socket hhigh (writeAccess_two addr value _) fun m _ => readAccess_two addr m
      · exact accesses_of h irq d socket hhigh (writeAccess_four addr value _) fun m _ => readAccess_four addr m

/-- A phone whose memory has zeros. -/
def zeroDevice : Device ByteMemory where
  bus := fun _ => 0
  currentIrq := 0
  i := 0

theorem plain_ram : Plain .pmb8876 0xA8000000 :=
  ⟨by decide, by decide, by decide, by decide, by decide, fun hcpu => by cases hcpu⟩

theorem accesses_iff_two :
    Plain .pmb8876 0xA8000000 ∧ (1 ≤ 2 ∧ 2 ≤ 4) ∧
      (Accesses .pmb8876 false zeroDevice ⟨-1, []⟩ 0xA8000000 2 0x12345678
        ↔ 2 ≠ 3 ∨ AllSame 0xA8000000 0x12345678 zeroDevice.bus) :=
  ⟨plain_ram, by decide, accesses_iff plain_ram false zeroDevice ⟨-1, []⟩ (by decide) 0x12345678⟩

/-- The bytes 1, 2, 3 are not written. -/
theorem three_not_accesses : ¬ Accesses .pmb8876 false zeroDevice ⟨-1, []⟩ 0xA8000000 3 0x030201 := by
  intro haccesses
  have hsame := allSame_of_accesses plain_ram haccesses
  have hbyte : (1 : UInt8) = 0 := hsame 1 (List.mem_append_left _ (by decide))
  exact absurd hbyte (by decide)

end Pmb887x.IoBridge
