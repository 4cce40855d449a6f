import Pmb887x.I2c.Buffers

set_option autoImplicit false

/-! # The event-driven I2C driver (`lib/i2c-v1.c`)

The controller takes a word of one to four bytes, the count in the field `CI` of `SYSCON`, sends it
and raises `IRQD`; `IRQE` ends the transfer and `LRB` is the acknowledge bit, 1 for a NACK. The
driver looks at one `SYSCON` value a pass, which may show several of the flags.

`transferWait` runs until the stop watch has passed 100 ms. How long that is in passes is up to the
hardware, so the number of passes is a parameter; what a statement says of all of them it also says
of every beginning of a call that never comes back. -/

namespace Pmb887x.I2c.V1

open Library

/-- The registers the driver uses. -/
inductive Register where
  | syscon
  | rtb
  | whbsyscon
  deriving DecidableEq

/-! ## Register fields -/

/-- `I2C_SYSCON_LRB`, last received bit -/
def sysconLRB : UInt32 := bit 3

/-- `I2C_SYSCON_IRQD`, data transfer event -/
def sysconIRQD : UInt32 := bit 5

/-- `I2C_SYSCON_IRQP`, protocol event -/
def sysconIRQP : UInt32 := bit 6

/-- `I2C_SYSCON_IRQE`, end of the data transmission -/
def sysconIRQE : UInt32 := bit 7

/-- `I2C_SYSCON_CO`, bytes transmitted since the last data interrupt -/
def sysconCO : UInt32 := (7 : UInt32) <<< 8

/-- `I2C_SYSCON_MOD_MASTER` -/
def sysconMODMASTER : UInt32 := 0x80000

/-- `I2C_SYSCON_INT`, interrupt delete select -/
def sysconINT : UInt32 := bit 22

/-- `I2C_SYSCON_CI`, length of the receive and transmit buffer, less one -/
def sysconCI : UInt32 := (3 : UInt32) <<< 26

def whbsysconCLRIRQP : UInt32 := bit 6
def whbsysconCLRBUM : UInt32 := bit 19
def whbsysconSETBUM : UInt32 := bit 20
def whbsysconSETACKDIS : UInt32 := bit 22
def whbsysconCLRTRX : UInt32 := bit 23
def whbsysconSETSTP : UInt32 := bit 26

/-- `I2C_CLEAR_STATE`: `CLRAL`, `CLRIRQD`, `CLRIRQP`, `CLRIRQE`, `CLRRSC`, `CLRBUM`, `CLRACKDIS`,
`CLRTRX`, `CLRSTP` -/
def clearState : UInt32 :=
  bit 1 ||| bit 5 ||| whbsysconCLRIRQP ||| bit 7 ||| bit 16 ||| whbsysconCLRBUM ||| bit 21
    ||| whbsysconCLRTRX ||| bit 25

/-! ## The driver -/

/-- `struct i2c_transfer`; `prefixAt` is its pointer `prefix`. -/
structure Transfer where
  prefixAt : Nat
  tx : Nat
  rx : Nat
  prefixRemaining : Nat
  remaining : Nat
  addressSent : Bool
  stopRequested : Bool

def bufferSizeSet (size : Nat) : Mmio Register Unit := do
  let v ← Mmio.read .syscon
  Mmio.write .syscon ((v &&& ~~~sysconCI) ||| ((UInt32.ofNat size - 1) <<< 26))

def transferByteGet (mem : Memory) (transfer : Transfer) : UInt8 × Transfer :=
  if transfer.prefixRemaining ≠ 0 then
    (mem.read transfer.prefixAt 0,
      { transfer with
        prefixRemaining := transfer.prefixRemaining - 1, prefixAt := transfer.prefixAt + 1 })
  else
    (mem.read transfer.tx 0,
      { transfer with remaining := transfer.remaining - 1, tx := transfer.tx + 1 })

/-- The loop of `write_buffer`; `room` is `sizeof(value) - count`. -/
def fillWord (mem : Memory) : (room : Nat) → Transfer → (value : UInt32) → (count : Nat) →
    UInt32 × Nat × Transfer
  | 0, transfer, value, count => (value, count, transfer)
  | room + 1, transfer, value, count =>
      if transfer.prefixRemaining ≠ 0 ∨ transfer.remaining ≠ 0 then
        let next := transferByteGet mem transfer
        fillWord mem room next.2 (value ||| next.1.toUInt32 <<< UInt32.ofNat (count * 8)) (count + 1)
      else (value, count, transfer)

def writeBuffer (mem : Memory) (transfer : Transfer) (value : UInt32) (offset : Nat) :
    Mmio Register Transfer := do
  let filled := fillWord mem (4 - offset) transfer value offset
  bufferSizeSet filled.2.1
  Mmio.write .rtb filled.1
  pure filled.2.2

/-- The count of `read_buffer`: the bytes transmitted, cut to the buffer length and to what is
left; `co` and `ci` are the two reads of `SYSCON`. -/
def receivedCount (co ci : UInt32) (remaining : Nat) : Nat :=
  let count := ((co &&& sysconCO) >>> 8).toNat
  let requested := ((ci &&& sysconCI) >>> 26).toNat + 1
  let count := if count > requested then requested else count
  if count > remaining then remaining else count

def readBuffer (transfer : Transfer) : Mmio Register Transfer := do
  let co ← Mmio.read .syscon
  let ci ← Mmio.read .syscon
  let count := receivedCount co ci transfer.remaining
  let v ← Mmio.read .syscon
  Mmio.write .syscon (v ||| sysconINT)
  let value ← Mmio.read .rtb
  let v ← Mmio.read .syscon
  Mmio.write .syscon (v &&& ~~~sysconINT)
  storeWord value count 0 transfer.rx
  pure { transfer with rx := transfer.rx + count, remaining := transfer.remaining - count }

def transferStop : Mmio Register Unit := Mmio.write .whbsyscon clearState

/-- The `IRQD` branch of `transfer_wait` for a write, past the NACK check. -/
def writeEvent (mem : Memory) (transfer : Transfer) : Mmio Register Transfer :=
  if transfer.prefixRemaining ≠ 0 ∨ transfer.remaining ≠ 0 then writeBuffer mem transfer 0 0
  else do
    Mmio.write .whbsyscon whbsysconCLRBUM
    pure { transfer with stopRequested := true }

/-- The count for the next word of a read, and the stop request if it is the last one. -/
def nextSizeSet (transfer : Transfer) : Mmio Register Unit :=
  if transfer.remaining ≠ 0 then do
    bufferSizeSet (min transfer.remaining 4)
    if transfer.remaining ≤ 4 then
      Mmio.write .whbsyscon (whbsysconSETACKDIS ||| whbsysconSETSTP)
    else pure ()
  else pure ()

/-- The `IRQD` branch of `transfer_wait` for a read, past the NACK check. The last read of `RTB`
takes the event away, its value is dropped. -/
def readEvent (transfer : Transfer) : Mmio Register Transfer :=
  if transfer.addressSent then do
    let transfer ← readBuffer transfer
    nextSizeSet transfer
    let _ ← Mmio.read .rtb
    pure transfer
  else do
    Mmio.write .whbsyscon whbsysconCLRTRX
    nextSizeSet transfer
    let _ ← Mmio.read .rtb
    pure { transfer with addressSent := true }

/-- The `IRQP` branch of `transfer_wait`. -/
def protocolEvent (status : UInt32) : Mmio Register Unit :=
  if status &&& sysconIRQP ≠ 0 then Mmio.write .whbsyscon whbsysconCLRIRQP else pure ()

/-- The `IRQD` branch of `transfer_wait`, past the NACK check. -/
def dataEvent (mem : Memory) (reading : Bool) (status : UInt32) (transfer : Transfer) :
    Mmio Register Transfer :=
  if status &&& sysconIRQD ≠ 0 then
    if reading then readEvent transfer else writeEvent mem transfer
  else pure transfer

/-- The data event shows a NACK: of the address, or of a byte written before the stop request. -/
def nack (reading : Bool) (status : UInt32) (transfer : Transfer) : Prop :=
  status &&& sysconIRQD ≠ 0 ∧ status &&& sysconLRB ≠ 0 ∧ transfer.stopRequested = false ∧
    (reading = false ∨ transfer.addressSent = false)

instance (reading : Bool) (status : UInt32) (transfer : Transfer) :
    Decidable (nack reading status transfer) :=
  inferInstanceAs (Decidable (_ ∧ _ ∧ _ ∧ _))

/-- `transfer_wait` for `passes` passes of its loop. -/
def transferWait (mem : Memory) (reading : Bool) : (passes : Nat) → Transfer → Mmio Register Bool
  | 0, _ => do
      transferStop
      pure false
  | passes + 1, transfer => do
      let status ← Mmio.read .syscon
      protocolEvent status
      if nack reading status transfer then do
        transferStop
        pure false
      else do
        let transfer ← dataEvent mem reading status transfer
        if status &&& sysconIRQE ≠ 0 then do
          transferStop
          pure (transfer.remaining == 0 && transfer.prefixRemaining == 0)
        else transferWait mem reading passes transfer

/-- `i2c_hw_write` -/
def hwWrite (mem : Memory) (passes : Nat) (args : WriteArgs) : Mmio Register Bool := do
  Mmio.write .syscon sysconMODMASTER
  let transfer ← writeBuffer mem
    { prefixAt := args.prefixAt, tx := args.data, rx := 0, prefixRemaining := args.prefixSize,
      remaining := args.size, addressSent := true, stopRequested := false }
    (args.address.toUInt32 <<< 1) 1
  Mmio.write .whbsyscon whbsysconSETBUM
  transferWait mem false passes transfer

/-- `i2c_hw_read`; the memory is that of `transfer_wait`, which reads none of it here. -/
def hwRead (mem : Memory) (passes : Nat) (address : UInt8) (data size : Nat) :
    Mmio Register Bool :=
  if size = 0 then pure true
  else do
    bufferSizeSet 1
    Mmio.write .rtb ((address.toUInt32 <<< 1) ||| 1)
    Mmio.write .whbsyscon whbsysconSETBUM
    transferWait mem true passes
      { prefixAt := 0, tx := 0, rx := data, prefixRemaining := 0, remaining := size,
        addressSent := false, stopRequested := false }

/-! ## The words a transfer declares -/

/-- The buffer length a `SYSCON` value stands for. -/
def bufferSize (v : UInt32) : Nat := ((v &&& sysconCI) >>> 26).toNat + 1

/-- The words written to `RTB`, each with the buffer length set at that time; `size` is the length
set before. -/
def declared : (size : Nat) → List (Access Register) → List (Nat × UInt32)
  | _, [] => []
  | _, .write .syscon v :: l => declared (bufferSize v) l
  | size, .write .rtb v :: l => (size, v) :: declared size l
  | size, .write .whbsyscon _ :: l => declared size l
  | size, .read _ _ :: l => declared size l
  | size, .store _ _ :: l => declared size l

/-- The words are those written to `RTB`. -/
theorem declared_words (size : Nat) (l : List (Access Register)) :
    (declared size l).map Prod.snd = Access.written .rtb l := by
  fun_induction declared size l with
  | case1 => rfl
  | case2 size v l ih => exact ih
  | case3 size v l ih => simp [ih, Access.written, Access.written?]
  | case4 size v l ih => exact ih
  | case5 size r v l ih => exact ih
  | case6 size a b l ih => exact ih

theorem declared_append (size : Nat) (l : List (Access Register)) :
    ∃ size', ∀ m, declared size (l ++ m) = declared size l ++ declared size' m := by
  fun_induction declared size l with
  | case1 size => exact ⟨size, fun m => rfl⟩
  | case2 size v l ih => exact ih
  | case3 size v l ih =>
      obtain ⟨size', h⟩ := ih
      exact ⟨size', fun m => by simp [declared, h m]⟩
  | case4 size v l ih => exact ih
  | case5 size r v l ih => exact ih
  | case6 size a b l ih => exact ih

/-- The accesses hand the pieces `cs` to the controller, each declared with its own length. -/
def Declares (cs : List (List UInt8)) (l : List (Access Register)) : Prop :=
  ∀ size, declared size l = cs.map (fun c => (c.length, word c))

theorem Declares.append {cs ds : List (List UInt8)} {l m : List (Access Register)}
    (hl : Declares cs l) (hm : Declares ds m) : Declares (cs ++ ds) (l ++ m) := by
  intro size
  obtain ⟨size', h⟩ := declared_append size l
  rw [h m, hl size, hm size', List.map_append]

/-- An access in front that sends nothing. -/
theorem Declares.cons {a : Access Register} {cs : List (List UInt8)} {l : List (Access Register)}
    (ha : Declares [] [a]) (hl : Declares cs l) : Declares cs (a :: l) := ha.append hl

theorem Declares.nil : Declares [] [] := fun _ => rfl

theorem declares_read (r : Register) (v : UInt32) : Declares [] [.read r v] := fun _ => rfl

theorem declares_syscon (v : UInt32) : Declares [] [.write .syscon v] := fun _ => rfl

theorem declares_whbsyscon (v : UInt32) : Declares [] [.write .whbsyscon v] := fun _ => rfl

/-- What is put in a field is what the field holds. -/
theorem and_field (v x field : UInt32) : ((v &&& ~~~field) ||| x) &&& field = x &&& field := by
  apply UInt32.toBitVec_inj.1
  simp only [UInt32.toBitVec_and, UInt32.toBitVec_or, UInt32.toBitVec_not]
  ext i
  simp only [BitVec.getElem_and, BitVec.getElem_or, BitVec.getElem_not]
  cases v.toBitVec[i] <;> cases x.toBitVec[i] <;> cases field.toBitVec[i] <;> rfl

/-- `buffer_size_set` sets the length it is given. -/
theorem bufferSize_set (v : UInt32) {n : Nat} (h0 : 0 < n) (h4 : n ≤ 4) :
    bufferSize ((v &&& ~~~sysconCI) ||| ((UInt32.ofNat n - 1) <<< 26)) = n := by
  rw [bufferSize, and_field]
  have hn : n = 1 ∨ n = 2 ∨ n = 3 ∨ n = 4 := by omega
  rcases hn with rfl | rfl | rfl | rfl <;> rfl

/-! ## Packing -/

/-- The bytes of a transfer still to be sent. -/
def Transfer.pending (mem : Memory) (transfer : Transfer) : List UInt8 :=
  mem.readBytes transfer.prefixAt 0 transfer.prefixRemaining ++
    mem.readBytes transfer.tx 0 transfer.remaining

theorem Transfer.pending_eq_nil (mem : Memory) {transfer : Transfer} :
    transfer.pending mem = [] ↔ ¬ (transfer.prefixRemaining ≠ 0 ∨ transfer.remaining ≠ 0) := by
  rw [← List.length_eq_zero_iff, pending, List.length_append, Memory.readBytes_length,
    Memory.readBytes_length]
  omega

/-- `transfer_byte_get` takes the first byte, the prefix before the data. -/
theorem transferByteGet_pending (mem : Memory) {transfer : Transfer}
    (h : transfer.prefixRemaining ≠ 0 ∨ transfer.remaining ≠ 0) :
    transfer.pending mem = (transferByteGet mem transfer).1 ::
      (transferByteGet mem transfer).2.pending mem := by
  unfold transferByteGet
  by_cases hp : transfer.prefixRemaining ≠ 0
  · obtain ⟨n, hn⟩ := Nat.exists_eq_succ_of_ne_zero hp
    rw [if_pos hp]
    simp only [Transfer.pending, hn, readBytes_succ, Nat.succ_eq_add_one, Nat.add_sub_cancel,
      List.cons_append]
  · obtain ⟨n, hn⟩ := Nat.exists_eq_succ_of_ne_zero (h.resolve_left hp)
    rw [if_neg hp]
    rw [not_not] at hp
    simp only [Transfer.pending, hn, hp, readBytes_succ, readBytes_zero, Nat.succ_eq_add_one,
      Nat.add_sub_cancel, List.nil_append]

/-- The loop of `write_buffer` fills the word up with the bytes that come next. -/
theorem fillWord_spec (mem : Memory) {room : Nat} (transfer : Transfer) (bs : List UInt8)
    (h : bs.length + room ≤ 4) :
    let chunk := (transfer.pending mem).take room
    let filled := fillWord mem room transfer (word bs) bs.length
    filled.1 = word (bs ++ chunk) ∧ filled.2.1 = (bs ++ chunk).length ∧
      filled.2.2.pending mem = (transfer.pending mem).drop room := by
  induction room generalizing transfer bs with
  | zero => simp [fillWord]
  | succ room ih =>
      unfold fillWord
      by_cases hp : transfer.prefixRemaining ≠ 0 ∨ transfer.remaining ≠ 0
      · have hnext := transferByteGet_pending mem hp
        rw [if_pos hp, hnext]
        have hroom : bs.length + 1 + room ≤ 4 := by omega
        have hih := ih (transferByteGet mem transfer).2
          (bs ++ [(transferByteGet mem transfer).1]) (by simpa using hroom)
        rw [← word_snoc (by omega)] at hih
        simpa [List.append_assoc] using hih
      · have hnil := (Transfer.pending_eq_nil mem).2 hp
        rw [if_neg hp, hnil]
        exact ⟨by simp, by simp, hnil⟩

theorem bufferSizeSet_runs (n : Nat) :
    Mmio.Runs (bufferSizeSet n) (fun _ l => ∃ v, l = [.read .syscon v,
      .write .syscon ((v &&& ~~~sysconCI) ||| ((UInt32.ofNat n - 1) <<< 26))]) :=
  Mmio.Runs.read_bind fun v => Mmio.Runs.write ⟨v, rfl⟩

/-- `write_buffer` hands one piece to the controller and declares its length. -/
theorem writeBuffer_runs (mem : Memory) {transfer : Transfer} (bs : List UInt8)
    (h4 : bs.length ≤ 4) (hne : bs ++ (transfer.pending mem).take (4 - bs.length) ≠ []) :
    Mmio.Runs (writeBuffer mem transfer (word bs) bs.length) (fun transfer' l =>
      Declares [bs ++ (transfer.pending mem).take (4 - bs.length)] l ∧
        transfer'.pending mem = (transfer.pending mem).drop (4 - bs.length)) := by
  have hroom : bs.length + (4 - bs.length) ≤ 4 := by rw [Nat.add_sub_cancel' h4]
  obtain ⟨hvalue, hcount, hrest⟩ := fillWord_spec mem transfer bs hroom
  refine Mmio.Runs.bind (bufferSizeSet_runs _) ?_
  rintro _ l ⟨v, rfl⟩
  refine Mmio.Runs.write_bind (Mmio.Runs.pure ⟨?_, hrest⟩)
  have hpos : 0 < (bs ++ (transfer.pending mem).take (4 - bs.length)).length :=
    List.length_pos_iff.2 hne
  have hfit : (bs ++ (transfer.pending mem).take (4 - bs.length)).length ≤ 4 := by
    rw [List.length_append, List.length_take]
    omega
  intro size
  simp only [List.cons_append, List.nil_append, declared, List.map_cons, List.map_nil, hvalue,
    hcount, bufferSize_set v hpos hfit]

/-- A pass of `transfer_wait` for a write sends the next piece, if one is left. -/
theorem writeEvent_runs (mem : Memory) (transfer : Transfer) :
    Mmio.Runs (writeEvent mem transfer) (fun transfer' l => ∃ cs, Declares cs l ∧
      wordChunks (transfer.pending mem) = cs ++ wordChunks (transfer'.pending mem)) := by
  refine Mmio.Runs.ite (fun hp => ?_) (fun hp => ?_)
  · have hne : transfer.pending mem ≠ [] := fun h => (Transfer.pending_eq_nil mem).1 h hp
    have htake : [] ++ (transfer.pending mem).take 4 ≠ [] := by
      rw [List.nil_append, Ne, List.take_eq_nil_iff]
      exact fun h => hne (h.resolve_left (by decide))
    refine (writeBuffer_runs mem [] (by decide) htake).mono ?_
    rintro transfer' l ⟨hl, hrest⟩
    refine ⟨[(transfer.pending mem).take 4], hl, ?_⟩
    rw [wordChunks_of_ne_nil hne, hrest]
    rfl
  · exact Mmio.Runs.write_bind (Mmio.Runs.pure ⟨[], declares_whbsyscon _, rfl⟩)

theorem dataEvent_write_runs (mem : Memory) (status : UInt32) (transfer : Transfer) :
    Mmio.Runs (dataEvent mem false status transfer) (fun transfer' l => ∃ cs, Declares cs l ∧
      wordChunks (transfer.pending mem) = cs ++ wordChunks (transfer'.pending mem)) :=
  Mmio.Runs.ite (fun _ => writeEvent_runs mem transfer)
    (fun _ => Mmio.Runs.pure ⟨[], Declares.nil, rfl⟩)

theorem protocolEvent_runs (status : UInt32) : Mmio.Runs (protocolEvent status) (fun _ l =>
    Declares [] l ∧ Access.stored l = [] ∧ Access.received .rtb l = []) :=
  Mmio.Runs.ite (fun _ => Mmio.Runs.write ⟨declares_whbsyscon _, rfl, rfl⟩)
    (fun _ => Mmio.Runs.pure ⟨Declares.nil, rfl, rfl⟩)

/-- **Writing, event by event.** Whatever the controller shows, `transfer_wait` hands over a
beginning of the packing of the bytes left, and returns true only after all of it. -/
theorem transferWait_write_runs (mem : Memory) (passes : Nat) (transfer : Transfer) :
    Mmio.Runs (transferWait mem false passes transfer) (fun ok l => ∃ cs, Declares cs l ∧
      cs <+: wordChunks (transfer.pending mem) ∧
        (ok = true → cs = wordChunks (transfer.pending mem))) := by
  induction passes generalizing transfer with
  | zero =>
      exact Mmio.Runs.write_bind (Mmio.Runs.pure
        ⟨[], declares_whbsyscon _, List.nil_prefix, fun h => absurd h (by decide)⟩)
  | succ passes ih =>
      unfold transferWait
      refine Mmio.Runs.read_bind fun status => ?_
      refine Mmio.Runs.bind (protocolEvent_runs status) fun _ k hk => ?_
      have hhead : Declares [] (.read .syscon status :: k) :=
        Declares.cons (declares_read .syscon status) hk.1
      refine Mmio.Runs.ite (fun _ => ?_) (fun _ => ?_)
      · exact Mmio.Runs.write_bind (Mmio.Runs.pure
          ⟨[], hhead.append (declares_whbsyscon _), List.nil_prefix, fun h => absurd h (by decide)⟩)
      · refine Mmio.Runs.bind (dataEvent_write_runs mem status transfer) ?_
        rintro transfer' l ⟨cs, hl, hcs⟩
        have hcsl : Declares cs (.read .syscon status :: (k ++ l)) := hhead.append hl
        refine Mmio.Runs.ite (fun _ => ?_) (fun _ => ?_)
        · refine Mmio.Runs.write_bind (Mmio.Runs.pure ⟨cs, ?_, ?_, fun hok => ?_⟩)
          · simpa using hcsl.append (declares_whbsyscon clearState)
          · rw [hcs]
            exact List.prefix_append _ _
          · have hnil : transfer'.pending mem = [] := by
              rw [Transfer.pending_eq_nil]
              simp only [Bool.and_eq_true, beq_iff_eq] at hok
              simp [hok]
            rw [hcs, hnil, wordChunks_nil, List.append_nil]
        · refine (ih transfer').mono ?_
          rintro ok m ⟨ds, hm, hds, hok⟩
          refine ⟨cs ++ ds, ?_, ?_, fun h => ?_⟩
          · simpa using hcsl.append hm
          · rw [hcs]
            exact (List.prefix_append_right_inj _).2 hds
          · rw [hcs, hok h]

/-- The word with the address byte, alone. -/
theorem word_address {a : UInt8} (h : a.toNat < 128) : word [a <<< 1] = a.toUInt32 <<< 1 := by
  apply UInt32.toNat_inj.1
  have hbyte : (a <<< 1).toNat = a.toNat * 2 := by
    rw [UInt8.toNat_shiftLeft, Nat.shiftLeft_eq]
    exact Nat.mod_eq_of_lt (by simpa using by omega)
  have hword : (a.toUInt32 <<< 1).toNat = a.toNat * 2 := by
    rw [UInt32.toNat_shiftLeft, Nat.shiftLeft_eq, UInt8.toNat_toUInt32]
    exact Nat.mod_eq_of_lt (by simpa using by omega)
  rw [hword, word, UInt32.toNat_ofNat', ofLeBytes, ofLeBytes, hbyte]
  omega

/-- `i2c_hw_write` hands over a beginning of the packing of its frame and declares the length of
every piece of it. -/
theorem hwWrite_runs (mem : Memory) (passes : Nat) {args : WriteArgs}
    (h : args.address.toNat < 128) :
    Mmio.Runs (hwWrite mem passes args) (fun ok l => ∃ cs, Declares cs l ∧
      cs <+: wordChunks (args.frame mem) ∧ (ok = true → cs = wordChunks (args.frame mem))) := by
  refine Mmio.Runs.write_bind ?_
  rw [← word_address h]
  refine Mmio.Runs.bind
    (writeBuffer_runs mem [args.address <<< 1] (by simp) (by simp)) ?_
  rintro transfer l ⟨hl, hrest⟩
  refine Mmio.Runs.write_bind ((transferWait_write_runs mem passes transfer).mono ?_)
  rintro ok m ⟨cs, hm, hcs, hok⟩
  -- the first piece holds the address byte and three bytes more
  have hchunks : wordChunks (args.frame mem)
      = [args.address <<< 1 :: (mem.readBytes args.prefixAt 0 args.prefixSize ++
          mem.readBytes args.data 0 args.size).take 3] ++ wordChunks (transfer.pending mem) := by
    rw [wordChunks_of_ne_nil (by simp [WriteArgs.frame]), hrest]
    rfl
  rw [hchunks]
  refine ⟨_ ++ cs, ?_, (List.prefix_append_right_inj _).2 hcs, fun h => by rw [hok h]⟩
  exact Declares.cons (declares_syscon _)
    (hl.append (Declares.cons (declares_whbsyscon whbsysconSETBUM) hm))

/-! ## Reading -/

theorem bufferSize_le (v : UInt32) : bufferSize v ≤ 4 := by
  have hfield : (v &&& sysconCI).toNat ≤ sysconCI.toNat := by
    rw [UInt32.toNat_and]
    exact Nat.and_le_right
  have hci : sysconCI.toNat = 3 * 2 ^ 26 := by decide
  rw [bufferSize, UInt32.toNat_shiftRight, Nat.shiftRight_eq_div_pow]
  rw [hci] at hfield
  have hshift : (26 : UInt32).toNat % 32 = 26 := by decide
  rw [hshift]
  omega

/-- From `transfer` to `transfer'` the bytes received are stored at `rx` and counted off. -/
def Receives (transfer transfer' : Transfer) (l : List (Access Register)) : Prop :=
  ∃ bs, Delivers .rtb transfer.rx bs l ∧ transfer'.rx = transfer.rx + bs.length ∧
    transfer.remaining = bs.length + transfer'.remaining

theorem Receives.trans {t t' t'' : Transfer} {l m : List (Access Register)}
    (h : Receives t t' l) (h' : Receives t' t'' m) : Receives t t'' (l ++ m) := by
  obtain ⟨bs, hbs, hrx, hrem⟩ := h
  obtain ⟨cs, hcs, hrx', hrem'⟩ := h'
  rw [hrx] at hcs
  refine ⟨bs ++ cs, hbs.append hcs, ?_, ?_⟩
  · rw [hrx', hrx, List.length_append, Nat.add_assoc]
  · rw [hrem, hrem', List.length_append, Nat.add_assoc]

/-- Accesses that receive nothing. -/
theorem Receives.silent {t t' : Transfer} {l : List (Access Register)}
    (hs : Access.stored l = []) (hr : Access.received .rtb l = []) (hrx : t'.rx = t.rx)
    (hrem : t'.remaining = t.remaining) : Receives t t' l :=
  ⟨[], Delivers.nil hs hr, hrx, by rw [hrem]; simp⟩

theorem nextSizeSet_runs (transfer : Transfer) : Mmio.Runs (nextSizeSet transfer) (fun _ l =>
    Access.stored l = [] ∧ Access.received .rtb l = []) := by
  refine Mmio.Runs.ite (fun _ => ?_) (fun _ => Mmio.Runs.pure ⟨rfl, rfl⟩)
  refine Mmio.Runs.bind (bufferSizeSet_runs _) ?_
  rintro _ l ⟨v, rfl⟩
  exact Mmio.Runs.ite (fun _ => Mmio.Runs.write ⟨rfl, rfl⟩) (fun _ => Mmio.Runs.pure ⟨rfl, rfl⟩)

theorem receivedCount_le (co ci : UInt32) (remaining : Nat) :
    receivedCount co ci remaining ≤ 4 ∧ receivedCount co ci remaining ≤ remaining := by
  have hsize : ((ci &&& sysconCI) >>> 26).toNat + 1 ≤ 4 := bufferSize_le ci
  unfold receivedCount
  dsimp only
  split_ifs <;> omega

/-- `read_buffer` stores at most the bytes that are left, and at most four. -/
theorem readBuffer_runs (transfer : Transfer) :
    Mmio.Runs (readBuffer transfer) (fun transfer' l => Receives transfer transfer' l) := by
  refine Mmio.Runs.read_bind fun co => Mmio.Runs.read_bind fun ci => ?_
  obtain ⟨h4, hle⟩ := receivedCount_le co ci transfer.remaining
  refine Mmio.Runs.read_bind fun v => Mmio.Runs.write_bind <| Mmio.Runs.read_bind fun value =>
    Mmio.Runs.read_bind fun v' => Mmio.Runs.write_bind <|
      Mmio.Runs.bind (storeWord_runs .rtb value _ 0 transfer.rx (by simpa using h4)) ?_
  rintro _ l ⟨hs, hr⟩
  rw [Nat.pow_zero, Nat.div_one] at hs
  refine Mmio.Runs.pure ⟨_, Delivers.word (v := value) h4 ?_ ?_, ?_, ?_⟩
  · rw [List.append_nil]
    exact hs
  · rw [List.append_nil]
    exact congrArg (value :: ·) hr
  · rw [leBytes_length]
  · rw [leBytes_length]
    exact (Nat.add_sub_cancel' hle).symm

theorem readEvent_runs (transfer : Transfer) :
    Mmio.Runs (readEvent transfer) (fun transfer' l => Receives transfer transfer' l) := by
  refine Mmio.Runs.ite (fun _ => ?_) (fun _ => ?_)
  · refine Mmio.Runs.bind (readBuffer_runs transfer) fun transfer' l hl => ?_
    refine Mmio.Runs.bind (nextSizeSet_runs transfer') ?_
    rintro _ m ⟨hs, hr⟩
    refine Mmio.Runs.read_bind fun v => Mmio.Runs.pure (hl.trans ?_)
    exact (Receives.silent hs hr rfl rfl).trans
      ⟨[], Delivers.dropped (v := v) rfl rfl, rfl, (Nat.zero_add _).symm⟩
  · refine Mmio.Runs.write_bind (Mmio.Runs.bind (nextSizeSet_runs transfer) ?_)
    rintro _ m ⟨hs, hr⟩
    refine Mmio.Runs.read_bind fun v => Mmio.Runs.pure ?_
    have hset : Receives transfer transfer (.write .whbsyscon whbsysconCLRTRX :: m) :=
      Receives.silent hs hr rfl rfl
    exact hset.trans ⟨[], Delivers.dropped (v := v) rfl rfl, rfl, (Nat.zero_add _).symm⟩

theorem dataEvent_read_runs (mem : Memory) (status : UInt32) (transfer : Transfer) :
    Mmio.Runs (dataEvent mem true status transfer)
      (fun transfer' l => Receives transfer transfer' l) :=
  Mmio.Runs.ite (fun _ => readEvent_runs transfer)
    (fun _ => Mmio.Runs.pure (Receives.silent rfl rfl rfl rfl))

/-- **Reading, event by event.** Whatever the controller shows, `transfer_wait` stores received
bytes one after the other, at most those left, and returns true only after all of them. -/
theorem transferWait_read_runs (mem : Memory) (passes : Nat) (transfer : Transfer) :
    Mmio.Runs (transferWait mem true passes transfer) (fun ok l => ∃ transfer',
      Receives transfer transfer' l ∧ (ok = true → transfer'.remaining = 0)) := by
  induction passes generalizing transfer with
  | zero =>
      exact Mmio.Runs.write_bind (Mmio.Runs.pure
        ⟨transfer, Receives.silent rfl rfl rfl rfl, fun h => absurd h (by decide)⟩)
  | succ passes ih =>
      unfold transferWait
      refine Mmio.Runs.read_bind fun status => ?_
      refine Mmio.Runs.bind (protocolEvent_runs status) ?_
      rintro _ k ⟨-, hks, hkr⟩
      have hhead : Receives transfer transfer (.read .syscon status :: k) :=
        Receives.silent hks hkr rfl rfl
      refine Mmio.Runs.ite (fun _ => ?_) (fun _ => ?_)
      · exact Mmio.Runs.write_bind (Mmio.Runs.pure ⟨transfer,
          hhead.trans (Receives.silent rfl rfl rfl rfl), fun h => absurd h (by decide)⟩)
      · refine Mmio.Runs.bind (dataEvent_read_runs mem status transfer) ?_
        intro transfer' l hl
        refine Mmio.Runs.ite (fun _ => ?_) (fun _ => ?_)
        · refine Mmio.Runs.write_bind (Mmio.Runs.pure ⟨transfer', ?_, fun hok => ?_⟩)
          · exact hhead.trans (hl.trans (Receives.silent rfl rfl rfl rfl))
          · simp only [Bool.and_eq_true, beq_iff_eq] at hok
            exact hok.1
        · refine (ih transfer').mono ?_
          rintro ok m ⟨transfer'', hm, hok⟩
          exact ⟨transfer'', hhead.trans (hl.trans hm), hok⟩

/-- `i2c_hw_read` stores at most `size` bytes, consecutively from `data`, and returns true only
after all of them. -/
theorem hwRead_runs (mem : Memory) (passes : Nat) (address : UInt8) (data size : Nat) :
    Mmio.Runs (hwRead mem passes address data size) (fun ok l => ∃ bs, bs.length ≤ size ∧
      Delivers .rtb data bs l ∧ (ok = true → bs.length = size)) := by
  refine Mmio.Runs.ite (fun h => ?_) (fun _ => ?_)
  · exact Mmio.Runs.pure ⟨[], by simp, Delivers.nil rfl rfl, fun _ => h.symm⟩
  · refine Mmio.Runs.bind (bufferSizeSet_runs 1) ?_
    rintro _ l ⟨v, rfl⟩
    refine Mmio.Runs.write_bind <| Mmio.Runs.write_bind <|
      (transferWait_read_runs mem passes _).mono ?_
    rintro ok m ⟨transfer', ⟨bs, hbs, -, hrem⟩, hok⟩
    have hsize : size = bs.length + transfer'.remaining := hrem
    refine ⟨bs, ?_, ?_, fun h => ?_⟩
    · rw [hsize]
      exact Nat.le_add_right _ _
    · exact (Delivers.nil rfl rfl).append hbs
    · rw [hsize, hok h, Nat.add_zero]

end Pmb887x.I2c.V1
