import Pmb887x.Preloader.Main
import Pmb887x.Preloader.Lz4Sound

set_option autoImplicit false

/-! # Serving a write request

What one round of the command loop does with a complete `RAM_WRITE` or `WRITE_RAM_LZ4` request,
whatever its fields, body and checksum are: it consumes the request and nothing else, answers with
one status byte and is back in the command loop (`mainRound_request`). -/

namespace Pmb887x.Preloader

open Library

/-! ## The checksum -/

theorem crc32Shifts_eq (n : Nat) (crc : BitVec 32) :
    crc32Shifts n crc = crcShifts crc32Polynomial n crc := by
  induction n generalizing crc with
  | zero => rfl
  | succ n ih =>
      simp only [crc32Shifts, crcShifts, ih, crcShift, crcBit, Bool.xor_false]
      have hlow : (crc &&& 1#32 ≠ 0#32) ↔ crc.getLsbD 0 = true := by
        rw [BitVec.and_one_eq_setWidth_ofBool_getLsbD]
        cases crc.getLsbD 0 <;> decide
      by_cases h : crc.getLsbD 0 = true
      · rw [if_pos (hlow.2 h), if_pos h]
      · rw [if_neg (fun hne => h (hlow.1 hne)), if_neg h]

theorem crc32Update_eq (m : Memory) (data n : Nat) :
    ∀ (offset : Nat) (crc : BitVec 32), crc32Update m crc data offset n
      = crcBits crc32Polynomial crc (messageBits (m.readBytes data offset n)) := by
  induction n with
  | zero => intro offset crc; rfl
  | succ n ih =>
      intro offset crc
      have hbytes : m.readBytes data offset (n + 1)
          = m.read data offset :: m.readBytes data (offset + 1) n := by
        rw [Nat.add_comm n 1, Memory.readBytes_append]
        simp [Memory.readBytes]
      have hb := (m.read data offset).toNat_lt
      rw [crc32Update, ih, crc32Shifts_eq,
        crcShifts_xor_eq_crcBits (by decide) crc32Polynomial 8 crc _ (by omega) (by omega), hbytes,
        show messageBits (m.read data offset :: m.readBytes data (offset + 1) n)
          = lowBits 8 (m.read data offset).toNat ++ messageBits (m.readBytes data (offset + 1) n)
          from rfl, crcBits_append]

/-- The batched checksum is the checksum of the whole. -/
theorem crcBatches_eq (m : Memory) (data size offset : Nat) (crc : BitVec 32)
    (h : offset ≤ size) : crcBatches m data size offset crc
      = crcBits crc32Polynomial crc (messageBits (m.readBytes data offset (size - offset))) := by
  fun_induction crcBatches m data size offset crc with
  | case1 offset crc hlt batchSize ih =>
      rw [ih (by omega), crc32Update_eq, ← crcBits_append, ← messageBits_append,
        ← Memory.readBytes_append]
      congr 3
      omega
  | case2 offset crc hge =>
      rw [show size - offset = 0 by omega]
      rfl

/-! ## Receiving -/

theorem runs_usartReadU32 {n : Nat} (h : n < 2 ^ 32) :
    Prog.Runs usartReadU32 (leBytes 4 n) [] n := by
  have hrecv := Prog.runs_recvAll (leBytes 4 n)
  rw [leBytes_length] at hrecv
  have hread : Prog.Runs usartReadU32 (leBytes 4 n ++ []) [] (ofLeBytes (leBytes 4 n)) :=
    hrecv.bind_recv (Prog.Runs.ret _)
  rwa [ofLeBytes_leBytes_of_lt h, List.append_nil] at hread

theorem runs_usartRead (bytes : List UInt8) :
    ∀ (m : Memory) (data offset : Nat),
      Prog.Runs (usartRead m data offset bytes.length) bytes []
        (m.writeBytes data offset bytes) := by
  induction bytes with
  | nil => intro m data offset; exact Prog.Runs.ret m
  | cons b rest ih =>
      intro m data offset
      exact Prog.Runs.recv (ih (m.write data offset b) data (offset + 1))

theorem runs_readBatches (data size : Nat) (n : Nat) :
    ∀ (m : Memory) (offset : Nat) (body : List UInt8), body.length = n → offset + n = size →
      Prog.Runs (readBatches m data size offset) body [] (m.writeBytes data offset body) := by
  induction n using Nat.strong_induction_on with
  | _ n ih =>
      intro m offset body hlen hsize
      rw [readBatches]
      by_cases hlt : offset < size
      · rw [if_pos hlt]
        obtain ⟨xs, ys, rfl, hxs⟩ : ∃ xs ys, body = xs ++ ys ∧
            xs.length = min (size - offset) 256 :=
          ⟨body.take (min (size - offset) 256), body.drop (min (size - offset) 256),
            (List.take_append_drop _ _).symm, by rw [List.length_take]; omega⟩
        rw [List.length_append] at hlen
        rw [Memory.writeBytes_append, ← hxs]
        exact (runs_usartRead xs m data offset).bind_recv
          (ih ys.length (by omega) _ (offset + xs.length) ys rfl (by omega))
      · obtain rfl : body = [] := List.eq_nil_of_length_eq_zero (by omega)
        rw [if_neg hlt]
        exact Prog.Runs.ret m

theorem runs_discardData (size : Nat) (n : Nat) :
    ∀ (offset : Nat) (body : List UInt8), body.length = n → offset + n = size →
      Prog.Runs (discardData size offset) body [] () := by
  induction n using Nat.strong_induction_on with
  | _ n ih =>
      intro offset body hlen hsize
      rw [discardData]
      by_cases hlt : offset < size
      · rw [if_pos hlt]
        obtain ⟨xs, ys, rfl, hxs⟩ : ∃ xs ys, body = xs ++ ys ∧
            xs.length = min (size - offset) 256 :=
          ⟨body.take (min (size - offset) 256), body.drop (min (size - offset) 256),
            (List.take_append_drop _ _).symm, by rw [List.length_take]; omega⟩
        rw [List.length_append] at hlen
        rw [← hxs]
        exact (Prog.runs_recvAll xs).bind_recv
          (ih ys.length (by omega) (offset + xs.length) ys rfl (by omega))
      · obtain rfl : body = [] := List.eq_nil_of_length_eq_zero (by omega)
        rw [if_neg hlt]
        exact Prog.Runs.ret ()

/-! ## The two write commands -/

/-- `cmd_ram_write` on a complete request: the body is stored, then checked in place. -/
theorem runs_cmdRamWrite (d : Device) {address crc : Nat} {body : List UInt8}
    (ha : address < 2 ^ 32) (hc : crc < 2 ^ 32) (hb : body.length < 2 ^ 32) :
    Prog.Runs (cmdRamWrite d)
      (leBytes 4 address ++ (leBytes 4 body.length ++ (body ++ leBytes 4 crc)))
      [if BitVec.ofNat 32 crc = crc32 body then statusSuccess else statusFailure]
      { d with memory := d.memory.writeBytes address 0 body } := by
  have hbody : (d.memory.writeBytes address 0 body).readBytes address 0 body.length = body :=
    (Memory.holds_writeBytes d.memory address body
      (by simp only [addressSpace]; omega)).readBytes_eq
  have hcrc : ~~~crcBatches (d.memory.writeBytes address 0 body) address body.length 0
      crc32InitialValue = crc32 body := by
    rw [crcBatches_eq _ _ _ _ _ (Nat.zero_le _), Nat.sub_zero, hbody]
    rfl
  refine (runs_usartReadU32 ha).bind_recv ((runs_usartReadU32 hb).bind_recv
    ((runs_readBatches address body.length body.length d.memory 0 body rfl
      (Nat.zero_add _)).bind_recv ?_))
  rw [← List.append_nil (leBytes 4 crc)]
  refine (runs_usartReadU32 hc).bind_recv ?_
  simp only [hcrc]
  by_cases h : BitVec.ofNat 32 crc = crc32 body
  · rw [if_neg (not_not.2 h), if_pos h]
    exact Prog.Runs.bind_putc (Prog.Runs.ret _)
  · rw [if_pos h, if_neg h]
    exact Prog.Runs.bind_putc (Prog.Runs.ret _)

/-- What `cmd_write_ram_lz4` makes of a request: its verdict and the memory it leaves. -/
def lz4WriteResult (m : Memory) (address outputSize crc : Nat) (body : List UInt8) :
    Bool × Memory :=
  if body.length > lz4BlockSize ∨ outputSize > lz4BlockSize then (false, m)
  else
    let r := lz4Decompress (m.writeBytes dtcmAddress 0 body) dtcmAddress body.length address
      outputSize
    (r.1 && decide (BitVec.ofNat 32 crc = crc32 (r.2.readBytes address 0 outputSize)), r.2)

/-- `cmd_write_ram_lz4` on a complete request. -/
theorem runs_cmdWriteRamLz4 (d : Device) {address outputSize crc : Nat} {body : List UInt8}
    (ha : address < 2 ^ 32) (ho : outputSize < 2 ^ 32) (hc : crc < 2 ^ 32)
    (hb : body.length < 2 ^ 32) :
    Prog.Runs (cmdWriteRamLz4 d)
      (leBytes 4 address ++ (leBytes 4 body.length
        ++ (leBytes 4 outputSize ++ (body ++ leBytes 4 crc))))
      [if (lz4WriteResult d.memory address outputSize crc body).1 then statusSuccess
        else statusFailure]
      { d with memory := (lz4WriteResult d.memory address outputSize crc body).2 } := by
  refine (runs_usartReadU32 ha).bind_recv ((runs_usartReadU32 hb).bind_recv
    ((runs_usartReadU32 ho).bind_recv ?_))
  rw [← List.append_nil (leBytes 4 crc)]
  have hdiscard : Prog.Runs (discardData body.length 0 >>= fun _ => pure (false, d.memory))
      (body ++ []) [] (false, d.memory) :=
    (runs_discardData body.length body.length 0 body rfl (Nat.zero_add _)).bind_recv
      (Prog.Runs.ret _)
  rw [List.append_nil] at hdiscard
  have hcrc : ∀ m : Memory, ~~~crc32Update m crc32InitialValue address 0 outputSize
      = crc32 (m.readBytes address 0 outputSize) := by
    intro m
    rw [crc32Update_eq]
    rfl
  by_cases hbig : body.length > lz4BlockSize
  · rw [lz4WriteResult, if_pos (Or.inl hbig), if_pos hbig]
    exact hdiscard.bind_recv ((runs_usartReadU32 hc).bind_recv
      (Prog.Runs.bind_putc (Prog.Runs.ret _)))
  · by_cases hout : outputSize > lz4BlockSize
    · rw [lz4WriteResult, if_pos (Or.inr hout), if_neg hbig, if_pos hout]
      exact hdiscard.bind_recv ((runs_usartReadU32 hc).bind_recv
        (Prog.Runs.bind_putc (Prog.Runs.ret _)))
    · rw [lz4WriteResult, if_neg (not_or.2 ⟨hbig, hout⟩), if_neg hbig, if_neg hout]
      have hread : Prog.Runs (usartRead d.memory dtcmAddress 0 body.length >>= fun m =>
          pure (lz4Decompress m dtcmAddress body.length address outputSize)) (body ++ []) []
          (lz4Decompress (d.memory.writeBytes dtcmAddress 0 body) dtcmAddress body.length address
            outputSize) :=
        (runs_usartRead body d.memory dtcmAddress 0).bind_recv (Prog.Runs.ret _)
      rw [List.append_nil] at hread
      generalize lz4Decompress (d.memory.writeBytes dtcmAddress 0 body) dtcmAddress body.length
        address outputSize = r at hread
      refine hread.bind_recv ((runs_usartReadU32 hc).bind_recv ?_)
      obtain ⟨ok, m'⟩ := r
      simp only [hcrc]
      cases ok with
      | false => exact Prog.Runs.bind_putc (Prog.Runs.ret _)
      | true => exact Prog.Runs.bind_putc (Prog.Runs.ret _)

/-! ## Requests -/

/-- A write request with its fields as they stand on the wire; the size field is the length of the
    body. -/
inductive Request where
  | ramWrite (address crc : Nat) (body : List UInt8)
  | writeRamLz4 (address outputSize crc : Nat) (body : List UInt8)

namespace Request

/-- Every field fits its four bytes. -/
def Encodable : Request → Prop
  | .ramWrite address crc body => address < 2 ^ 32 ∧ crc < 2 ^ 32 ∧ body.length < 2 ^ 32
  | .writeRamLz4 address outputSize crc body =>
      address < 2 ^ 32 ∧ outputSize < 2 ^ 32 ∧ crc < 2 ^ 32 ∧ body.length < 2 ^ 32

/-- The range a request writes does not overlap the preloader's own block buffer. -/
def SparesPreloader : Request → Prop
  | .ramWrite address _ body => Memory.Disjoint dtcmAddress lz4BlockSize address body.length
  | .writeRamLz4 address outputSize _ _ =>
      Memory.Disjoint dtcmAddress lz4BlockSize address outputSize

/-- The bytes behind the command byte. -/
def fields : Request → List UInt8
  | .ramWrite address crc body =>
      leBytes 4 address ++ (leBytes 4 body.length ++ (body ++ leBytes 4 crc))
  | .writeRamLz4 address outputSize crc body =>
      leBytes 4 address ++ (leBytes 4 body.length
        ++ (leBytes 4 outputSize ++ (body ++ leBytes 4 crc)))

/-- The request as it is sent. -/
def bytes : Request → List UInt8
  | r@(.ramWrite ..) => cmdRamWriteByte :: r.fields
  | r@(.writeRamLz4 ..) => cmdWriteRamLz4Byte :: r.fields

/-- How many bytes follow the command byte. -/
def fieldsSize : Request → Nat
  | .ramWrite _ _ body => 8 + body.length + 4
  | .writeRamLz4 _ _ _ body => 12 + body.length + 4

theorem fields_length (r : Request) : r.fields.length = r.fieldsSize := by
  cases r with
  | ramWrite address crc body =>
      simp [fields, fieldsSize]
      omega
  | writeRamLz4 address outputSize crc body =>
      simp [fields, fieldsSize]
      omega

/-- What `SUCCESS` stands for: the target range has the received checksum, and a compressed body is
    a valid block whose text, of the announced size, fills the range. -/
def Accepted : Request → Memory → Prop
  | .ramWrite address crc body, m =>
      crc32 (m.readBytes address 0 body.length) = BitVec.ofNat 32 crc
  | .writeRamLz4 address outputSize crc body, m =>
      crc32 (m.readBytes address 0 outputSize) = BitVec.ofNat 32 crc ∧
        ∃ b : Lz4.Block, b.bytes = body ∧ b.Valid ∧ b.expand.length = outputSize ∧
          m.readBytes address 0 outputSize = b.expand

end Request

/-- A compressed write is accepted only with a valid block and the right checksum. -/
theorem lz4WriteResult_accepted {m : Memory} {address outputSize crc : Nat} {body : List UInt8}
    (hd : Memory.Disjoint dtcmAddress lz4BlockSize address outputSize)
    (h : (lz4WriteResult m address outputSize crc body).1 = true) :
    Request.Accepted (.writeRamLz4 address outputSize crc body)
      (lz4WriteResult m address outputSize crc body).2 := by
  unfold lz4WriteResult at h ⊢
  split_ifs at h ⊢ with hbig
  simp only [not_or, not_lt, lz4BlockSize] at hbig
  simp only [Bool.and_eq_true, decide_eq_true_eq] at h
  obtain ⟨hok, hcrc⟩ := h
  obtain ⟨b, hv, hbytes, hsize, hres, -⟩ := lz4Decompress_sound (hd.mono hbig.1 (Nat.le_refl _))
    (by omega) (by omega) (Prod.ext hok rfl)
  have hheld := Memory.holds_writeBytes m dtcmAddress body (by simp only [addressSpace]; omega)
  have htext := hres.readBytes_eq
  rw [hsize] at htext
  exact ⟨hcrc.symm, b, hbytes.trans hheld.readBytes_eq, hv, hsize, htext⟩

theorem runs_mainRound_ramWrite (payload : Nat → Device → Prog Device) {d d' : Device}
    {ins outs : List UInt8} (hcontrol : d.control = .command)
    (h : Prog.Runs (cmdRamWrite d) ins outs d') :
    Prog.Runs (mainRound payload d) (cmdRamWriteByte :: ins) outs d' := by
  refine Prog.Runs.bind_getc ?_
  rw [hcontrol]
  exact h

theorem runs_mainRound_writeRamLz4 (payload : Nat → Device → Prog Device) {d d' : Device}
    {ins outs : List UInt8} (hcontrol : d.control = .command)
    (h : Prog.Runs (cmdWriteRamLz4 d) ins outs d') :
    Prog.Runs (mainRound payload d) (cmdWriteRamLz4Byte :: ins) outs d' := by
  refine Prog.Runs.bind_getc ?_
  rw [hcontrol]
  exact h

/-- A verdict is one of the two status bytes, and `SUCCESS` only for a positive one. -/
theorem status_spec (ok : Prop) [Decidable ok] :
    ((if ok then statusSuccess else statusFailure) = statusSuccess ∨
      (if ok then statusSuccess else statusFailure) = statusFailure) ∧
    ((if ok then statusSuccess else statusFailure) = statusSuccess → ok) := by
  by_cases h : ok
  · simp [h]
  · rw [if_neg h]
    exact ⟨.inr rfl, fun he => absurd he (by decide)⟩

/-- **One request, one round.** Whatever a write request holds, a round of the command loop reads
    exactly the request, sends one status byte and changes only the memory; `SUCCESS` stands for an
    accepted write. -/
theorem runs_mainRound_request (payload : Nat → Device → Prog Device) (d : Device) (r : Request)
    (hcontrol : d.control = .command) (henc : r.Encodable) (hspare : r.SparesPreloader) :
    ∃ status m', Prog.Runs (mainRound payload d) r.bytes [status] { d with memory := m' } ∧
      (status = statusSuccess ∨ status = statusFailure) ∧
      (status = statusSuccess → r.Accepted m') := by
  cases r with
  | ramWrite address crc body =>
      obtain ⟨ha, hc, hb⟩ := henc
      obtain ⟨hstatus, hsuccess⟩ := status_spec (BitVec.ofNat 32 crc = crc32 body)
      refine ⟨_, _, runs_mainRound_ramWrite payload hcontrol (runs_cmdRamWrite d ha hc hb),
        hstatus, fun h => ?_⟩
      rw [Request.Accepted, (Memory.holds_writeBytes d.memory address body
        (by simp only [addressSpace]; omega)).readBytes_eq]
      exact (hsuccess h).symm
  | writeRamLz4 address outputSize crc body =>
      obtain ⟨ha, ho, hc, hb⟩ := henc
      obtain ⟨hstatus, hsuccess⟩ :=
        status_spec ((lz4WriteResult d.memory address outputSize crc body).1 = true)
      exact ⟨_, _, runs_mainRound_writeRamLz4 payload hcontrol
        (runs_cmdWriteRamLz4 d ha ho hc hb), hstatus,
        fun h => lz4WriteResult_accepted hspare (hsuccess h)⟩

/-! ## Any number of requests -/

/-- The command loop serves a list of requests from `d` to `d'` with these status bytes: each round
    starts at the first byte of its request, whatever follows on the stream, and leaves the stream
    at the first byte behind it. -/
inductive Served (payload : Nat → Device → Prog Device) :
    Device → List Request → List UInt8 → Device → Prop where
  | nil (d : Device) : Served payload d [] [] d
  | cons {d d' d'' : Device} {r : Request} {rs : List Request} {status : UInt8}
      {statuses : List UInt8}
      (hread : ∀ rest, (mainRound payload d).exec (r.bytes ++ rest) = some (d', rest, [status]))
      (hcontrol : d'.control = .command)
      (hstatus : status = statusSuccess ∨ status = statusFailure)
      (hsuccess : status = statusSuccess → r.Accepted d'.memory)
      (hrest : Served payload d' rs statuses d'') :
      Served payload d (r :: rs) (status :: statuses) d''

/-- **The stream stays in step.** Any series of write requests, with arbitrary addresses, sizes,
    bodies and checksums, is served one round and one status byte each; a request is its command
    byte and `fieldsSize` bytes. -/
theorem requests_served (payload : Nat → Device → Prog Device) (rs : List Request)
    (h : ∀ r ∈ rs, r.Encodable ∧ r.SparesPreloader) (d : Device)
    (hcontrol : d.control = .command) :
    (∀ r ∈ rs, r.bytes.length = 1 + r.fieldsSize) ∧
      ∃ statuses d', Served payload d rs statuses d' := by
  constructor
  · intro r _
    have := r.fields_length
    cases r with
    | ramWrite address crc body =>
        simp only [Request.bytes, List.length_cons]
        omega
    | writeRamLz4 address outputSize crc body =>
        simp only [Request.bytes, List.length_cons]
        omega
  · induction rs generalizing d with
    | nil => exact ⟨[], d, .nil d⟩
    | cons r rs ih =>
        obtain ⟨henc, hspare⟩ := h r (List.mem_cons_self ..)
        obtain ⟨status, m', hrun, hstatus, hsuccess⟩ :=
          runs_mainRound_request payload d r hcontrol henc hspare
        obtain ⟨statuses, d'', hserved⟩ :=
          ih (fun r' hr' => h r' (List.mem_cons_of_mem _ hr')) { d with memory := m' } hcontrol
        exact ⟨status :: statuses, d'', .cons hrun.exec_eq hcontrol hstatus hsuccess hserved⟩

/-- An oversized block with a malformed body and a plain write with a wrong checksum. -/
theorem requests_served_malformed :
    ∃ statuses d', Served (fun _ d => pure d)
      ⟨fun _ => 0, ⟨0, 0, 0, 0, 0⟩, 115200, true, .command⟩
      [.writeRamLz4 0x00080000 0x2000 7 [0xFF, 0x47], .ramWrite 0x00080000 9 [1, 2, 3]]
      statuses d' :=
  (requests_served (fun _ d => pure d)
    [.writeRamLz4 0x00080000 0x2000 7 [0xFF, 0x47], .ramWrite 0x00080000 9 [1, 2, 3]]
    (by
      intro r hr
      simp only [List.mem_cons, List.not_mem_nil, or_false] at hr
      rcases hr with rfl | rfl
      · exact ⟨by simp [Request.Encodable],
          (Memory.disjoint_of_le (by decide) (by decide)).symm⟩
      · exact ⟨by simp [Request.Encodable],
          (Memory.disjoint_of_le (by decide) (by decide)).symm⟩)
    ⟨fun _ => 0, ⟨0, 0, 0, 0, 0⟩, 115200, true, .command⟩ rfl).2

end Pmb887x.Preloader
