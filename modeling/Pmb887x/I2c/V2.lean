import Pmb887x.I2c.Buffers

set_option autoImplicit false

/-! # The polling I2C driver (`lib/i2c-v2.c`)

The controller is told the number of bytes once, in `TPSCTRL`, and asks for each word with a
request bit in `RIS`; `PIRQSS` shows NACK, the end of the transmission and the receive mode. The
driver polls every one of them at most `I2C_POLL_LIMIT` times. -/

namespace Pmb887x.I2c.V2

open Library

/-- The registers the driver uses. -/
inductive Register where
  | runctrl
  | enddctrl
  | busstat
  | mrpsctrl
  | rpsstat
  | tpsctrl
  | ffsstat
  | errirqss
  | errirqsc
  | pirqss
  | pirqsc
  | ris
  | icr
  | txd
  | rxd
  deriving DecidableEq

def pollLimit : Nat := 1000000

def statusClearMask : UInt32 := 0x3F
def protocolClearMask : UInt32 := 0x7F
def errorClearMask : UInt32 := 0x0F

/-- `I2C_REQUESTS`: last single, single, last burst and burst request -/
def requests : UInt32 := bit 0 ||| bit 1 ||| bit 2 ||| bit 3

def runctrlRUN : UInt32 := bit 0
def enddctrlSETEND : UInt32 := bit 1

/-- `I2C_BUSSTAT_BS`; the bus is free at 0 -/
def busstatBS : UInt32 := 3

/-- `I2C_RPSSTAT_RPS`, received packet size -/
def rpsstatRPS : UInt32 := 0x3FFF

/-- `I2C_FFSSTAT_FFS`, filled FIFO stages -/
def ffsstatFFS : UInt32 := 0x3F

def pirqssNACK : UInt32 := bit 4
def pirqssTXEND : UInt32 := bit 5
def pirqssRX : UInt32 := bit 6

/-! ## The driver -/

def statusClear : Mmio Register Unit := do
  Mmio.write .icr statusClearMask
  Mmio.write .pirqsc protocolClearMask
  Mmio.write .errirqsc errorClearMask

/-- The loop of `transfer_abort` that waits for a free bus. -/
def busWait : (polls : Nat) → Mmio Register Unit
  | 0 => pure ()
  | polls + 1 => do
      let v ← Mmio.read .busstat
      if v &&& busstatBS = 0 then pure () else busWait polls

def transferAbort : Mmio Register Unit := do
  Mmio.write .enddctrl enddctrlSETEND
  busWait pollLimit
  Mmio.write .runctrl 0
  Mmio.write .runctrl runctrlRUN
  statusClear

/-- `(status & I2C_PIRQSS_NACK) != 0 || I2C_ERRIRQSS != 0`: the error register is only read when
there is no NACK. -/
def failed (status : UInt32) : Mmio Register Bool :=
  if status &&& pirqssNACK ≠ 0 then pure true
  else do
    let v ← Mmio.read .errirqss
    pure (v != 0)

/-- The loop of `request_wait`. -/
def requestPoll : (polls : Nat) → Mmio Register UInt32
  | 0 => pure 0
  | polls + 1 => do
      let v ← Mmio.read .ris
      if v &&& requests ≠ 0 then pure (v &&& requests)
      else do
        let status ← Mmio.read .pirqss
        let bad ← failed status
        if bad then pure 0 else requestPoll polls

def requestWait : Mmio Register UInt32 := requestPoll pollLimit

/-- The loop of `transfer_wait`. -/
def transferPoll : (polls : Nat) → Mmio Register Bool
  | 0 => pure false
  | polls + 1 => do
      let status ← Mmio.read .pirqss
      let bad ← failed status
      if bad then pure false
      else if status &&& pirqssTXEND ≠ 0 then pure true
      else transferPoll polls

def transferWait : Mmio Register Bool := transferPoll pollLimit

/-- What `i2c_hw_write` has still to take: the address byte, then prefix and data with the counts
that `byte_get` counts down. -/
structure Source where
  addressPending : Bool
  address : UInt8
  prefixAt : Nat
  prefixSize : Nat
  data : Nat
  size : Nat

/-- The next byte of the word: the address byte, or `byte_get`. -/
def byteGet (mem : Memory) (source : Source) : UInt8 × Source :=
  if source.addressPending then
    (source.address <<< 1, { source with addressPending := false })
  else if source.prefixSize ≠ 0 then
    (mem.read source.prefixAt 0,
      { source with prefixSize := source.prefixSize - 1, prefixAt := source.prefixAt + 1 })
  else
    (mem.read source.data 0, { source with size := source.size - 1, data := source.data + 1 })

/-- `for (offset = …; offset < count; offset++)` of `i2c_hw_write`, for `count - offset` bytes. -/
def fillWord (mem : Memory) : (left : Nat) → Source → (value : UInt32) → (offset : Nat) →
    UInt32 × Source
  | 0, source, value, _ => (value, source)
  | left + 1, source, value, offset =>
      let next := byteGet mem source
      fillWord mem left next.2 (value ||| next.1.toUInt32 <<< UInt32.ofNat (offset * 8)) (offset + 1)

/-- `while (remaining != 0)` of `i2c_hw_write`: true if it ran to its end, false if it aborted the
transfer. -/
def sendWords (mem : Memory) (source : Source) (remaining : Nat) : Mmio Register Bool :=
  if _h : remaining = 0 then pure true
  else do
    let request ← requestWait
    if request = 0 then do
      transferAbort
      pure false
    else do
      let count := min remaining 4
      let filled := fillWord mem count source 0 0
      Mmio.write .txd filled.1
      Mmio.write .icr request
      sendWords mem filled.2 (remaining - count)
  termination_by remaining
  decreasing_by omega

/-- `if (complete) status_clear(); else transfer_abort();` -/
def transferEnd (complete : Bool) : Mmio Register Unit :=
  if complete then statusClear else transferAbort

/-- `i2c_hw_write`; `total` is a `uint32_t`. -/
def hwWrite (mem : Memory) (args : WriteArgs) : Mmio Register Bool := do
  let total := wrap32 (args.prefixSize + args.size + 1)
  statusClear
  Mmio.write .tpsctrl (UInt32.ofNat total)
  let sent ← sendWords mem
    { addressPending := true, address := args.address, prefixAt := args.prefixAt,
      prefixSize := args.prefixSize, data := args.data, size := args.size } total
  if sent then do
    let complete ← transferWait
    transferEnd complete
    pure complete
  else pure false

/-- A word is taken when the controller receives, asks and has one, and bytes are left; the FIFO
is only looked at when it asks. -/
def wordReady (receiving : Bool) (request : UInt32) (remaining : Nat) : Mmio Register Bool :=
  if receiving = true ∧ request ≠ 0 then do
    let v ← Mmio.read .ffsstat
    pure (v &&& ffsstatFFS != 0 && remaining != 0)
  else pure false

/-- The `if` of `i2c_hw_read` that takes a word; it gives the number of bytes stored. -/
def takeWord (ready : Bool) (request : UInt32) (data remaining : Nat) : Mmio Register Nat :=
  if ready then do
    let value ← Mmio.read .rxd
    let count := min remaining 4
    storeWord value count 0 data
    Mmio.write .icr request
    pure count
  else pure 0

/-- The polling loop of `i2c_hw_read`. -/
def receiveWords (size : Nat) : (polls : Nat) → (receiving : Bool) → (data remaining : Nat) →
    Mmio Register Bool
  | 0, _, _, _ => pure false
  | polls + 1, receiving, data, remaining => do
      let protocolStatus ← Mmio.read .pirqss
      let bad ← failed protocolStatus
      if bad then pure false
      else do
        let receiving := receiving || protocolStatus &&& pirqssRX != 0
        let v ← Mmio.read .ris
        let request := v &&& requests
        let ready ← wordReady receiving request remaining
        let count ← takeWord ready request data remaining
        if remaining - count = 0 ∧ protocolStatus &&& pirqssTXEND ≠ 0 then do
          let rps ← Mmio.read .rpsstat
          pure ((rps &&& rpsstatRPS).toNat == size)
        else receiveWords size polls receiving (data + count) (remaining - count)

/-- `i2c_hw_read` -/
def hwRead (address : UInt8) (data size : Nat) : Mmio Register Bool :=
  if size = 0 then pure true
  else do
    statusClear
    Mmio.write .mrpsctrl (UInt32.ofNat size)
    Mmio.write .tpsctrl 1
    let request ← requestWait
    if request = 0 then do
      transferAbort
      pure false
    else do
      Mmio.write .txd ((address.toUInt32 <<< 1) ||| 1)
      Mmio.write .icr request
      let complete ← receiveWords size pollLimit false data size
      transferEnd complete
      pure complete

/-! ## Packing -/

/-- The bytes `i2c_hw_write` can still take. -/
def Source.pending (mem : Memory) (source : Source) : List UInt8 :=
  (if source.addressPending then [source.address <<< 1] else []) ++
    (mem.readBytes source.prefixAt 0 source.prefixSize ++
      mem.readBytes source.data 0 source.size)

/-- The address byte comes first, then the prefix, then the data. -/
theorem byteGet_pending {mem : Memory} {source : Source} (h : source.pending mem ≠ []) :
    source.pending mem = (byteGet mem source).1 :: (byteGet mem source).2.pending mem := by
  unfold byteGet
  by_cases ha : source.addressPending
  · rw [if_pos ha]
    simp [Source.pending, ha]
  · rw [if_neg ha]
    by_cases hp : source.prefixSize ≠ 0
    · obtain ⟨n, hn⟩ := Nat.exists_eq_succ_of_ne_zero hp
      rw [if_pos hp]
      simp [Source.pending, ha, hn, readBytes_succ]
    · rw [not_not] at hp
      have hs : source.size ≠ 0 := fun hs => h (by simp [Source.pending, ha, hp, hs])
      obtain ⟨n, hn⟩ := Nat.exists_eq_succ_of_ne_zero hs
      rw [if_neg (not_not.2 hp)]
      simp [Source.pending, ha, hp, hn, readBytes_succ]

/-- The loop over the offsets fills the word with the bytes that come next. -/
theorem fillWord_spec (mem : Memory) {left : Nat} (source : Source) (bs : List UInt8)
    (h4 : bs.length + left ≤ 4) (hleft : left ≤ (source.pending mem).length) :
    let filled := fillWord mem left source (word bs) bs.length
    filled.1 = word (bs ++ (source.pending mem).take left) ∧
      filled.2.pending mem = (source.pending mem).drop left := by
  induction left generalizing source bs with
  | zero => simp [fillWord]
  | succ left ih =>
      have hne : source.pending mem ≠ [] := by
        intro hnil
        simp [hnil] at hleft
      have hnext := byteGet_pending hne
      rw [hnext, List.length_cons] at hleft
      unfold fillWord
      rw [hnext]
      have hih := ih (byteGet mem source).2 (bs ++ [(byteGet mem source).1])
        (by rw [List.length_append, List.length_singleton]; omega) (by omega)
      rw [← word_snoc (by omega)] at hih
      simpa [List.append_assoc] using hih

/-- A word filled from its first byte on. -/
theorem fillWord_zero (mem : Memory) {left : Nat} {source : Source} (h4 : left ≤ 4)
    (hleft : left ≤ (source.pending mem).length) :
    (fillWord mem left source 0 0).1 = word ((source.pending mem).take left) ∧
      (fillWord mem left source 0 0).2.pending mem = (source.pending mem).drop left :=
  fillWord_spec mem source [] (by simpa using h4) hleft

/-! ## What the polling leaves alone -/

/-- Accesses that send, declare, receive and store nothing. -/
def Quiet (l : List (Access Register)) : Prop :=
  Access.written .txd l = [] ∧ Access.written .tpsctrl l = [] ∧ Access.received .rxd l = [] ∧
    Access.stored l = []

theorem Quiet.nil : Quiet [] := ⟨rfl, rfl, rfl, rfl⟩

theorem Quiet.append {l m : List (Access Register)} (hl : Quiet l) (hm : Quiet m) :
    Quiet (l ++ m) := by
  obtain ⟨h1, h2, h3, h4⟩ := hl
  obtain ⟨k1, k2, k3, k4⟩ := hm
  exact ⟨by simp [h1, k1], by simp [h2, k2], by simp [h3, k3], by simp [h4, k4]⟩

theorem Quiet.delivers {rx : Nat} {l : List (Access Register)} (h : Quiet l) :
    Delivers .rxd rx [] l := Delivers.nil h.2.2.2 h.2.2.1

/-- A program all of whose accesses are quiet. -/
def Silent {α : Type} (p : Mmio Register α) : Prop := Mmio.Runs p (fun _ l => Quiet l)

namespace Silent

variable {α β : Type}

theorem pure (a : α) : Silent (Pure.pure a : Mmio Register α) := Mmio.Runs.pure Quiet.nil

theorem bind {p : Mmio Register α} {f : α → Mmio Register β} (hp : Silent p)
    (hf : ∀ a, Silent (f a)) : Silent (p >>= f) :=
  Mmio.Runs.bind hp fun a _ hl => (hf a).mono fun _ _ hm => hl.append hm

theorem ite {c : Prop} [Decidable c] {p q : Mmio Register α} (hp : Silent p) (hq : Silent q) :
    Silent (if c then p else q) := Mmio.Runs.ite (fun _ => hp) (fun _ => hq)

theorem read {r : Register} (h : r ≠ .rxd) : Silent (Mmio.read r) :=
  Mmio.Runs.read fun v => ⟨rfl, rfl, Access.received_read_of_ne h v [], rfl⟩

theorem write {r : Register} (v : UInt32) (h : r ≠ .txd) (h' : r ≠ .tpsctrl) :
    Silent (Mmio.write r v) :=
  Mmio.Runs.write ⟨Access.written_write_of_ne h v [], Access.written_write_of_ne h' v [], rfl, rfl⟩

end Silent

theorem statusClear_silent : Silent statusClear :=
  (Silent.write _ (by decide) (by decide)).bind fun _ =>
    (Silent.write _ (by decide) (by decide)).bind fun _ => Silent.write _ (by decide) (by decide)

theorem busWait_silent (polls : Nat) : Silent (busWait polls) := by
  induction polls with
  | zero => exact Silent.pure ()
  | succ polls ih => exact (Silent.read (by decide)).bind fun v => Silent.ite (Silent.pure ()) ih

theorem transferAbort_silent : Silent transferAbort :=
  (Silent.write _ (by decide) (by decide)).bind fun _ => (busWait_silent _).bind fun _ =>
    (Silent.write _ (by decide) (by decide)).bind fun _ =>
      (Silent.write _ (by decide) (by decide)).bind fun _ => statusClear_silent

theorem failed_silent (status : UInt32) : Silent (failed status) :=
  Silent.ite (Silent.pure true) ((Silent.read (by decide)).bind fun _ => Silent.pure _)

theorem requestPoll_silent (polls : Nat) : Silent (requestPoll polls) := by
  induction polls with
  | zero => exact Silent.pure 0
  | succ polls ih =>
      exact (Silent.read (by decide)).bind fun v => Silent.ite (Silent.pure _) <|
        (Silent.read (by decide)).bind fun status => (failed_silent status).bind fun _ =>
          Silent.ite (Silent.pure 0) ih

theorem transferPoll_silent (polls : Nat) : Silent (transferPoll polls) := by
  induction polls with
  | zero => exact Silent.pure false
  | succ polls ih =>
      exact (Silent.read (by decide)).bind fun status => (failed_silent status).bind fun _ =>
        Silent.ite (Silent.pure false) (Silent.ite (Silent.pure true) ih)

theorem transferEnd_silent (complete : Bool) : Silent (transferEnd complete) :=
  Silent.ite statusClear_silent transferAbort_silent

/-! ## Writing -/

/-- The accesses declare the counts `totals` and hand the pieces `cs` to the controller. -/
def Sends (totals : List UInt32) (cs : List (List UInt8)) (l : List (Access Register)) : Prop :=
  Access.written .tpsctrl l = totals ∧ Access.written .txd l = cs.map word

theorem Quiet.sends {l : List (Access Register)} (h : Quiet l) : Sends [] [] l := ⟨h.2.1, h.1⟩

theorem Sends.append {ts us : List UInt32} {cs ds : List (List UInt8)}
    {l m : List (Access Register)} (hl : Sends ts cs l) (hm : Sends us ds m) :
    Sends (ts ++ us) (cs ++ ds) (l ++ m) :=
  ⟨by rw [Access.written_append, hl.1, hm.1],
    by rw [Access.written_append, hl.2, hm.2, List.map_append]⟩

/-- **Writing, request by request.** Whatever the controller shows, `i2c_hw_write` hands over a
beginning of the packing of the bytes it still has to send, and runs to the end of its loop only
after all of it. -/
theorem sendWords_runs (mem : Memory) (source : Source) (remaining : Nat)
    (h : remaining ≤ (source.pending mem).length) :
    Mmio.Runs (sendWords mem source remaining) (fun sent l => ∃ cs, Sends [] cs l ∧
      cs <+: wordChunks ((source.pending mem).take remaining) ∧
        (sent = true → cs = wordChunks ((source.pending mem).take remaining))) := by
  induction remaining using Nat.strongRecOn generalizing source with
  | ind remaining ih =>
      unfold sendWords
      by_cases hzero : remaining = 0
      · rw [dif_pos hzero]
        exact Mmio.Runs.pure ⟨[], Quiet.nil.sends, List.nil_prefix, fun _ => by simp [hzero]⟩
      · rw [dif_neg hzero]
        refine Mmio.Runs.bind (requestPoll_silent pollLimit) fun request l hl => ?_
        refine Mmio.Runs.ite (fun _ => ?_) (fun _ => ?_)
        · refine Mmio.Runs.bind transferAbort_silent fun _ m hm => Mmio.Runs.pure ⟨[], ?_,
            List.nil_prefix, fun h => absurd h (by decide)⟩
          exact (hl.append (hm.append Quiet.nil)).sends
        · have hcount : min remaining 4 ≤ (source.pending mem).length := by omega
          obtain ⟨hvalue, hrest⟩ := fillWord_zero mem (Nat.min_le_right remaining 4) hcount
          refine Mmio.Runs.write_bind <| Mmio.Runs.write_bind <|
            (ih (remaining - min remaining 4) (by omega) _ ?_).mono ?_
          · rw [hrest, List.length_drop]
            omega
          · rintro sent m ⟨cs, hm, hcs, hsent⟩
            rw [hrest] at hcs hsent
            rw [wordChunks_take hzero h, hvalue]
            refine ⟨_ :: cs, ?_, (List.prefix_cons_inj _).2 hcs, fun h => by rw [hsent h]⟩
            have hword : Sends [] [(source.pending mem).take (min remaining 4)]
                [.write .txd (word ((source.pending mem).take (min remaining 4))),
                  .write .icr request] := ⟨rfl, rfl⟩
            exact hl.sends.append (hword.append hm)

/-- `i2c_hw_write` declares `total` once, hands over a beginning of the packing of the first `total`
bytes of its frame, and returns true only after all of it. -/
theorem hwWrite_runs (mem : Memory) (args : WriteArgs) :
    Mmio.Runs (hwWrite mem args) (fun ok l => ∃ cs,
      Sends [UInt32.ofNat (wrap32 (args.frame mem).length)] cs l ∧
        cs <+: wordChunks ((args.frame mem).take (wrap32 (args.frame mem).length)) ∧
        (ok = true → cs = wordChunks ((args.frame mem).take (wrap32 (args.frame mem).length)))) := by
  have htotal : wrap32 (args.prefixSize + args.size + 1) ≤ (args.frame mem).length := by
    rw [args.frame_length mem]
    exact Nat.mod_le _ _
  rw [args.frame_length mem]
  refine Mmio.Runs.bind statusClear_silent fun _ k hk => Mmio.Runs.write_bind ?_
  have hhead : Sends [UInt32.ofNat (wrap32 (args.prefixSize + args.size + 1))] []
      (k ++ [.write .tpsctrl (UInt32.ofNat (wrap32 (args.prefixSize + args.size + 1)))]) :=
    hk.sends.append ⟨rfl, rfl⟩
  refine Mmio.Runs.bind (sendWords_runs mem _ _ htotal) ?_
  rintro sent l ⟨cs, hl, hcs, hsent⟩
  refine Mmio.Runs.ite (fun h => ?_) (fun _ => Mmio.Runs.pure ?_)
  · refine Mmio.Runs.bind (transferPoll_silent pollLimit) fun complete m hm => ?_
    refine Mmio.Runs.bind (transferEnd_silent complete) fun _ n hn => Mmio.Runs.pure ?_
    refine ⟨cs, ?_, hcs, fun _ => hsent h⟩
    simpa using hhead.append (hl.append (hm.append hn).sends)
  · refine ⟨cs, ?_, hcs, fun h => absurd h (by decide)⟩
    simpa using hhead.append hl

/-! ## Reading -/

/-- `data` moves on by the bytes stored, `remaining` is counted down by them. -/
theorem takeWord_runs (ready : Bool) (request : UInt32) (data remaining : Nat) :
    Mmio.Runs (takeWord ready request data remaining) (fun count l => ∃ bs, bs.length = count ∧
      count ≤ remaining ∧ Delivers .rxd data bs l) := by
  refine Mmio.Runs.ite (fun _ => ?_) (fun _ => ?_)
  · refine Mmio.Runs.read_bind fun value => ?_
    refine Mmio.Runs.bind (storeWord_runs .rxd value (min remaining 4) 0 data (by simp)) ?_
    rintro _ l ⟨hs, hr⟩
    rw [Nat.pow_zero, Nat.div_one] at hs
    refine Mmio.Runs.write_bind <| Mmio.Runs.pure ⟨leBytes (min remaining 4) value.toNat,
      leBytes_length _ _, Nat.min_le_left _ _, Delivers.word (Nat.min_le_right _ _) ?_ ?_⟩
    · simpa using hs
    · simpa using hr
  · exact Mmio.Runs.pure ⟨[], rfl, Nat.zero_le _, Delivers.nil rfl rfl⟩

theorem wordReady_silent (receiving : Bool) (request : UInt32) (remaining : Nat) :
    Silent (wordReady receiving request remaining) :=
  Silent.ite ((Silent.read (by decide)).bind fun _ => Silent.pure _) (Silent.pure false)

/-- **Reading, poll by poll.** Whatever the controller shows, the polling loop stores received
bytes one after the other, at most those left, and returns true only after all of them. -/
theorem receiveWords_runs (size polls : Nat) (receiving : Bool) (data remaining : Nat) :
    Mmio.Runs (receiveWords size polls receiving data remaining) (fun ok l => ∃ bs,
      bs.length ≤ remaining ∧ Delivers .rxd data bs l ∧ (ok = true → bs.length = remaining)) := by
  induction polls generalizing receiving data remaining with
  | zero =>
      exact Mmio.Runs.pure
        ⟨[], Nat.zero_le _, Delivers.nil rfl rfl, fun h => absurd h (by decide)⟩
  | succ polls ih =>
      unfold receiveWords
      refine Mmio.Runs.read_bind fun status => ?_
      refine Mmio.Runs.bind (failed_silent status) fun bad k hk => ?_
      have hhead : Quiet (.read .pirqss status :: k) := hk
      refine Mmio.Runs.ite (fun _ => ?_) (fun _ => ?_)
      · refine Mmio.Runs.pure ⟨[], Nat.zero_le _, ?_, fun h => absurd h (by decide)⟩
        simpa using hhead.delivers
      · refine Mmio.Runs.read_bind fun v => ?_
        refine Mmio.Runs.bind (wordReady_silent _ _ _) fun ready l hl => ?_
        refine Mmio.Runs.bind (takeWord_runs ready _ data remaining) ?_
        rintro _ m ⟨bs, rfl, hle, hbs⟩
        have hquiet : Quiet (.read .pirqss status :: (k ++ .read .ris v :: l)) :=
          hhead.append (show Quiet (.read .ris v :: l) from hl)
        have hsofar : Delivers .rxd data bs (.read .pirqss status :: (k ++ .read .ris v :: l) ++ m) :=
          hquiet.delivers.append hbs
        refine Mmio.Runs.ite (fun hend => ?_) (fun _ => ?_)
        · refine Mmio.Runs.read_bind fun rps => Mmio.Runs.pure ⟨bs, hle, ?_, fun _ => ?_⟩
          · have hrps : Quiet [.read .rpsstat rps] := ⟨rfl, rfl, rfl, rfl⟩
            simpa using hsofar.append hrps.delivers
          · exact Nat.le_antisymm hle (Nat.sub_eq_zero_iff_le.1 hend.1)
        · refine (ih _ (data + bs.length) (remaining - bs.length)).mono ?_
          rintro ok n ⟨cs, hcs, hn, hok⟩
          refine ⟨bs ++ cs, ?_, ?_, fun h => ?_⟩
          · rw [List.length_append]
            omega
          · simpa using hsofar.append hn
          · rw [List.length_append, hok h]
            omega

/-- `i2c_hw_read` stores at most `size` bytes, consecutively from `data`, and returns true only
after all of them. -/
theorem hwRead_runs (address : UInt8) (data size : Nat) :
    Mmio.Runs (hwRead address data size) (fun ok l => ∃ bs, bs.length ≤ size ∧
      Delivers .rxd data bs l ∧ (ok = true → bs.length = size)) := by
  refine Mmio.Runs.ite (fun h => ?_) (fun _ => ?_)
  · exact Mmio.Runs.pure ⟨[], Nat.zero_le _, Delivers.nil rfl rfl, fun _ => h.symm⟩
  · refine Mmio.Runs.bind statusClear_silent fun _ k hk => ?_
    refine Mmio.Runs.write_bind <| Mmio.Runs.write_bind <| ?_
    refine Mmio.Runs.bind (requestPoll_silent pollLimit) fun request l hl => ?_
    have hhead : Delivers .rxd data [] (k ++ .write .mrpsctrl (UInt32.ofNat size) ::
        .write .tpsctrl 1 :: l) :=
      hk.delivers.append (show Delivers .rxd data [] (.write .mrpsctrl _ :: .write .tpsctrl 1 :: l)
        from hl.delivers)
    refine Mmio.Runs.ite (fun _ => ?_) (fun _ => ?_)
    · refine Mmio.Runs.bind transferAbort_silent fun _ m hm => Mmio.Runs.pure
        ⟨[], Nat.zero_le _, ?_, fun h => absurd h (by decide)⟩
      simpa using hhead.append hm.delivers
    · refine Mmio.Runs.write_bind <| Mmio.Runs.write_bind <| ?_
      refine Mmio.Runs.bind (receiveWords_runs size pollLimit false data size) ?_
      rintro complete m ⟨bs, hle, hbs, hok⟩
      refine Mmio.Runs.bind (transferEnd_silent complete) fun _ n hn => Mmio.Runs.pure
        ⟨bs, hle, ?_, hok⟩
      have hdata : Delivers .rxd data bs (m ++ n) := by
        simpa using hbs.append hn.delivers
      have htail : Delivers .rxd data bs (.write .txd ((address.toUInt32 <<< 1) ||| 1) ::
          .write .icr request :: (m ++ n)) := hdata
      simpa using hhead.append htail

end Pmb887x.I2c.V2
