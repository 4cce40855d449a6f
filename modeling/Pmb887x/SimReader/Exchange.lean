import Pmb887x.SimReader.Main

set_option autoImplicit false

/-! # Input, output and the exchange with the card

Every function below the handlers leaves registers and static data of the slot alone; `Frame r F p Q`
says so, together with what the result is worth and which overruns are possible. The stores of a
TPDU exchange stay in the response buffer: what the card sends is bounded by the length that the
header announces (`Counts`). A PPS exchange stores as many bytes as the host has sent. -/

namespace Pmb887x.SimReader

open Library Driver

variable {α β : Type} {r : Reader} {F : Overrun → Prop}

/-- The program leaves the reader as it is, its result is in `Q`, and its faults are in `F`. -/
def Frame (r : Reader) (F : Overrun → Prop) (p : Sim α) (Q : α → Prop) : Prop :=
  Triple (fun w => w.reader = r) p (fun a w => w.reader = r ∧ Q a) F

namespace Frame

variable {p : Sim α} {Q Q' : α → Prop}

theorem pure {a : α} (h : Q a) : Frame r F (Pure.pure a) Q := fun _ hw => ⟨hw, h⟩

theorem bind {f : α → Sim β} {R : β → Prop} (hp : Frame r F p Q)
    (hf : ∀ a, Q a → Frame r F (f a) R) : Frame r F (p >>= f) R :=
  Triple.bind hp (fun a w hw => hf a hw.2 w hw.1)

theorem mono (h : Frame r F p Q) (hQ : ∀ a, Q a → Q' a) : Frame r F p Q' :=
  Triple.conseq h (fun _ hw => hw) (fun a _ hw => ⟨hw.1, hQ a hw.2⟩)

theorem ite {c : Prop} [Decidable c] {q : Sim α} (ht : c → Frame r F p Q) (he : ¬ c → Frame r F q Q) :
    Frame r F (if c then p else q) Q :=
  Triple.ite ht he

theorem get : Frame r F Driver.get (fun w => w.reader = r) := fun _ hw => ⟨hw, hw⟩

theorem wait : Frame r F (Driver.wait : Sim α) Q := Triple.wait

/-- A change outside the reader. -/
theorem modify {f : World → World} (h : ∀ w, (f w).reader = w.reader) :
    Frame r F (Driver.modify f) (fun _ => True) :=
  fun w hw => ⟨(h w).trans hw, trivial⟩

end Frame

/-! ## Bytes from and to the card -/

theorem frame_storeByte {buffer : Buffer} {index : Nat}
    (h : index < buffer.size ∨ F ⟨buffer, index⟩) (value : UInt8) :
    Frame r F (storeByte buffer index value) (fun _ => True) := by
  rw [storeByte]
  refine .ite (fun _ => .modify (fun _ => rfl)) (fun hout => ?_)
  exact fun _ _ => h.resolve_left hout

theorem frame_simWaitOk : Frame r F simWaitOk (fun _ => True) := by
  refine Frame.get.bind (fun w _ => ?_)
  rcases w.input.card with - | ⟨- | - | -, rest⟩
  · exact .wait
  · exact Frame.bind (.modify (fun _ => by rfl)) (fun _ _ => .pure trivial)
  · exact Frame.bind (.modify (fun _ => by rfl)) (fun _ _ => .pure trivial)
  · exact Frame.bind (.modify (fun _ => by rfl)) (fun _ _ => .pure trivial)

theorem frame_simSendByte (value : UInt8) : Frame r F (simSendByte value) (fun _ => True) :=
  Frame.bind (.modify (fun _ => by rfl)) (fun _ _ => frame_simWaitOk)

theorem frame_simReceiveByte : Frame r F simReceiveByte (fun _ => True) := by
  refine frame_simWaitOk.bind (fun ok _ => .ite (fun _ => ?_) (fun _ => .pure trivial))
  exact Frame.get.bind (fun _ _ => .pure trivial)

theorem frame_simSendBytes (bytes : List UInt8) : Frame r F (simSendBytes bytes) (fun _ => True) := by
  induction bytes with
  | nil => exact .pure trivial
  | cons b rest ih =>
      exact (frame_simSendByte b).bind (fun sent _ => .ite (fun _ => .pure trivial) (fun _ => ih))

/-- The answer to reset fits its buffer. -/
theorem frame_simReadAtr {size : Nat} (hsize : size ≤ simMaxAtrSize) :
    Frame r F (simReadAtr size) (fun n => size ≤ n ∧ n ≤ simMaxAtrSize) := by
  fun_induction simReadAtr size with
  | case1 size hlt ih =>
      refine frame_simReceiveByte.bind (fun received _ => ?_)
      cases received with
      | none => exact .pure ⟨Nat.le_refl _, hsize⟩
      | some value =>
          exact (frame_storeByte (.inl hlt) value).bind
            (fun _ _ => (ih hlt).mono (fun n hn => ⟨Nat.le_of_succ_le hn.1, hn.2⟩))
  | case2 size _ => exact .pure ⟨Nat.le_refl _, hsize⟩

theorem frame_simReceiveProcedureLoop (n : Nat) :
    Frame r F (simReceiveProcedureLoop n) (fun _ => True) := by
  induction n with
  | zero => exact .wait
  | succ n ih =>
      refine frame_simReceiveByte.bind (fun received _ => ?_)
      cases received with
      | none => exact .pure trivial
      | some value => exact .ite (fun _ => ih) (fun _ => .pure trivial)

theorem frame_simReceiveProcedure : Frame r F simReceiveProcedure (fun _ => True) :=
  Frame.get.bind (fun _ _ => frame_simReceiveProcedureLoop _)

/-! ## The TPDU exchange -/

/-- The counters of `sim_exchange_tpdu`: a command with data stores nothing before the status bytes,
    one without has stored what it has transferred, at most 256 bytes. -/
def Counts (txData : Option (List UInt8)) (size transferred responseSize : Nat) : Prop :=
  transferred ≤ size ∧ size < 2 ^ 32 ∧
    match txData with
    | some _ => responseSize = 0
    | none => responseSize = transferred ∧ size ≤ simMaxDataSize

theorem Counts.responseSize_le {txData : Option (List UInt8)} {size transferred responseSize : Nat}
    (h : Counts txData size transferred responseSize) : responseSize ≤ simMaxDataSize := by
  obtain ⟨hle, -, hkind⟩ := h
  cases txData with
  | some data => exact hkind ▸ Nat.zero_le _
  | none => exact hkind.1 ▸ Nat.le_trans hle hkind.2

theorem frame_simTransferChunk {txData : Option (List UInt8)} {size : Nat} (chunk : Nat) :
    ∀ {transferred responseSize : Nat}, Counts txData size transferred responseSize →
      transferred + chunk ≤ size →
      Frame r F (simTransferChunk txData chunk transferred responseSize)
        (fun moved => ∀ t n, moved = some (t, n) → Counts txData size t n) := by
  induction chunk with
  | zero =>
      intro transferred responseSize hcounts _
      refine .pure ?_
      rintro t n ⟨⟩
      exact hcounts
  | succ chunk ih =>
      intro transferred responseSize hcounts hroom
      obtain ⟨hle, hlt, hkind⟩ := hcounts
      cases txData with
      | some data =>
          refine (frame_simSendByte _).bind (fun sent _ => .ite (fun _ => .pure ?_) (fun _ => ?_))
          · rintro t n ⟨⟩
          · exact ih ⟨by omega, hlt, hkind⟩ (by omega)
      | none =>
          obtain ⟨rfl, hmax⟩ := hkind
          refine frame_simReceiveByte.bind (fun received _ => ?_)
          cases received with
          | none =>
              refine .pure ?_
              rintro t n ⟨⟩
          | some value =>
              have hindex : responseSize < Buffer.response.size := by
                simp only [Buffer.size, simStatusSize]
                omega
              exact (frame_storeByte (.inl hindex) value).bind
                (fun _ _ => ih ⟨by omega, hlt, rfl, hmax⟩ (by omega))

/-- A chunk never goes past the announced length. -/
theorem simChunk_le {ins procedure : UInt8} {size transferred chunk : Nat} (hle : transferred ≤ size)
    (hlt : size < 2 ^ 32) (h : simChunk ins procedure size transferred = some chunk) :
    transferred + chunk ≤ size := by
  unfold simChunk at h
  split_ifs at h with h₁ h₂ h₃
  · rw [sub32_of_le hle hlt] at h
    obtain rfl := Option.some.inj h
    omega
  · obtain rfl := Option.some.inj h
    omega
  · obtain rfl := Option.some.inj h
    omega

/-- The response of an exchange: what was counted, and two status bytes. -/
theorem frame_simExchangeLoop {ins : UInt8} {txData : Option (List UInt8)} {size : Nat} (n : Nat) :
    ∀ {transferred responseSize : Nat}, Counts txData size transferred responseSize →
      Frame r F (simExchangeLoop ins txData size n transferred responseSize)
        (fun result => ∀ n, result = some n → n ≤ Buffer.response.size) := by
  induction n with
  | zero => intro transferred responseSize _; exact .wait
  | succ n ih =>
      intro transferred responseSize hcounts
      have hmax := hcounts.responseSize_le
      have hsize : Buffer.response.size = simMaxDataSize + 2 := rfl
      refine frame_simReceiveProcedure.bind (fun received _ => ?_)
      cases received with
      | none => exact .pure (by simp)
      | some procedure =>
          dsimp only
          cases hchunk : simChunk ins procedure size transferred with
          | some chunk =>
              refine (frame_simTransferChunk chunk hcounts
                (simChunk_le hcounts.1 hcounts.2.1 hchunk)).bind (fun moved hmoved => ?_)
              cases moved with
              | none => exact .pure (by simp)
              | some counters => exact ih (hmoved _ _ rfl)
          | none =>
              refine (frame_storeByte (.inl (by omega)) procedure).bind (fun _ _ => ?_)
              refine frame_simReceiveByte.bind (fun last _ => ?_)
              cases last with
              | none => exact .pure (by simp)
              | some value =>
                  refine (frame_storeByte (.inl (by omega)) value).bind (fun _ _ => .pure ?_)
                  rintro n ⟨⟩
                  omega

theorem simHeaderToDataSize_le (header : List UInt8) :
    simHeaderToDataSize header ≤ simMaxDataSize := by
  have := (header.getD simHeaderP3 0).toNat_lt
  unfold simHeaderToDataSize simMaxDataSize
  split <;> omega

/-- A TPDU exchange stays in the response buffer, whatever the card sends. -/
theorem frame_simExchangeTpdu {tpdu : List UInt8} (h : tpdu.length < 2 ^ 32) :
    Frame r F (simExchangeTpdu tpdu)
      (fun result => ∀ n, result = some n → n ≤ Buffer.response.size) := by
  refine (frame_simSendBytes _).bind (fun sent _ => .ite (fun _ => .pure (by simp)) (fun _ => ?_))
  refine Frame.get.bind (fun w _ => frame_simExchangeLoop _ ?_)
  have hmax := simHeaderToDataSize_le tpdu
  by_cases hdata : tpdu.length > simHeaderSize
  · simp only [if_pos hdata]
    exact ⟨Nat.zero_le _, by omega, rfl⟩
  · simp only [if_neg hdata]
    exact ⟨Nat.zero_le _, Nat.lt_of_le_of_lt hmax (by decide), rfl, hmax⟩

/-! ## The PPS exchange -/

theorem frame_simReceivePps {size i : Nat}
    (h : ∀ j, j < size → j < Buffer.response.size ∨ F ⟨.response, j⟩) :
    Frame r F (simReceivePps size i) (fun _ => True) := by
  fun_induction simReceivePps size i with
  | case1 i hlt ih =>
      refine frame_simReceiveByte.bind (fun received _ => ?_)
      cases received with
      | none => exact .pure trivial
      | some value =>
          exact (frame_storeByte (h i hlt) value).bind (fun _ _ => ih)
  | case2 i _ => exact .pure trivial

theorem frame_simExchangePps {request : List UInt8}
    (h : ∀ j, j < request.length → j < Buffer.response.size ∨ F ⟨.response, j⟩) :
    Frame r F (simExchangePps request) (fun _ => True) :=
  (frame_simSendBytes request).bind
    (fun _ _ => .ite (fun _ => .pure trivial) (fun _ => frame_simReceivePps h))

/-! ## Messages of the host -/

theorem frame_hostReadByte : Frame r F hostReadByte (fun _ => True) := by
  refine Frame.get.bind (fun w _ => ?_)
  rcases w.input.host with - | ⟨b, rest⟩
  · exact .wait
  · exact Frame.bind (.modify (fun _ => by rfl)) (fun _ _ => .pure trivial)

theorem frame_hostReadBytes (n : Nat) :
    Frame r F (hostReadBytes n) (fun bytes => bytes.length = n) := by
  induction n with
  | zero => exact .pure rfl
  | succ n ih =>
      exact frame_hostReadByte.bind (fun b _ => ih.bind (fun rest hrest => .pure (by simp [hrest])))

theorem frame_hostAwaitSync (n : Nat) : Frame r F (hostAwaitSync n) (fun _ => True) := by
  induction n with
  | zero => exact .wait
  | succ n ih =>
      exact frame_hostReadByte.bind (fun b _ => .ite (fun _ => ih) (fun _ => .pure trivial))

/-- A message that is accepted has at most 261 data bytes. -/
theorem frame_hostReadMessage :
    Frame r F hostReadMessage (fun m => ∀ m', m = some m' → m'.data.length ≤ ccidMaxDataSize) := by
  refine Frame.get.bind (fun w _ => (frame_hostAwaitSync _).bind (fun _ _ => ?_))
  refine frame_hostReadByte.bind (fun second _ => .ite (fun _ => .pure (by simp)) (fun _ => ?_))
  refine (frame_hostReadBytes _).bind (fun header _ => ?_)
  refine .ite (fun _ => .pure (by simp)) (fun hsize => ?_)
  refine (frame_hostReadBytes _).bind (fun data hdata => frame_hostReadByte.bind (fun last _ => ?_))
  refine .ite (fun _ => .pure ?_) (fun _ => .pure (by simp))
  rintro m' ⟨⟩
  exact hdata ▸ Nat.le_of_not_lt hsize

theorem frame_hostWrite (bytes : List UInt8) : Frame r F (hostWrite bytes) (fun _ => True) :=
  .modify (fun _ => rfl)

theorem frame_hostReply (request : Message) (type : UInt8) (failed : Bool) (error specific : UInt8)
    (data : List UInt8) :
    Frame r F (hostReply request type failed error specific data) (fun _ => True) :=
  Frame.get.bind (fun _ _ => frame_hostWrite _)

theorem frame_hostReplyParameters (request : Message) (failed : Bool) (error : UInt8) :
    Frame r F (hostReplyParameters request failed error) (fun _ => True) :=
  Frame.get.bind (fun _ _ => frame_hostReply _ _ _ _ _ _)

end Pmb887x.SimReader
