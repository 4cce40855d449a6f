import Pmb887x.SimReader.Exchange

set_option autoImplicit false

/-! # The slot over whole runs

`Handled` lists what one message can do to the registers and the static data of the slot, and
`meets_mainRound` proves the list complete. The laws of the slot follow from it, one case each: the
speed in the register is the one of the parameters, and the contacts are on exactly while the slot is
reported active. -/

namespace Pmb887x.SimReader

open Library Driver

/-! ## What a message does -/

/-- `SIM_CON` at the end of the activation. -/
def activatedCon : Nat :=
  simConSimen ||| simConSimvcc ||| (simConSimiol ||| simConErroff) ||| simConSimon
    ||| simConUarton ||| simConSimrst

/-- The supply is switched on and the wait for the first byte of the answer to reset fails. -/
def MuteCard (input : Input) : Prop :=
  ∃ b rest, input.supply = b :: true :: rest ∧
    (input.card.head? = some .error ∨ input.card.head? = some .timeout)

/-- The registers and parameters after `sim_power_on` has reached `con`. -/
def Reader.poweredOn (r : Reader) (con : Nat) (active : Bool) : Reader where
  con := con
  brf := simDefaultBrf
  irqen := simIrqenEnokint ||| simIrqenEnpar ||| simIrqenEnovr
  imsc := 0
  t0Parameters := r.t0Parameters
  iccActive := active

/-- What a message can do to the slot. -/
inductive Handled (m : Message) (input : Input) (r : Reader) : Reader → Prop where
  | unchanged : Handled m input r r
  | poweredOff : Handled m input r { r with con := 0, irqen := 0, iccActive := false }
  | activated : Handled m input r
      (({ r with t0Parameters := defaultT0Parameters } : Reader).poweredOn activatedCon true)
  | supplyFailed : Handled m input r
      (({ r with t0Parameters := defaultT0Parameters } : Reader).poweredOn simConSimen false)
  | mute (htype : m.byte ccidOffsetType = pcToRdrIccPowerOn) (hmute : MuteCard input) :
      Handled m input r
        (({ r with t0Parameters := defaultT0Parameters } : Reader).poweredOn activatedCon false)
  | parametersReset : Handled m input r
      { r with t0Parameters := defaultT0Parameters, brf := simDefaultBrf }
  | parametersSet (t0Parameters : List UInt8) : Handled m input r
      { r with t0Parameters := t0Parameters, brf := simFidiToBrf (t0Parameters.getD 0 0) }

/-- A PPS request that is longer than the response buffer, to an active slot. -/
def LongPps (r : Reader) (m : Message) : Prop :=
  r.iccActive = true ∧ m.byte ccidOffsetType = pcToRdrXfrBlock ∧ m.isPps = true ∧
    Buffer.response.size < m.data.length

instance (r : Reader) (m : Message) : Decidable (LongPps r m) := by
  unfold LongPps
  infer_instance

section Handlers

variable {F : Overrun → Prop}

/-- The slot after a program that leaves it alone. -/
theorem Frame.meets {α : Type} {p : Sim α} {Q : α → Prop} {w : World}
    (h : Frame w.reader F p Q) : Meets (fun a w' => w'.reader = w.reader ∧ Q a) F (p w) :=
  h w rfl

theorem simPowerOff_run (w : World) : simPowerOff w =
    match w.input.supply with
    | [] => (.waiting, { w with reader := { w.reader with con := 0, irqen := 0 } })
    | _ :: rest => (.done (), { w with
        reader := { w.reader with con := 0, irqen := 0 }
        input := { w.input with supply := rest } }) := by
  obtain ⟨reader, rxb, buffers, ⟨host, card, supply⟩, toHost, toCard⟩ := w
  cases supply <;> rfl

/-- The first byte decides whether the answer to reset is empty. -/
theorem meets_simReadAtr (w : World) :
    Meets (fun size w' => w'.reader = w.reader ∧
        (size = 0 → w.input.card.head? = some .error ∨ w.input.card.head? = some .timeout))
      F (simReadAtr 0 w) := by
  rw [simReadAtr, if_pos (by decide)]
  obtain ⟨reader, rxb, buffers, ⟨host, card, supply⟩, toHost, toCard⟩ := w
  rcases card with - | ⟨rxb' | - | -, rest⟩
  · trivial
  · have hrest : Frame reader F (storeByte .atr 0 rxb' >>= fun _ => simReadAtr 1) (fun n => 1 ≤ n) :=
      (frame_storeByte (.inl (by decide)) rxb').bind
        (fun _ _ => (frame_simReadAtr (by decide)).mono (fun _ hn => hn.1))
    exact Meets.mono (hrest ⟨reader, rxb', buffers, ⟨host, rest, supply⟩, toHost, toCard⟩ rfl)
      (fun size w' h => ⟨h.1, fun hz => absurd h.2 (by omega)⟩)
  · exact ⟨rfl, fun _ => .inl rfl⟩
  · exact ⟨rfl, fun _ => .inr rfl⟩

/-- How far the activation gets. -/
theorem meets_simPowerOn (w : World) :
    Meets (fun size w' =>
        (w'.reader = w.reader.poweredOn simConSimen w.reader.iccActive ∧ size = 0) ∨
        (w'.reader = w.reader.poweredOn activatedCon w.reader.iccActive ∧
          (size = 0 → MuteCard w.input))) F (simPowerOn w) := by
  obtain ⟨reader, rxb, buffers, ⟨host, card, supply⟩, toHost, toCard⟩ := w
  rcases supply with - | ⟨b, - | ⟨- | -, rest⟩⟩
  · trivial
  · trivial
  · exact .inl ⟨rfl, rfl⟩
  · refine Meets.mono (meets_simReadAtr ⟨reader.poweredOn activatedCon reader.iccActive, rxb,
      buffers, ⟨host, card, rest⟩, toHost, toCard⟩) (fun size w' h => .inr ⟨h.1, fun hz => ?_⟩)
    exact ⟨b, rest, rfl, h.2 hz⟩

theorem meets_hostHandlePowerOn (w : World) {m : Message}
    (htype : m.byte ccidOffsetType = pcToRdrIccPowerOn) :
    Meets (fun _ w' => Handled m w.input w.reader w'.reader) F (hostHandlePowerOn m w) := by
  obtain ⟨reader, rxb, buffers, input, toHost, toCard⟩ := w
  refine (meets_simPowerOn ⟨{ reader with
    t0Parameters := defaultT0Parameters, brf := simDefaultBrf }, rxb, buffers, input, toHost,
    toCard⟩).bind (fun size w₁ h => ?_)
  obtain ⟨reader₁, rxb₁, buffers₁, input₁, toHost₁, toCard₁⟩ := w₁
  by_cases hsize : size = 0
  · subst hsize
    refine Meets.mono ((frame_hostReply m rdrToPcDataBlock true ccidErrorIccMute 0 []).meets)
      (fun _ w' hw' => ?_)
    rw [hw'.1]
    rcases h with ⟨h, -⟩ | ⟨h, hmute⟩
    · dsimp only at h
      rw [h]
      exact .supplyFailed
    · dsimp only at h
      rw [h]
      exact .mute htype (hmute rfl)
  · have hreply : Meets (fun _ w' => w'.reader = { reader₁ with iccActive := true } ∧ True) F
        (hostReply m rdrToPcDataBlock false 0 0 ((List.range size).map (buffers₁ .atr))
          ⟨{ reader₁ with iccActive := true }, rxb₁, buffers₁, input₁, toHost₁, toCard₁⟩) :=
      (frame_hostReply m rdrToPcDataBlock false 0 0 _).meets
    have hrun : ((setReader (fun r => { r with iccActive := decide (size ≠ 0) }) >>= fun _ =>
        (if size = 0 then hostReply m rdrToPcDataBlock true ccidErrorIccMute 0 []
        else do
          let w ← Driver.get
          hostReply m rdrToPcDataBlock false 0 0 (bufferBytes w .atr size)))
        ⟨reader₁, rxb₁, buffers₁, input₁, toHost₁, toCard₁⟩ : Outcome Overrun Unit × World)
        = hostReply m rdrToPcDataBlock false 0 0 ((List.range size).map (buffers₁ .atr))
          ⟨{ reader₁ with iccActive := true }, rxb₁, buffers₁, input₁, toHost₁, toCard₁⟩ := by
      rw [if_neg hsize, decide_eq_true hsize]
      rfl
    rw [hrun]
    refine hreply.mono (fun _ w' hw' => ?_)
    rw [hw'.1]
    rcases h with ⟨-, h⟩ | ⟨h, -⟩
    · exact absurd h hsize
    · dsimp only at h
      rw [h]
      exact .activated

theorem meets_hostHandlePowerOff (w : World) (m : Message) :
    Meets (fun _ w' => Handled m w.input w.reader w'.reader) F (hostHandlePowerOff m w) := by
  obtain ⟨reader, rxb, buffers, ⟨host, card, supply⟩, toHost, toCard⟩ := w
  cases supply with
  | nil => trivial
  | cons b rest =>
      refine Meets.mono ((frame_hostReply m rdrToPcSlotStatus false 0 0 []).meets
        (w := ⟨{ reader with con := 0, irqen := 0, iccActive := false }, rxb, buffers,
          ⟨host, card, rest⟩, toHost, toCard⟩)) (fun _ w' hw' => ?_)
      rw [hw'.1]
      exact .poweredOff

theorem frame_hostHandleXfrBlock {r : Reader} {m : Message}
    (htype : m.byte ccidOffsetType = pcToRdrXfrBlock) (hlen : m.data.length ≤ ccidMaxDataSize)
    (hF : LongPps r m → ∀ o, F o) :
    Frame r F (hostHandleXfrBlock m) (fun _ => True) := by
  refine Frame.get.bind (fun w hw => .ite (fun _ => frame_hostReply _ _ _ _ _ _) (fun hactive => ?_))
  have hiccActive : r.iccActive = true := by
    rw [← hw]
    cases h : w.reader.iccActive with
    | true => rfl
    | false => simp [h] at hactive
  have hexchange : Frame r F (hostExchange m) (fun _ => True) := by
    refine .ite (fun hpps => ?_) (fun _ => (frame_simExchangeTpdu
      (Nat.lt_of_le_of_lt hlen (by decide))).mono (fun _ _ => trivial))
    refine (frame_simExchangePps (fun j hj => ?_)).bind (fun _ _ => .pure trivial)
    by_cases hlong : Buffer.response.size < m.data.length
    · exact .inr (hF ⟨hiccActive, htype, hpps, hlong⟩ _)
    · exact .inl (by omega)
  refine hexchange.bind (fun exchanged _ => ?_)
  cases exchanged with
  | none => exact frame_hostReply _ _ _ _ _ _
  | some size => exact Frame.get.bind (fun _ _ => frame_hostReply _ _ _ _ _ _)

theorem meets_hostHandleSetParameters (w : World) (m : Message) :
    Meets (fun _ w' => Handled m w.input w.reader w'.reader) F (hostHandleSetParameters m w) := by
  unfold hostHandleSetParameters
  by_cases ht0 : m.byte ccidOffsetProtocol = 0 ∧ m.data.length = ccidT0ParametersSize
  · simp only [decide_eq_true ht0, if_true]
    by_cases hbrf : simFidiToBrf (m.data.getD ccidT0Fidi 0) = 0
    · rw [if_pos hbrf]
      refine Meets.mono ((frame_hostReplyParameters m true ccidErrorBadFidi).meets)
        (fun _ w' hw' => ?_)
      rw [hw'.1]
      exact .unchanged
    · rw [if_neg hbrf]
      obtain ⟨reader, rxb, buffers, input, toHost, toCard⟩ := w
      refine Meets.mono ((frame_hostReplyParameters m false 0).meets
        (w := ⟨{ reader with
            t0Parameters := m.data.take ccidT0ParametersSize
            brf := simFidiToBrf (m.data.getD ccidT0Fidi 0) }, rxb, buffers, input, toHost,
          toCard⟩)) (fun _ w' hw' => ?_)
      have hdata : m.data.take ccidT0ParametersSize = m.data :=
        List.take_of_length_le (Nat.le_of_eq ht0.2)
      rw [hw'.1, hdata]
      exact .parametersSet m.data
  · simp only [decide_eq_false ht0, Bool.false_eq_true, if_false, if_true]
    refine Meets.mono ((frame_hostReplyParameters m true ccidErrorBadFidi).meets)
      (fun _ w' hw' => ?_)
    rw [hw'.1]
    exact .unchanged

theorem frame_hostHandleEscape {r : Reader} (m : Message) :
    Triple (fun w => w.reader = r) (hostHandleEscape m) (fun _ w => w.reader = r) F := by
  unfold hostHandleEscape
  refine Triple.ite (fun _ => ?_) (fun _ => ?_)
  · exact (frame_hostReply _ _ _ _ _ _).conseq (fun _ h => h) (fun _ _ h => h.1)
  · refine Triple.bind (frame_hostReply _ _ _ _ _ _) (fun _ => Triple.ite (fun _ => ?_) (fun _ => ?_))
    · -- the phone is switched off: the handler does not come back
      intro w _
      rw [phonePowerOff]
      exact Meets.bind (Q := fun _ _ => True)
        (by rw [simPowerOff_run]; rcases w.input.supply with - | ⟨b, rest⟩ <;> trivial)
        (fun _ _ _ => trivial)
    · exact Triple.pure (fun _ h => h.1)

/-- **One message.** What a handler does to the slot is in the list; only a long PPS request can
    leave a buffer. -/
theorem meets_hostHandleMessage (w : World) {m : Message}
    (hlen : m.data.length ≤ ccidMaxDataSize) :
    Meets (fun _ w' => Handled m w.input w.reader w'.reader) (fun _ => LongPps w.reader m)
      (hostHandleMessage m w) := by
  have hframe : ∀ {p : Sim Unit}, Frame w.reader (fun _ => LongPps w.reader m) p (fun _ => True) →
      Meets (fun _ w' => Handled m w.input w.reader w'.reader) (fun _ => LongPps w.reader m)
        (p w) := by
    intro p h
    refine Meets.mono h.meets (fun _ w' hw' => ?_)
    rw [hw'.1]
    exact .unchanged
  unfold hostHandleMessage
  split_ifs with hon hoff hstatus hxfr hget hreset hset hescape
  · exact meets_hostHandlePowerOn w hon
  · exact meets_hostHandlePowerOff w m
  · exact hframe (frame_hostReply _ _ _ _ _ _)
  · exact hframe (frame_hostHandleXfrBlock hxfr hlen (fun h _ => h))
  · exact hframe (frame_hostReplyParameters _ _ _)
  · obtain ⟨reader, rxb, buffers, input, toHost, toCard⟩ := w
    refine Meets.mono ((frame_hostReplyParameters m false 0).meets
      (w := ⟨{ reader with t0Parameters := defaultT0Parameters, brf := simDefaultBrf }, rxb, buffers,
        input, toHost, toCard⟩)) (fun _ w' hw' => ?_)
    rw [hw'.1]
    exact .parametersReset
  · exact meets_hostHandleSetParameters w m
  · refine Meets.mono (frame_hostHandleEscape m w rfl) (fun _ w' hw' => ?_)
    rw [hw']
    exact .unchanged
  · exact hframe (frame_hostReply _ _ _ _ _ _)

/-- **One pass of the loop.** A message that is not accepted leaves the slot alone. -/
theorem meets_mainRound (w : World) :
    Meets (fun _ w' => w'.reader = w.reader ∨
        ∃ m w₁, hostReadMessage w = (.done (some m), w₁) ∧ Handled m w₁.input w.reader w'.reader)
      (fun _ => ∃ m w₁, hostReadMessage w = (.done (some m), w₁) ∧ LongPps w.reader m)
      (mainRound w) := by
  have hread := (frame_hostReadMessage (r := w.reader) (F := fun _ => False)) w rfl
  rw [mainRound]
  simp only [Bind.bind]
  rcases hmessage : hostReadMessage w with ⟨request | - | e, w₁⟩
  · rw [hmessage] at hread
    obtain ⟨hreader, hlen⟩ := hread
    cases request with
    | none => exact .inl hreader
    | some m =>
        -- the echo only adds to what has been sent
        have hhandle := meets_hostHandleMessage
          { w₁ with toHost := w₁.toHost ++ hostFrame m.header m.data } (hlen m rfl)
        rw [← hreader]
        show Meets _ _ (hostHandleMessage m
          { w₁ with toHost := w₁.toHost ++ hostFrame m.header m.data })
        rcases hrun : hostHandleMessage m
          { w₁ with toHost := w₁.toHost ++ hostFrame m.header m.data } with ⟨u | - | o, w'⟩
        · rw [hrun] at hhandle
          exact .inr ⟨m, w₁, rfl, hhandle⟩
        · trivial
        · rw [hrun] at hhandle
          exact ⟨m, w₁, rfl, hhandle⟩
  · trivial
  · rw [hmessage] at hread
    exact hread.elim

end Handlers

/-! ## Buffers -/

/-- A pass that takes a long PPS request. -/
def LongPpsPass (w : World) : Prop :=
  ∃ m w₁, hostReadMessage w = (.done (some m), w₁) ∧ LongPps w.reader m

/-- **Stores stay in their buffers.** In a run without a PPS request of more than 258 bytes to an
    active slot, no pass stores outside the ATR or the response buffer. -/
theorem mainRound_stays_in_buffers (start : World) :
    ∀ w, AtLoop (fun w => ¬ LongPpsPass w) start w → ∀ input, ¬ LongPpsPass (w.feed input) →
      ∀ o w', mainRound (w.feed input) ≠ (.fault o, w') := by
  intro w _ input hpass o w' hfault
  have h := meets_mainRound (w.feed input)
  rw [hfault] at h
  exact hpass h

/-- The frame that carries a message to the reader. -/
def requestBytes (type : UInt8) (data : List UInt8) : List UInt8 :=
  hostFrame [type, UInt8.ofNat data.length, UInt8.ofNat (data.length >>> 8), 0, 0, 0, 0, 0, 0, 0]
    data

/-- The reader at power-up. -/
def coldStart : World where
  reader := { con := 0, brf := simDefaultBrf, irqen := 0, imsc := 0, t0Parameters := [], iccActive := false }
  rxb := 0
  buffers := fun _ _ => 0
  input := { host := [], card := [], supply := [] }
  toHost := []
  toCard := []

/-- The reader when its loop starts. -/
def ready : World := (mainStart coldStart).2

/-- A power-up that the card answers with one byte. -/
def powerOnInput : Input where
  host := requestBytes pcToRdrIccPowerOn []
  card := [.ok 0x3B, .timeout]
  supply := [true, true]

theorem atLoop_ready (P : World → Prop) : AtLoop P coldStart ready := .init rfl

/-- One more pass, by running it. -/
theorem AtLoop.pass {P : World → Prop} {start w : World} (h : AtLoop P start w) (input : Input)
    (hP : P (w.feed input)) (hdone : (mainRound (w.feed input)).1 = .done ()) :
    AtLoop P start (mainRound (w.feed input)).2 :=
  .step h hP (Prod.fst_eq_iff.mp hdone)

theorem not_longPpsPass {w : World} {m : Message} (hread : (hostReadMessage w).1 = .done (some m))
    (hlong : ¬ LongPps w.reader m) : ¬ LongPpsPass w := by
  rintro ⟨m', w₁, h, hlong'⟩
  rw [h] at hread
  injection hread with hread
  injection hread with hread
  exact hlong (hread ▸ hlong')

/-- A PPS request of four bytes to an active slot. -/
def shortPpsInput : Input where
  host := requestBytes pcToRdrXfrBlock [0xFF, 0x10, 0x11, 0xFE]
  card := List.replicate 8 (.ok 0xFF)
  supply := []

theorem mainRound_stays_in_buffers_short_pps :
    ¬ ∃ o w', mainRound ((mainRound (ready.feed powerOnInput)).2.feed shortPpsInput)
      = (.fault o, w') := by
  rintro ⟨o, w', hfault⟩
  refine mainRound_stays_in_buffers coldStart (mainRound (ready.feed powerOnInput)).2 ?_
    shortPpsInput ?_ o w' hfault
  · refine (atLoop_ready _).pass powerOnInput ?_ (by decide +kernel)
    exact not_longPpsPass (m := ⟨[pcToRdrIccPowerOn, 0, 0, 0, 0, 0, 0, 0, 0, 0], []⟩)
      (by decide) (by decide)
  · exact not_longPpsPass
      (m := ⟨[pcToRdrXfrBlock, 4, 0, 0, 0, 0, 0, 0, 0, 0], [0xFF, 0x10, 0x11, 0xFE]⟩)
      (by decide +kernel) (by decide +kernel)

/-- A PPS request of 261 bytes that the card echoes. -/
def longPpsInput : Input where
  host := requestBytes pcToRdrXfrBlock (List.replicate 261 0xFF)
  card := List.replicate 522 (.ok 0xFF)
  supply := []

/-- The echo of a PPS request of 261 bytes leaves the response buffer. -/
theorem mainRound_long_pps_overruns :
    ¬ ∀ start w, AtLoop (fun _ => True) start w → ∀ input o w',
      mainRound (w.feed input) ≠ (.fault o, w') := by
  intro h
  have hrun : AtLoop (fun _ => True) coldStart (mainRound (ready.feed powerOnInput)).2 :=
    (atLoop_ready _).pass powerOnInput trivial (by decide +kernel)
  have hfault : (mainRound ((mainRound (ready.feed powerOnInput)).2.feed longPpsInput)).1
      = .fault ⟨.response, 258⟩ := by decide +kernel
  exact h coldStart _ hrun longPpsInput _ _ (Prod.fst_eq_iff.mp hfault)

/-! ## The speed -/

/-- The speed register follows the parameters. -/
def SpeedMatches (r : Reader) : Prop := r.brf = simFidiToBrf (r.t0Parameters.getD ccidT0Fidi 0)

/-- The default speed is the one of the default parameters. -/
theorem speedMatches_default :
    simDefaultBrf = simFidiToBrf (defaultT0Parameters.getD ccidT0Fidi 0) := by decide

theorem SpeedMatches.handled {m : Message} {input : Input} {r r' : Reader} (h : SpeedMatches r)
    (hh : Handled m input r r') : SpeedMatches r' := by
  cases hh with
  | unchanged => exact h
  | poweredOff => exact h
  | activated => exact speedMatches_default
  | supplyFailed => exact speedMatches_default
  | mute => exact speedMatches_default
  | parametersReset => exact speedMatches_default
  | parametersSet t0Parameters => exact Eq.refl _

theorem speedMatches_atLoop {P : World → Prop} {start w : World} (h : AtLoop P start w) :
    SpeedMatches w.reader := by
  induction h with
  | init h =>
      cases h
      exact speedMatches_default
  | @step w w' input _ _ hrun ih =>
      have hpass := meets_mainRound (w.feed input)
      rw [hrun] at hpass
      rcases hpass with hsame | ⟨m, w₁, -, hhandled⟩
      · rw [hsame]
        exact ih
      · exact ih.handled hhandled

/-- The answer to SET_PARAMETERS says whether the parameters have been taken. -/
theorem hostHandleSetParameters_run (m : Message) (w : World) :
    ∃ w' failed error, hostHandleSetParameters m w = (.done (), w') ∧
      w'.toHost = w.toHost ++ hostFrame (replyHeader m rdrToPcParameters w.reader.iccActive failed
        error 0 w'.reader.t0Parameters.length) w'.reader.t0Parameters ∧
      (w'.reader = w.reader ∨ error = 0) := by
  obtain ⟨reader, rxb, buffers, input, toHost, toCard⟩ := w
  unfold hostHandleSetParameters
  by_cases hbrf : (if decide (m.byte ccidOffsetProtocol = 0 ∧
      m.data.length = ccidT0ParametersSize) = true
      then simFidiToBrf (m.data.getD ccidT0Fidi 0) else 0) = 0
  · simp only [hbrf, if_true]
    exact ⟨_, true, ccidErrorBadFidi, rfl, rfl, .inl rfl⟩
  · simp only [hbrf, if_false]
    exact ⟨_, false, 0, rfl, rfl, .inr rfl⟩

/-- The error byte of a reply, as the host finds it in the frame. -/
theorem hostFrame_error (m : Message) (type : UInt8) (active failed : Bool) (error specific : UInt8)
    (size : Nat) (data : List UInt8) :
    (hostFrame (replyHeader m type active failed error specific size) data).getD
      (2 + ccidOffsetError) 0 = error := rfl

/-- **The speed in use is the one that is reported.** Whenever the loop waits for a message, the
    speed register holds the speed of the current parameters; a request for other parameters that is
    answered with BAD_FIDI changes neither. -/
theorem speed_follows_parameters (start : World) :
    (∀ w, AtLoop (fun _ => True) start w →
      w.reader.brf = simFidiToBrf (w.reader.t0Parameters.getD ccidT0Fidi 0)) ∧
    ∀ w m w₁ w' reply, hostReadMessage w = (.done (some m), w₁) →
      m.byte ccidOffsetType = pcToRdrSetParameters → mainRound w = (.done (), w') →
      w'.toHost = w₁.toHost ++ hostFrame m.header m.data ++ reply →
      reply.getD (2 + ccidOffsetError) 0 = ccidErrorBadFidi →
      w'.reader.t0Parameters = w.reader.t0Parameters ∧ w'.reader.brf = w.reader.brf := by
  refine ⟨fun w h => speedMatches_atLoop h, ?_⟩
  intro w m w₁ w' reply hread htype hrun hsent herror
  have hreader : w₁.reader = w.reader := by
    have := (frame_hostReadMessage (r := w.reader) (F := fun _ => False)) w rfl
    rw [hread] at this
    exact this.1
  obtain ⟨w'', failed, error, hset, hreply, hkind⟩ := hostHandleSetParameters_run m
    { w₁ with toHost := w₁.toHost ++ hostFrame m.header m.data }
  have hround : mainRound w = (.done (), w'') := by
    rw [mainRound]
    simp only [Bind.bind, hread]
    show hostHandleMessage m { w₁ with toHost := w₁.toHost ++ hostFrame m.header m.data } = _
    rw [hostHandleMessage]
    simp only [htype]
    exact hset
  obtain rfl : w'' = w' := (Prod.mk.inj (hround.symm.trans hrun)).2
  rcases hkind with hsame | hzero
  · rw [hsame]
    exact ⟨by rw [← hreader], by rw [← hreader]⟩
  · -- a request that has been taken is answered without an error
    have heq := List.append_cancel_left (hsent.symm.trans hreply)
    rw [heq, hostFrame_error, hzero] at herror
    exact absurd herror (by decide)

/-- A request for the parameters that begin with `fidi`. -/
def setParametersInput (fidi : UInt8) : Input where
  host := requestBytes pcToRdrSetParameters [fidi, 0, 0, 0x0A, 0]
  card := []
  supply := []

theorem speed_follows_parameters_bad_fidi :
    (mainRound (ready.feed (setParametersInput 0x94))).2.reader.brf = 512 / 8 / 4 ∧
    (mainRound (ready.feed (setParametersInput 0x10))).2.reader.t0Parameters
      = ready.reader.t0Parameters ∧
    (mainRound (ready.feed (setParametersInput 0x10))).2.reader.brf = ready.reader.brf := by
  refine ⟨?_, ?_⟩
  · rw [(speed_follows_parameters coldStart).1 _
      ((atLoop_ready _).pass (setParametersInput 0x94) trivial (by decide))]
    decide
  · exact (speed_follows_parameters coldStart).2 (ready.feed (setParametersInput 0x10))
      ⟨[pcToRdrSetParameters, 5, 0, 0, 0, 0, 0, 0, 0, 0], [0x10, 0, 0, 0x0A, 0]⟩ _ _
      (hostFrame [rdrToPcParameters, 5, 0, 0, 0, 0, 0, 0x41, ccidErrorBadFidi, 0]
        defaultT0Parameters)
      (Prod.fst_eq_iff.mp (by decide)) (by decide)
      (Prod.fst_eq_iff.mp (by decide)) (by decide) (by decide)

/-! ## The contacts -/

/-- The contacts that belong to an active card. -/
def contacts : List Nat := [simConSimvcc, simConSimon, simConUarton, simConSimrst]

/-- The contacts are on while the slot is reported active, and off while it is not. -/
def ContactsMatch (r : Reader) : Prop :=
  ∀ bit ∈ contacts, r.con &&& bit = if r.iccActive then bit else 0

theorem ContactsMatch.handled {m : Message} {input : Input} {r r' : Reader} (h : ContactsMatch r)
    (hh : Handled m input r r')
    (hmute : ¬ (m.byte ccidOffsetType = pcToRdrIccPowerOn ∧ MuteCard input)) :
    ContactsMatch r' := by
  cases hh with
  | unchanged => exact h
  | poweredOff => simp [ContactsMatch]
  | activated => exact (by decide : ∀ bit ∈ contacts, activatedCon &&& bit = bit)
  | supplyFailed => exact (by decide : ∀ bit ∈ contacts, simConSimen &&& bit = 0)
  | mute htype hcard => exact absurd ⟨htype, hcard⟩ hmute
  | parametersReset => exact h
  | parametersSet t0Parameters => exact h

/-- A pass that powers a card up which does not answer. -/
def MutePass (w : World) : Prop :=
  ∃ m w₁, hostReadMessage w = (.done (some m), w₁) ∧
    m.byte ccidOffsetType = pcToRdrIccPowerOn ∧ MuteCard w₁.input

/-- **The contacts follow the report.** From the reset value of `SIM_CON` on, in every run in which
    a card that is powered up sends at least one byte. -/
theorem contactsMatch_atLoop (start : World) (hcon : start.reader.con = 0)
    (hactive : start.reader.iccActive = false) (w : World)
    (h : AtLoop (fun w => ¬ MutePass w) start w) : ContactsMatch w.reader := by
  induction h with
  | init h =>
      cases h
      simp [ContactsMatch, hcon, hactive]
  | @step w w' input _ hP hrun ih =>
      have hpass := meets_mainRound (w.feed input)
      rw [hrun] at hpass
      rcases hpass with hsame | ⟨m, w₁, hread, hhandled⟩
      · rw [hsame]
        exact ih
      · exact ih.handled hhandled (fun hmute => hP ⟨m, w₁, hread, hmute⟩)

theorem not_mutePass {w : World} {m : Message} (hread : (hostReadMessage w).1 = .done (some m))
    (hmute : m.byte ccidOffsetType = pcToRdrIccPowerOn →
      (hostReadMessage w).2.input.card.head? ≠ some .error ∧
      (hostReadMessage w).2.input.card.head? ≠ some .timeout) : ¬ MutePass w := by
  rintro ⟨m', w₁, h, htype, b, rest, -, hcard⟩
  rw [h] at hread hmute
  injection hread with hread
  injection hread with hread
  obtain ⟨herror, htimeout⟩ := hmute (hread ▸ htype)
  exact hcard.elim herror htimeout

theorem contactsMatch_atLoop_answer :
    ContactsMatch (mainRound (ready.feed powerOnInput)).2.reader := by
  refine contactsMatch_atLoop coldStart rfl rfl _ ((atLoop_ready _).pass powerOnInput ?_
    (by decide +kernel))
  exact not_mutePass (m := ⟨[pcToRdrIccPowerOn, 0, 0, 0, 0, 0, 0, 0, 0, 0], []⟩)
    (by decide) (by decide)

/-- A power-up that the card does not answer. -/
def muteInput : Input where
  host := requestBytes pcToRdrIccPowerOn []
  card := [.timeout]
  supply := [true, true]

/-- A card that does not answer is reported inactive with its contacts on. -/
theorem mute_card_keeps_contacts :
    ¬ ∀ start w, start.reader.con = 0 → start.reader.iccActive = false →
      AtLoop (fun _ => True) start w → ContactsMatch w.reader := by
  intro h
  have hrun : AtLoop (fun _ => True) coldStart (mainRound (ready.feed muteInput)).2 :=
    (atLoop_ready _).pass muteInput trivial (by decide +kernel)
  have hvcc := h coldStart _ rfl rfl hrun simConSimvcc (by decide)
  exact absurd hvcc (by decide +kernel)

end Pmb887x.SimReader
