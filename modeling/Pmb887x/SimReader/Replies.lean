import Pmb887x.SimReader.Exchange

set_option autoImplicit false

/-! # One reply for each message

Below the handlers nothing is sent to the host and nothing of it is read (`Calm`). A handler that comes back
has sent one reply, a frame with the sequence number of its message; one that waits for the card has sent
nothing yet (`Answers`). -/

namespace Pmb887x.SimReader

open Library Driver

variable {α β : Type}

/-! ## Nothing sent, nothing read -/

/-- The link to the host is as it was, and the parameters keep their size. -/
structure Calm (w w' : World) : Prop where
  toHost : w'.toHost = w.toHost
  host : w'.input.host = w.input.host
  t0Parameters : w.reader.t0Parameters.length = ccidT0ParametersSize →
    w'.reader.t0Parameters.length = ccidT0ParametersSize

instance : Std.Refl Calm := ⟨fun _ => ⟨rfl, rfl, id⟩⟩

instance : IsTrans World Calm :=
  ⟨fun _ _ _ h h' => ⟨h'.toHost.trans h.toHost, h'.host.trans h.host,
    fun hlen => h'.t0Parameters (h.t0Parameters hlen)⟩⟩

theorem calm_setReader {f : Reader → Reader}
    (h : ∀ r : Reader, r.t0Parameters.length = ccidT0ParametersSize →
      (f r).t0Parameters.length = ccidT0ParametersSize) : Follows Calm (setReader f) :=
  .modify fun w => ⟨rfl, rfl, h w.reader⟩

theorem calm_setCon (value : Nat) : Follows Calm (setCon value) := calm_setReader fun _ h => h

theorem calm_orCon (bits : Nat) : Follows Calm (orCon bits) := calm_setReader fun _ h => h

theorem calm_setBrf (value : Nat) : Follows Calm (setBrf value) := calm_setReader fun _ h => h

theorem calm_setIrqen (value : Nat) : Follows Calm (setIrqen value) := calm_setReader fun _ h => h

theorem calm_storeByte (buffer : Buffer) (index : Nat) (value : UInt8) :
    Follows Calm (storeByte buffer index value) :=
  .ite (fun _ => .modify fun _ => ⟨rfl, rfl, id⟩) (fun _ => .fault _)

theorem calm_simWaitOk : Follows Calm simWaitOk := by
  refine Follows.get.bind (fun w => ?_)
  rcases w.input.card with - | ⟨- | - | -, rest⟩
  · exact .wait
  · exact Follows.bind (.modify fun _ => ⟨rfl, rfl, id⟩) (fun _ => .pure _)
  · exact Follows.bind (.modify fun _ => ⟨rfl, rfl, id⟩) (fun _ => .pure _)
  · exact Follows.bind (.modify fun _ => ⟨rfl, rfl, id⟩) (fun _ => .pure _)

theorem calm_simSendByte (value : UInt8) : Follows Calm (simSendByte value) :=
  Follows.bind (.modify fun _ => ⟨rfl, rfl, id⟩) (fun _ => calm_simWaitOk)

theorem calm_simReceiveByte : Follows Calm simReceiveByte := by
  refine calm_simWaitOk.bind (fun ok => .ite (fun _ => ?_) (fun _ => .pure _))
  exact Follows.get.bind (fun _ => .pure _)

theorem calm_simSupplySet (enabled : Bool) : Follows Calm (simSupplySet enabled) := by
  refine Follows.get.bind (fun w => ?_)
  rcases w.input.supply with - | ⟨ok, rest⟩
  · exact .wait
  · exact Follows.bind (.modify fun _ => ⟨rfl, rfl, id⟩) (fun _ => .pure _)

theorem calm_simPowerOff : Follows Calm simPowerOff := by
  refine (calm_setCon 0).bind (fun _ => (calm_setIrqen 0).bind (fun _ => ?_))
  exact (calm_simSupplySet false).bind (fun _ => .pure _)

theorem calm_simReadAtr (size : Nat) : Follows Calm (simReadAtr size) := by
  fun_induction simReadAtr size with
  | case1 size _ ih =>
      refine calm_simReceiveByte.bind (fun received => ?_)
      cases received with
      | none => exact .pure _
      | some value => exact (calm_storeByte _ _ _).bind (fun _ => ih)
  | case2 size _ => exact .pure _

theorem calm_simPowerOn : Follows Calm simPowerOn := by
  have himsc : Follows Calm (setReader fun r => { r with imsc := 0 }) := calm_setReader fun _ h => h
  refine calm_simPowerOff.bind (fun _ => (calm_setBrf _).bind (fun _ => ?_))
  refine (calm_setIrqen _).bind (fun _ => himsc.bind (fun _ => (calm_setCon _).bind (fun _ => ?_)))
  refine (calm_simSupplySet true).bind (fun supplied => .ite (fun _ => .pure _) (fun _ => ?_))
  refine (calm_orCon _).bind (fun _ => (calm_orCon _).bind (fun _ => (calm_orCon _).bind (fun _ => ?_)))
  exact (calm_orCon _).bind (fun _ => (calm_orCon _).bind (fun _ => calm_simReadAtr 0))

theorem calm_simReceiveProcedureLoop (n : Nat) : Follows Calm (simReceiveProcedureLoop n) := by
  induction n with
  | zero => exact .wait
  | succ n ih =>
      refine calm_simReceiveByte.bind (fun received => ?_)
      cases received with
      | none => exact .pure _
      | some value => exact .ite (fun _ => ih) (fun _ => .pure _)

theorem calm_simReceiveProcedure : Follows Calm simReceiveProcedure :=
  Follows.get.bind (fun _ => calm_simReceiveProcedureLoop _)

theorem calm_simSendBytes (bytes : List UInt8) : Follows Calm (simSendBytes bytes) := by
  induction bytes with
  | nil => exact .pure _
  | cons b rest ih =>
      exact (calm_simSendByte b).bind (fun sent => .ite (fun _ => .pure _) (fun _ => ih))

theorem calm_simTransferChunk (txData : Option (List UInt8)) (chunk transferred responseSize : Nat) :
    Follows Calm (simTransferChunk txData chunk transferred responseSize) := by
  induction chunk generalizing transferred responseSize with
  | zero => exact .pure _
  | succ chunk ih =>
      cases txData with
      | some data =>
          exact (calm_simSendByte _).bind
            (fun sent => .ite (fun _ => .pure _) (fun _ => ih _ _))
      | none =>
          refine calm_simReceiveByte.bind (fun received => ?_)
          cases received with
          | none => exact .pure _
          | some value => exact (calm_storeByte _ _ _).bind (fun _ => ih _ _)

theorem calm_simExchangeLoop (ins : UInt8) (txData : Option (List UInt8)) (size n : Nat)
    (transferred responseSize : Nat) :
    Follows Calm (simExchangeLoop ins txData size n transferred responseSize) := by
  induction n generalizing transferred responseSize with
  | zero => exact .wait
  | succ n ih =>
      refine calm_simReceiveProcedure.bind (fun received => ?_)
      cases received with
      | none => exact .pure _
      | some procedure =>
          dsimp only
          cases simChunk ins procedure size transferred with
          | some chunk =>
              refine (calm_simTransferChunk _ _ _ _).bind (fun moved => ?_)
              cases moved with
              | none => exact .pure _
              | some counters => exact ih _ _
          | none =>
              refine (calm_storeByte _ _ _).bind (fun _ => calm_simReceiveByte.bind (fun last => ?_))
              cases last with
              | none => exact .pure _
              | some value => exact (calm_storeByte _ _ _).bind (fun _ => .pure _)

theorem calm_simExchangeTpdu (tpdu : List UInt8) : Follows Calm (simExchangeTpdu tpdu) := by
  refine (calm_simSendBytes _).bind (fun sent => .ite (fun _ => .pure _) (fun _ => ?_))
  exact Follows.get.bind (fun _ => calm_simExchangeLoop _ _ _ _ _ _)

theorem calm_simReceivePps (size i : Nat) : Follows Calm (simReceivePps size i) := by
  fun_induction simReceivePps size i with
  | case1 i _ ih =>
      refine calm_simReceiveByte.bind (fun received => ?_)
      cases received with
      | none => exact .pure _
      | some value => exact (calm_storeByte _ _ _).bind (fun _ => ih)
  | case2 i _ => exact .pure _

theorem calm_hostExchange (request : Message) : Follows Calm (hostExchange request) := by
  refine .ite (fun _ => ?_) (fun _ => calm_simExchangeTpdu _)
  refine Follows.bind ((calm_simSendBytes _).bind fun sent => .ite (fun _ => .pure _) fun _ => ?_)
    (fun _ => .pure _)
  exact calm_simReceivePps _ _

/-! ## Sizes of responses -/

theorem Frame.yields {p : Sim α} {Q : α → Prop} (h : ∀ r, Frame r (fun _ => True) p Q) :
    Yields p Q := by
  intro w a w' hrun
  have hmeets := h w.reader w rfl
  rw [hrun] at hmeets
  exact hmeets.2

theorem yields_simPowerOn : Yields simPowerOn (· ≤ simMaxAtrSize) := by
  have hatr : Yields (simReadAtr 0) (· ≤ simMaxAtrSize) :=
    Frame.yields fun r => (frame_simReadAtr (Nat.zero_le _)).mono fun n hn => hn.2
  unfold simPowerOn
  refine Yields.any.bind fun _ _ => Yields.any.bind fun _ _ => Yields.any.bind fun _ _ => ?_
  refine Yields.any.bind fun _ _ => Yields.any.bind fun _ _ => Yields.any.bind fun supplied _ => ?_
  refine .ite (fun _ => .pure (Nat.zero_le _)) fun _ => ?_
  refine Yields.any.bind fun _ _ => Yields.any.bind fun _ _ => Yields.any.bind fun _ _ => ?_
  exact Yields.any.bind fun _ _ => Yields.any.bind fun _ _ => hatr

/-- A response is not longer than its buffer or, of a PPS exchange, than the request. -/
theorem yields_hostExchange {request : Message} (hlen : request.data.length ≤ ccidMaxDataSize) :
    Yields (hostExchange request) (fun result => ∀ n, result = some n → n ≤ ccidMaxDataSize) := by
  refine .ite (fun _ => ?_) (fun _ => ?_)
  · refine Yields.any.bind fun exchanged _ => .pure ?_
    intro n hn
    cases exchanged with
    | false => cases hn
    | true =>
        obtain rfl := Option.some.inj hn
        exact hlen
  · have hroom : request.data.length < 2 ^ 32 := Nat.lt_of_le_of_lt hlen (by decide)
    have hsize : Buffer.response.size ≤ ccidMaxDataSize := by decide
    exact Frame.yields fun r => (frame_simExchangeTpdu hroom).mono
      fun result hresult n hn => Nat.le_trans (hresult n hn) hsize

/-! ## Replies -/

/-- What `host_reply` sends. -/
def replyFrame (request : Message) (type : UInt8) (active failed : Bool) (error specific : UInt8)
    (data : List UInt8) : List UInt8 :=
  hostFrame (replyHeader request type active failed error specific data.length) data

/-- One reply has been sent and nothing has been read, or the reader still waits for the card and has sent
nothing. -/
def AnswerOf (request : Message) (w : World) : Outcome Overrun Unit × World → Prop
  | (.done _, w') => ∃ type active failed error specific data, data.length < 2 ^ 16 ∧
      w'.toHost = w.toHost ++ replyFrame request type active failed error specific data ∧
      w'.input.host = w.input.host ∧ w'.reader.t0Parameters.length = ccidT0ParametersSize
  | (.waiting, w') => w'.toHost = w.toHost ∧ w'.input.host = w.input.host
  | (.fault _, _) => True

def Answers (request : Message) (p : Sim Unit) : Prop :=
  ∀ w : World, w.reader.t0Parameters.length = ccidT0ParametersSize → AnswerOf request w (p w)

variable {request : Message}

/-- An answer behind steps that send nothing is one from before them. -/
theorem AnswerOf.of_calm {w w₁ : World} {r : Outcome Overrun Unit × World} (hcalm : Calm w w₁)
    (h : AnswerOf request w₁ r) : AnswerOf request w r := by
  rcases r with ⟨a | - | o, w'⟩
  · obtain ⟨type, active, failed, error, specific, data, hdata, hsent, hhost, hlen⟩ := h
    exact ⟨type, active, failed, error, specific, data, hdata, hcalm.toHost ▸ hsent,
      hhost.trans hcalm.host, hlen⟩
  · exact ⟨h.1.trans hcalm.toHost, h.2.trans hcalm.host⟩
  · trivial

/-- The composition rule: quiet steps, and then an answer. -/
theorem Answers.bind {p : Sim α} {Q : α → Prop} {f : α → Sim Unit} (hp : Follows Calm p)
    (hQ : Yields p Q) (hf : ∀ a, Q a → Answers request (f a)) : Answers request (p >>= f) := by
  intro w hlen
  have hcalm := hp w
  rcases hrun : p w with ⟨a | - | o, w₁⟩
  · rw [hrun] at hcalm
    rw [bind_done hrun]
    exact .of_calm hcalm (hf a (hQ w a w₁ hrun) w₁ (hcalm.t0Parameters hlen))
  · rw [hrun] at hcalm
    rw [bind_waiting hrun]
    exact ⟨hcalm.toHost, hcalm.host⟩
  · rw [bind_fault hrun]
    trivial

/-- A look at the state in front of an answer. -/
theorem Answers.get_bind {f : World → Sim Unit}
    (hf : ∀ w : World, w.reader.t0Parameters.length = ccidT0ParametersSize →
      AnswerOf request w (f w w)) : Answers request (Driver.get >>= f) := hf

theorem Answers.ite {c : Prop} [Decidable c] {p q : Sim Unit} (ht : c → Answers request p)
    (he : ¬ c → Answers request q) : Answers request (if c then p else q) := by
  split
  · next h => exact ht h
  · next h => exact he h

theorem answers_hostReply (type : UInt8) (failed : Bool) (error specific : UInt8)
    {data : List UInt8} (hdata : data.length < 2 ^ 16) :
    Answers request (hostReply request type failed error specific data) :=
  fun w hlen => ⟨type, w.reader.iccActive, failed, error, specific, data, hdata, rfl, rfl, hlen⟩

theorem answers_hostReplyParameters (failed : Bool) (error : UInt8) :
    Answers request (hostReplyParameters request failed error) := by
  refine .get_bind fun w hlen => answers_hostReply _ _ _ _ ?_ w hlen
  rw [hlen]
  decide

theorem bufferBytes_length (w : World) (buffer : Buffer) (size : Nat) :
    (bufferBytes w buffer size).length = size := by simp [bufferBytes]

theorem calm_t0ParametersReset : Follows Calm t0ParametersReset :=
  Follows.bind (calm_setReader fun _ _ => rfl) (fun _ => calm_setBrf _)

theorem answers_hostHandlePowerOn : Answers request (hostHandlePowerOn request) := by
  refine .bind calm_t0ParametersReset .any fun _ _ => ?_
  refine .bind calm_simPowerOn yields_simPowerOn fun size hsize => ?_
  refine .bind (calm_setReader fun _ h => h) .any fun _ _ => ?_
  refine .ite (fun _ => answers_hostReply _ _ _ _ (by decide)) fun _ => ?_
  refine .get_bind fun w hlen => answers_hostReply _ _ _ _ ?_ w hlen
  rw [bufferBytes_length]
  exact Nat.lt_of_le_of_lt hsize (by decide)

theorem answers_hostHandlePowerOff : Answers request (hostHandlePowerOff request) := by
  refine .bind calm_simPowerOff .any fun _ _ => ?_
  refine .bind (calm_setReader fun _ h => h) .any fun _ _ => ?_
  exact answers_hostReply _ _ _ _ (by decide)

theorem answers_hostHandleXfrBlock (hlen : request.data.length ≤ ccidMaxDataSize) :
    Answers request (hostHandleXfrBlock request) := by
  refine .bind .get .any fun w _ => .ite (fun _ => answers_hostReply _ _ _ _ (by decide)) fun _ => ?_
  refine .bind (calm_hostExchange request) (yields_hostExchange hlen) fun exchanged hsize => ?_
  cases exchanged with
  | none => exact answers_hostReply _ _ _ _ (by decide)
  | some size =>
      refine .get_bind fun w hlen => answers_hostReply _ _ _ _ ?_ w hlen
      rw [bufferBytes_length]
      exact Nat.lt_of_le_of_lt (hsize size rfl) (by decide)

theorem answers_hostHandleSetParameters : Answers request (hostHandleSetParameters request) := by
  unfold hostHandleSetParameters
  refine .ite (fun _ => answers_hostReplyParameters _ _) fun hbrf => ?_
  have htake : (request.data.take ccidT0ParametersSize).length = ccidT0ParametersSize := by
    by_cases ht0 : request.byte ccidOffsetProtocol = 0 ∧ request.data.length = ccidT0ParametersSize
    · rw [List.length_take, ht0.2, Nat.min_self]
    · simp [decide_eq_false ht0] at hbrf
  refine .bind (calm_setReader fun _ _ => htake) .any fun _ _ => ?_
  exact .bind (calm_setBrf _) .any fun _ _ => answers_hostReplyParameters _ _

/-- `ESCAPE` with the command that switches the phone off. -/
def Message.isPowerOff (m : Message) : Prop :=
  m.byte ccidOffsetType = pcToRdrEscape ∧ m.data.length ≠ 0 ∧ m.data.getD 0 0 = escapePowerOff

theorem answers_hostHandleEscape (htype : request.byte ccidOffsetType = pcToRdrEscape)
    (hon : ¬ request.isPowerOff) : Answers request (hostHandleEscape request) := by
  unfold hostHandleEscape
  refine .ite (fun _ => answers_hostReply _ _ _ _ (by decide)) fun _ => ?_
  have hcommand : (if request.data.length ≠ 0 then request.data.getD 0 0 else 0) ≠ escapePowerOff := by
    by_cases hsize : request.data.length ≠ 0
    · rw [if_pos hsize]
      exact fun hoff => hon ⟨htype, hsize, hoff⟩
    · rw [if_neg hsize]
      decide
  intro w hlen
  have hreply : Answers request (hostReply request rdrToPcEscape false 0 0 []) :=
    answers_hostReply _ _ _ _ (by decide)
  rw [if_neg hcommand]
  exact hreply w hlen

/-- **One reply.** Whatever the message and the card, a handler that comes back has sent one reply. -/
theorem answers_hostHandleMessage (hlen : request.data.length ≤ ccidMaxDataSize)
    (hon : ¬ request.isPowerOff) : Answers request (hostHandleMessage request) := by
  unfold hostHandleMessage
  dsimp only
  split_ifs with hpowerOn hpowerOff hstatus hxfr hget hreset hset hescape
  · exact answers_hostHandlePowerOn
  · exact answers_hostHandlePowerOff
  · exact answers_hostReply _ _ _ _ (by decide)
  · exact answers_hostHandleXfrBlock hlen
  · exact answers_hostReplyParameters _ _
  · exact .bind calm_t0ParametersReset .any fun _ _ => answers_hostReplyParameters _ _
  · exact answers_hostHandleSetParameters
  · exact answers_hostHandleEscape hescape hon
  · exact answers_hostReply _ _ _ _ (by decide)

end Pmb887x.SimReader
