import Pmb887x.SimReader.Exchange
import Mathlib.Data.List.GetD
import Mathlib.Data.List.Induction

set_option autoImplicit false

/-! # What a TPDU exchange sends and stores

`Talk` is a T=0 exchange after the header as the bytes of the card make it: at each point the card asks
for some of the data, or ends with the status bytes. `simExchangeTpdu` follows it on every trace of
the card (`simExchangeTpdu_dialog`): what it has sent and stored depends only on the bytes heard. -/

namespace Pmb887x.SimReader

open Library Driver

/-! ## The exchange as the card's bytes make it -/

inductive Phase where
  /-- so many bytes of a chunk are left; with none the next byte is a procedure byte -/
  | moving (left : Nat)
  | status (sw1 : UInt8)
  | finished (sw1 sw2 : UInt8)
  deriving DecidableEq

/-- The phase and the data bytes moved so far: the received ones, or what was heard when one was sent. -/
structure Talk where
  phase : Phase
  moved : List UInt8

/-- The bytes that a procedure byte asks for, with `rest` bytes not yet moved: all of them, or one. -/
def asksFor (ins procedure : UInt8) (rest : Nat) : Option Nat :=
  if procedure = ins then some rest
  else if procedure = ~~~ins then some (min 1 rest)
  else none

/-- One byte of the card in an exchange of `size` data bytes. -/
def Talk.hear (ins : UInt8) (size : Nat) (t : Talk) (b : UInt8) : Talk :=
  match t.phase with
  | .moving (left + 1) => ⟨.moving left, t.moved ++ [b]⟩
  | .moving 0 =>
      if b = simNullByte then t
      else
        match asksFor ins b (size - t.moved.length) with
        | some chunk => ⟨.moving chunk, t.moved⟩
        | none => ⟨.status b, t.moved⟩
  | .status sw1 => ⟨.finished sw1 b, t.moved⟩
  | .finished _ _ => t

/-- The exchange after the bytes heard. -/
def talk (ins : UInt8) (size : Nat) (heard : List UInt8) : Talk :=
  heard.foldl (Talk.hear ins size) ⟨.moving 0, []⟩

/-- The status bytes so far. -/
def Phase.statusBytes : Phase → List UInt8
  | .moving _ => []
  | .status sw1 => [sw1]
  | .finished sw1 sw2 => [sw1, sw2]

/-- A data byte is on its way. -/
def Phase.pending : Phase → Nat
  | .moving (_ + 1) => 1
  | _ => 0

/-- The data length of a TPDU: that of its data, or what its header announces. -/
def dataSize (tpdu : List UInt8) : Nat :=
  if tpdu.length > simHeaderSize then tpdu.length - simHeaderSize else simHeaderToDataSize tpdu

/-- The bytes in the response buffer: received data and status bytes. -/
def storedOf (tpdu : List UInt8) (t : Talk) : List UInt8 :=
  (if tpdu.length > simHeaderSize then [] else t.moved) ++ t.phase.statusBytes

/-- What has happened between `w₀` and `w`: the card has accepted the bytes `acks` of the header and then
sent `heard`, and an error or timeout is in `stop`. -/
structure Progress (w₀ w : World) (acks heard : List UInt8) (stop : List CardEvent)
    (sent stored : List UInt8) : Prop where
  card : w₀.input.card = (acks ++ heard).map CardEvent.ok ++ stop ++ w.input.card
  toCard : w.toCard = w₀.toCard ++ sent
  response : ∀ i, w.buffers .response i = stored.getD i (w₀.buffers .response i)

/-- The events that end an exchange. -/
def Stops (stop : List CardEvent) : Prop := stop = [.error] ∨ stop = [.timeout]

/-! ## The exchange keeps to the data length -/

theorem talk_snoc (ins : UInt8) (size : Nat) (heard : List UInt8) (b : UInt8) :
    talk ins size (heard ++ [b]) = (talk ins size heard).hear ins size b := by
  rw [talk, List.foldl_append]
  rfl

/-- Moved and asked for is never more than the data. -/
theorem talk_moved_le (ins : UInt8) (size : Nat) (heard : List UInt8) :
    (talk ins size heard).moved.length ≤ size ∧
      ∀ left, (talk ins size heard).phase = .moving left →
        (talk ins size heard).moved.length + left ≤ size := by
  induction heard using List.reverseRecOn with
  | nil => exact ⟨Nat.zero_le _, fun left h => by cases h; exact Nat.zero_le _⟩
  | append_singleton heard b ih =>
      obtain ⟨hle, hleft⟩ := ih
      rw [talk_snoc]
      generalize talk ins size heard = t at *
      obtain ⟨phase, moved⟩ := t
      cases phase with
      | moving left =>
          cases left with
          | zero =>
              unfold Talk.hear
              simp only
              split_ifs
              · exact ⟨hle, hleft⟩
              · cases hchunk : asksFor ins b (size - moved.length) with
                | none => exact ⟨hle, nofun⟩
                | some chunk =>
                    refine ⟨hle, fun left h => ?_⟩
                    obtain rfl := Phase.moving.inj h
                    have hasked : chunk ≤ size - moved.length := by
                      unfold asksFor at hchunk
                      split_ifs at hchunk
                      · exact Nat.le_of_eq (Option.some.inj hchunk).symm
                      · exact (Option.some.inj hchunk) ▸ Nat.min_le_right _ _
                    simp only at hle ⊢
                    omega
          | succ left =>
              have hroom := hleft _ rfl
              simp only at hroom
              refine ⟨?_, fun left' h => ?_⟩
              · simp only [Talk.hear, List.length_append, List.length_singleton]
                omega
              · obtain rfl := Phase.moving.inj h
                simp only [Talk.hear, List.length_append, List.length_singleton]
                omega
      | status sw1 => exact ⟨hle, nofun⟩
      | finished sw1 sw2 => exact ⟨hle, nofun⟩

/-! ## One byte -/

section

variable {w₀ w : World} {acks heard sent stored : List UInt8}

/-- A byte of the header that the card has accepted. -/
theorem Progress.ack {b : UInt8} {stop : List CardEvent}
    (h : Progress w₀ w acks [b] stop sent stored) :
    Progress w₀ w (acks ++ [b]) [] stop sent stored := by
  refine { h with card := ?_ }
  rw [h.card, List.append_nil]

/-- The card sends a byte, or something ends the exchange, or nothing has come yet. -/
theorem simWaitOk_leaves (h : Progress w₀ w acks heard [] sent stored) :
    Leaves (fun ok w' =>
        (ok = true ∧ Progress w₀ w' acks (heard ++ [w'.rxb]) [] sent stored ∧
          w'.input.card.length + 1 = w.input.card.length) ∨
        (ok = false ∧ ∃ stop, Stops stop ∧ Progress w₀ w' acks heard stop sent stored))
      (fun w' => Progress w₀ w' acks heard [] sent stored ∧ w'.input.card = []) (simWaitOk w) := by
  have hcard := h.card
  rw [simWaitOk, get_bind]
  rcases hinput : w.input.card with - | ⟨b | - | -, rest⟩
  · exact ⟨h, hinput⟩
  · refine .inl ⟨rfl, { h with card := ?_ }, ?_⟩
    · rw [hcard, hinput]
      simp
    · simp
  · refine .inr ⟨rfl, _, .inl rfl, { h with card := ?_ }⟩
    rw [hcard, hinput]
    simp
  · refine .inr ⟨rfl, _, .inr rfl, { h with card := ?_ }⟩
    rw [hcard, hinput]
    simp

theorem simSendByte_leaves (h : Progress w₀ w acks heard [] sent stored) (value : UInt8) :
    Leaves (fun ok w' =>
        (ok = true ∧ (∃ b, Progress w₀ w' acks (heard ++ [b]) [] (sent ++ [value]) stored) ∧
          w'.input.card.length + 1 = w.input.card.length) ∨
        (ok = false ∧ ∃ stop, Stops stop ∧ Progress w₀ w' acks heard stop (sent ++ [value]) stored))
      (fun w' => Progress w₀ w' acks heard [] (sent ++ [value]) stored ∧ w'.input.card = [])
      (simSendByte value w) := by
  have hwritten : Progress w₀ { w with toCard := w.toCard ++ [value] } acks heard [] (sent ++ [value])
      stored := by
    refine { h with toCard := ?_ }
    rw [← List.append_assoc, ← h.toCard]
  refine (simWaitOk_leaves hwritten).mono (fun ok w' hok => ?_) (fun w' hw => hw)
  exact hok.imp (fun hok => ⟨hok.1, ⟨_, hok.2.1⟩, hok.2.2⟩) id

theorem simReceiveByte_leaves (h : Progress w₀ w acks heard [] sent stored) :
    Leaves (fun received w' =>
        (∃ b, received = some b ∧ Progress w₀ w' acks (heard ++ [b]) [] sent stored ∧
          w'.input.card.length + 1 = w.input.card.length) ∨
        (received = none ∧ ∃ stop, Stops stop ∧ Progress w₀ w' acks heard stop sent stored))
      (fun w' => Progress w₀ w' acks heard [] sent stored ∧ w'.input.card = [])
      (simReceiveByte w) := by
  refine (simWaitOk_leaves h).bind (fun ok w' hok => ?_) (fun w' hw => hw)
  rcases hok with ⟨rfl, hprogress, hlength⟩ | ⟨rfl, hstop⟩
  · exact .inl ⟨_, rfl, hprogress, hlength⟩
  · exact .inr ⟨rfl, hstop⟩

/-- The next byte of the response buffer. -/
theorem storeByte_leaves {W : World → Prop} {stop : List CardEvent}
    (h : Progress w₀ w acks heard stop sent stored)
    (hlt : stored.length < Buffer.response.size) (value : UInt8) :
    Leaves (fun _ w' => Progress w₀ w' acks heard stop sent (stored ++ [value]) ∧
      w'.input.card = w.input.card) W (storeByte .response stored.length value w) := by
  rw [storeByte, if_pos hlt]
  refine ⟨{ h with response := fun i => ?_ }, rfl⟩
  change Function.update w.buffers .response (Function.update (w.buffers .response) stored.length value)
    .response i = _
  rw [Function.update_self]
  rcases Nat.lt_trichotomy i stored.length with hi | rfl | hi
  · rw [Function.update_of_ne (Nat.ne_of_lt hi), h.response, List.getD_append _ _ _ _ hi]
  · rw [Function.update_self, List.getD_append_right _ _ _ _ (Nat.le_refl _), Nat.sub_self]
    rfl
  · rw [Function.update_of_ne (Nat.ne_of_gt hi), h.response,
      List.getD_eq_default _ _ (Nat.le_of_lt hi),
      List.getD_eq_default _ _ (by rw [List.length_append, List.length_singleton]; omega)]

end

/-! ## The exchange follows the talk -/

section

variable (tpdu : List UInt8) (w₀ : World) (acks : List UInt8)

/-- `tpdu` after the bytes heard. -/
def tpduTalk (heard : List UInt8) : Talk :=
  talk (tpdu.getD simHeaderIns 0) (dataSize tpdu) heard

/-- Between two bytes: what was sent and stored is what the talk says. -/
def Between (heard : List UInt8) (w : World) : Prop :=
  Progress w₀ w acks heard [] (tpdu.take (simHeaderSize + (tpduTalk tpdu heard).moved.length))
    (storedOf tpdu (tpduTalk tpdu heard))

/-- Where an exchange stands that waits for a byte, or that `stop` has ended: a data byte may be on its
way. -/
def Stands (stop : List CardEvent) (w : World) : Prop :=
  ∃ heard, Progress w₀ w acks heard stop
    (tpdu.take (simHeaderSize + (tpduTalk tpdu heard).moved.length +
      (tpduTalk tpdu heard).phase.pending)) (storedOf tpdu (tpduTalk tpdu heard))

end

section

variable {tpdu : List UInt8} {w₀ w : World} {acks heard : List UInt8}

theorem tpduTalk_snoc (tpdu heard : List UInt8) (b : UInt8) : tpduTalk tpdu (heard ++ [b])
    = (tpduTalk tpdu heard).hear (tpdu.getD simHeaderIns 0) (dataSize tpdu) b := talk_snoc _ _ _ _

/-- A data byte of the TPDU goes out. -/
theorem take_data {n : Nat} (h : simHeaderSize + n < tpdu.length) :
    tpdu.take (simHeaderSize + n) ++ [(tpdu.drop simHeaderSize).getD n 0]
      = tpdu.take (simHeaderSize + n + 1) := by
  rw [List.take_add_one, List.getD_eq_getElem?_getD, List.getElem?_drop,
    List.getElem?_eq_getElem h]
  rfl

/-- A TPDU without data is all header. -/
theorem take_header (hsize : simHeaderSize ≤ tpdu.length) (hnone : ¬ tpdu.length > simHeaderSize)
    (n : Nat) : tpdu.take (simHeaderSize + n) = tpdu :=
  List.take_of_length_le (by omega)

theorem Progress.stands {stop : List CardEvent} {sent stored : List UInt8}
    (h : Progress w₀ w acks heard stop sent stored)
    (hsent : sent = tpdu.take (simHeaderSize + (tpduTalk tpdu heard).moved.length +
      (tpduTalk tpdu heard).phase.pending)) (hstored : stored = storedOf tpdu (tpduTalk tpdu heard)) :
    Stands tpdu w₀ acks stop w := by
  refine ⟨heard, ?_⟩
  rw [← hsent, ← hstored]
  exact h

/-- What a step of the exchange leaves when it does not go on. -/
def Cut (tpdu : List UInt8) (w₀ : World) (acks : List UInt8) (w : World) : Prop :=
  ∃ stop, Stops stop ∧ Stands tpdu w₀ acks stop w

def Waits (tpdu : List UInt8) (w₀ : World) (acks : List UInt8) (w : World) : Prop :=
  Stands tpdu w₀ acks [] w ∧ w.input.card = []

/-- How a chunk ends: it has been moved, or the exchange is cut. The card is left with at most `n` events. -/
def ChunkEnds (tpdu : List UInt8) (w₀ : World) (acks : List UInt8) (n : Nat) (moved : Option (Nat × Nat))
    (w : World) : Prop :=
  (∃ heard, moved = some ((tpduTalk tpdu heard).moved.length, (storedOf tpdu (tpduTalk tpdu heard)).length) ∧
    (tpduTalk tpdu heard).phase = .moving 0 ∧ Between tpdu w₀ acks heard w ∧ w.input.card.length ≤ n) ∨
  (moved = none ∧ Cut tpdu w₀ acks w)

theorem ChunkEnds.mono {n m : Nat} {moved : Option (Nat × Nat)} (h : ChunkEnds tpdu w₀ acks n moved w)
    (hle : n ≤ m) : ChunkEnds tpdu w₀ acks m moved w := by
  refine h.imp (fun h => ?_) id
  obtain ⟨heard, hmoved, hphase, hbetween, hlength⟩ := h
  exact ⟨heard, hmoved, hphase, hbetween, hlength.trans hle⟩

/-- A byte of a chunk. -/
theorem tpduTalk_moves {chunk : Nat} (hphase : (tpduTalk tpdu heard).phase = .moving (chunk + 1)) (b : UInt8) :
    tpduTalk tpdu (heard ++ [b]) = ⟨.moving chunk, (tpduTalk tpdu heard).moved ++ [b]⟩ := by
  rw [tpduTalk_snoc]
  unfold Talk.hear
  rw [hphase]

theorem moved_lt {chunk : Nat} (hphase : (tpduTalk tpdu heard).phase = .moving (chunk + 1)) :
    (tpduTalk tpdu heard).moved.length < dataSize tpdu := by
  have hroom := (talk_moved_le (tpdu.getD simHeaderIns 0) (dataSize tpdu) heard).2 _ hphase
  rw [← tpduTalk] at hroom
  omega

/-- A byte of the TPDU goes out. -/
theorem simSendByte_moves {chunk : Nat} (hdata : tpdu.length > simHeaderSize)
    (h : Between tpdu w₀ acks heard w) (hphase : (tpduTalk tpdu heard).phase = .moving (chunk + 1)) :
    Leaves (fun ok w' =>
        (ok = true ∧ ∃ b, Between tpdu w₀ acks (heard ++ [b]) w' ∧
          w'.input.card.length + 1 = w.input.card.length) ∨
        (ok = false ∧ Cut tpdu w₀ acks w'))
      (Waits tpdu w₀ acks)
      (simSendByte ((tpdu.drop simHeaderSize).getD (tpduTalk tpdu heard).moved.length 0) w) := by
  have hpending : (tpduTalk tpdu heard).phase.pending = 1 := by
    rw [hphase]
    rfl
  have hroom := moved_lt hphase
  rw [dataSize, if_pos hdata] at hroom
  have hout := @take_data tpdu (tpduTalk tpdu heard).moved.length (by omega)
  refine (simSendByte_leaves h _).mono (fun ok w' hok => ?_) (fun w' hw => ?_)
  · rcases hok with ⟨rfl, ⟨b, hb⟩, hlength⟩ | ⟨rfl, stop, hstop, hs⟩
    · refine .inl ⟨rfl, b, ?_, hlength⟩
      unfold Between
      rw [tpduTalk_moves hphase, List.length_append, List.length_singleton, ← Nat.add_assoc, ← hout]
      rw [storedOf, if_pos hdata, hphase] at hb
      rw [storedOf, if_pos hdata]
      exact hb
    · exact .inr ⟨rfl, stop, hstop, hs.stands (by rw [hpending, hout]) rfl⟩
  · exact ⟨hw.1.stands (by rw [hpending, hout]) rfl, hw.2⟩

/-- A byte comes in and is stored. -/
theorem storeByte_moves {chunk : Nat} {W : World → Prop} (hsize : simHeaderSize ≤ tpdu.length)
    (hdata : ¬ tpdu.length > simHeaderSize) (hphase : (tpduTalk tpdu heard).phase = .moving (chunk + 1))
    {b : UInt8} {sent : List UInt8} (hsent : sent = tpdu.take (simHeaderSize + (tpduTalk tpdu heard).moved.length))
    (h : Progress w₀ w acks (heard ++ [b]) [] sent (tpduTalk tpdu heard).moved) :
    Leaves (fun _ w' => Between tpdu w₀ acks (heard ++ [b]) w' ∧ w'.input.card = w.input.card) W
      (storeByte .response (tpduTalk tpdu heard).moved.length b w) := by
  have hall := take_header hsize hdata
  have hbuffer : (tpduTalk tpdu heard).moved.length < Buffer.response.size := by
    have hroom := moved_lt hphase
    have hmax := simHeaderToDataSize_le tpdu
    rw [dataSize, if_neg hdata] at hroom
    simp only [Buffer.size, simStatusSize]
    omega
  refine (storeByte_leaves h hbuffer b).mono (fun _ w' hstore => ?_) (fun w' hw => hw)
  refine ⟨?_, hstore.2⟩
  unfold Between
  rw [hall, storedOf, if_neg hdata, tpduTalk_moves hphase, Phase.statusBytes, List.append_nil]
  rw [hsent, hall] at hstore
  exact hstore.1

/-- **A chunk moves the bytes asked for.** -/
theorem simTransferChunk_leaves (hsize : simHeaderSize ≤ tpdu.length) (chunk : Nat) :
    ∀ {heard : List UInt8} {w : World}, Between tpdu w₀ acks heard w →
      (tpduTalk tpdu heard).phase = .moving chunk →
      Leaves (ChunkEnds tpdu w₀ acks w.input.card.length) (Waits tpdu w₀ acks)
        (simTransferChunk (if tpdu.length > simHeaderSize then some (tpdu.drop simHeaderSize) else none)
          chunk (tpduTalk tpdu heard).moved.length (storedOf tpdu (tpduTalk tpdu heard)).length w) := by
  induction chunk with
  | zero =>
      intro heard w h hphase
      exact .inl ⟨heard, rfl, hphase, h, Nat.le_refl _⟩
  | succ chunk ih =>
      intro heard w h hphase
      have hnext := tpduTalk_moves hphase
      have hlen (b : UInt8) : (tpduTalk tpdu (heard ++ [b])).moved.length
          = (tpduTalk tpdu heard).moved.length + 1 := by
        rw [hnext, List.length_append, List.length_singleton]
      by_cases hdata : tpdu.length > simHeaderSize
      · rw [if_pos hdata] at ih ⊢
        have hstored (b : UInt8) : (storedOf tpdu (tpduTalk tpdu (heard ++ [b]))).length
            = (storedOf tpdu (tpduTalk tpdu heard)).length := by
          rw [storedOf, storedOf, if_pos hdata, if_pos hdata, hnext, hphase]
          rfl
        refine (simSendByte_moves hdata h hphase).bind (fun ok w' hok => ?_) (fun w' hw => hw)
        rcases hok with ⟨rfl, b, hbetween, hlength⟩ | ⟨rfl, hcut⟩
        · have hrest := ih hbetween (by rw [hnext])
          rw [hlen, hstored] at hrest
          exact hrest.mono (fun moved w'' hm => hm.mono (by omega)) (fun w'' hw => hw)
        · exact .inr ⟨rfl, hcut⟩
      · rw [if_neg hdata] at ih ⊢
        have hall := take_header hsize hdata
        have hstored : storedOf tpdu (tpduTalk tpdu heard) = (tpduTalk tpdu heard).moved := by
          rw [storedOf, if_neg hdata, hphase]
          exact List.append_nil _
        have hstored' (b : UInt8) : (storedOf tpdu (tpduTalk tpdu (heard ++ [b]))).length
            = (tpduTalk tpdu heard).moved.length + 1 := by
          rw [storedOf, if_neg hdata, hnext, Phase.statusBytes, List.append_nil, List.length_append,
            List.length_singleton]
        refine (simReceiveByte_leaves h).bind (fun received w' hr => ?_) (fun w' hw => ?_)
        · rcases hr with ⟨b, rfl, hb, hlength⟩ | ⟨rfl, stop, hstop, hs⟩
          · rw [hstored] at hb ⊢
            refine (storeByte_moves hsize hdata hphase rfl hb).bind (fun _ w'' hstore => ?_) (fun w'' hw => hw)
            have hrest := ih hstore.1 (by rw [hnext])
            rw [hlen, hstored', hstore.2] at hrest
            exact hrest.mono (fun moved w₁ hm => hm.mono (by omega)) (fun w₁ hw => hw)
          · exact .inr ⟨rfl, stop, hstop, hs.stands (by rw [Nat.add_assoc, hall, hall]) rfl⟩
        · exact ⟨hw.1.stands (by rw [Nat.add_assoc, hall, hall]) rfl, hw.2⟩

/-- The NULL bytes are passed over, and then a procedure byte comes. -/
theorem simReceiveProcedureLoop_leaves (n : Nat) :
    ∀ {heard : List UInt8} {w : World}, Between tpdu w₀ acks heard w →
      (tpduTalk tpdu heard).phase = .moving 0 → w.input.card.length ≤ n →
      Leaves (fun received w' =>
          (∃ heard' b, received = some b ∧ b ≠ simNullByte ∧ tpduTalk tpdu heard' = tpduTalk tpdu heard ∧
            Progress w₀ w' acks (heard' ++ [b]) []
              (tpdu.take (simHeaderSize + (tpduTalk tpdu heard').moved.length))
              (storedOf tpdu (tpduTalk tpdu heard')) ∧
            w'.input.card.length < w.input.card.length) ∨
          (received = none ∧ Cut tpdu w₀ acks w'))
        (Waits tpdu w₀ acks) (simReceiveProcedureLoop n w) := by
  induction n with
  | zero =>
      intro heard w h hphase hlength
      exact ⟨h.stands (by rw [hphase]; rfl) rfl, List.length_eq_zero_iff.mp (Nat.le_zero.mp hlength)⟩
  | succ n ih =>
      intro heard w h hphase hlength
      refine (simReceiveByte_leaves h).bind (fun received w' hr => ?_) (fun w' hw => ?_)
      · rcases hr with ⟨b, rfl, hb, hshorter⟩ | ⟨rfl, stop, hstop, hs⟩
        · by_cases hnull : b = simNullByte
          · have hsame : tpduTalk tpdu (heard ++ [b]) = tpduTalk tpdu heard := by
              rw [tpduTalk_snoc]
              unfold Talk.hear
              rw [hphase]
              exact if_pos hnull
            have hnext : Between tpdu w₀ acks (heard ++ [b]) w' := by
              rw [Between, hsame]
              exact hb
            simp only [if_pos hnull]
            refine (ih hnext (by rw [hsame, hphase]) (by omega)).mono (fun received w'' hr => ?_)
              (fun w'' hw => hw)
            rw [hsame] at hr
            refine hr.imp (fun hr => ?_) id
            obtain ⟨heard', c, hreceived, hc, htalk, hprogress, hle⟩ := hr
            exact ⟨heard', c, hreceived, hc, htalk, hprogress, by omega⟩
          · simp only [if_neg hnull]
            exact .inl ⟨heard, b, rfl, hnull, rfl, hb, by omega⟩
        · exact .inr ⟨rfl, stop, hstop, hs.stands (by rw [hphase]; rfl) rfl⟩
      · exact ⟨hw.1.stands (by rw [hphase]; rfl) rfl, hw.2⟩

/-- The response of a finished exchange. -/
def Finished (tpdu : List UInt8) (w₀ : World) (acks : List UInt8) (size : Nat) (w : World) : Prop :=
  ∃ heard sw1 sw2, (tpduTalk tpdu heard).phase = .finished sw1 sw2 ∧
    size = (storedOf tpdu (tpduTalk tpdu heard)).length ∧ Between tpdu w₀ acks heard w

/-- The code asks for the chunk of the talk. -/
theorem simChunk_eq {ins procedure : UInt8} {size transferred : Nat} (hle : transferred ≤ size)
    (hlt : size < 2 ^ 32) :
    simChunk ins procedure size transferred = asksFor ins procedure (size - transferred) := by
  rw [simChunk, asksFor, sub32_of_le hle hlt]
  split_ifs with hins hnot hmore
  · rfl
  · rw [Nat.min_eq_left (by omega)]
  · rw [Nat.min_eq_right (by omega), show size - transferred = 0 by omega]
  · rfl

theorem hear_procedure {ins : UInt8} {size : Nat} {t : Talk} {b : UInt8} (hphase : t.phase = .moving 0)
    (hnull : b ≠ simNullByte) : t.hear ins size b =
      (asksFor ins b (size - t.moved.length)).elim ⟨.status b, t.moved⟩
        fun chunk => ⟨.moving chunk, t.moved⟩ := by
  unfold Talk.hear
  rw [hphase]
  simp only [if_neg hnull]
  cases asksFor ins b (size - t.moved.length) with
  | none => rfl
  | some chunk => rfl

/-- A procedure byte that is none of the NULL bytes. -/
theorem tpduTalk_procedure {b : UInt8} (hphase : (tpduTalk tpdu heard).phase = .moving 0) (hnull : b ≠ simNullByte) :
    tpduTalk tpdu (heard ++ [b])
      = (asksFor (tpdu.getD simHeaderIns 0) b (dataSize tpdu - (tpduTalk tpdu heard).moved.length)).elim
          ⟨.status b, (tpduTalk tpdu heard).moved⟩ fun chunk => ⟨.moving chunk, (tpduTalk tpdu heard).moved⟩ :=
  (tpduTalk_snoc tpdu heard b).trans (hear_procedure hphase hnull)

theorem dataSize_lt (hmax : tpdu.length ≤ ccidMaxDataSize) : dataSize tpdu < 2 ^ 32 := by
  have hannounced := simHeaderToDataSize_le tpdu
  simp only [ccidMaxDataSize, simMaxDataSize] at hmax hannounced
  unfold dataSize
  split_ifs
  · omega
  · omega

/-- There is room for the status bytes. -/
theorem stored_lt (hphase : (tpduTalk tpdu heard).phase = .moving 0) :
    (storedOf tpdu (tpduTalk tpdu heard)).length + 1 < Buffer.response.size := by
  have hmoved := (talk_moved_le (tpdu.getD simHeaderIns 0) (dataSize tpdu) heard).1
  have hannounced := simHeaderToDataSize_le tpdu
  rw [← tpduTalk] at hmoved
  rw [storedOf, hphase]
  simp only [Phase.statusBytes, List.append_nil, Buffer.size, simStatusSize]
  unfold dataSize at hmoved
  split_ifs at hmoved ⊢ with hdata
  · simp
  · omega

/-- How an exchange ends that does not wait: with a response, or cut. -/
def ExchangeEnds (tpdu : List UInt8) (w₀ : World) (acks : List UInt8) (result : Option Nat) (w : World) : Prop :=
  (∃ size, result = some size ∧ Finished tpdu w₀ acks size w) ∨ (result = none ∧ Cut tpdu w₀ acks w)

/-- The status bytes are stored behind what is in the buffer. -/
theorem status_leaves {b : UInt8} {size : Nat} (hphase : (tpduTalk tpdu heard).phase = .moving 0)
    (hstatus : tpduTalk tpdu (heard ++ [b]) = ⟨.status b, (tpduTalk tpdu heard).moved⟩)
    (hlength : size = (storedOf tpdu (tpduTalk tpdu heard)).length)
    (h : Progress w₀ w acks (heard ++ [b]) []
      (tpdu.take (simHeaderSize + (tpduTalk tpdu heard).moved.length)) (storedOf tpdu (tpduTalk tpdu heard))) :
    Leaves (ExchangeEnds tpdu w₀ acks) (Waits tpdu w₀ acks)
      ((do
        storeByte .response size b
        let last ← simReceiveByte
        match last with
        | none => pure none
        | some value => do
            storeByte .response (size + 1) value
            pure (some (size + 2)) : Sim (Option Nat)) w) := by
  have hbuffer := stored_lt hphase
  have hstored : storedOf tpdu (tpduTalk tpdu heard) ++ [b] = storedOf tpdu (tpduTalk tpdu (heard ++ [b])) := by
    rw [storedOf, storedOf, hstatus, hphase, Phase.statusBytes, Phase.statusBytes, List.append_nil]
  have hlength' : (storedOf tpdu (tpduTalk tpdu (heard ++ [b]))).length = size + 1 := by
    rw [← hstored, List.length_append, List.length_singleton, hlength]
  rw [hlength]
  refine (storeByte_leaves h (by omega) b).bind (fun _ w' hstore => ?_) (fun w' hw => hw)
  have hnext : Between tpdu w₀ acks (heard ++ [b]) w' := by
    rw [Between, ← hstored, hstatus]
    exact hstore.1
  refine (simReceiveByte_leaves hnext).bind (fun last w₁ hl => ?_) (fun w₁ hw => ?_)
  · rcases hl with ⟨c, rfl, hc, -⟩ | ⟨rfl, stop, hstop, hs⟩
    · have hend : tpduTalk tpdu (heard ++ [b] ++ [c]) = ⟨.finished b c, (tpduTalk tpdu heard).moved⟩ := by
        rw [tpduTalk_snoc, hstatus]
        rfl
      have hlast : storedOf tpdu (tpduTalk tpdu (heard ++ [b] ++ [c]))
          = storedOf tpdu (tpduTalk tpdu (heard ++ [b])) ++ [c] := by
        rw [storedOf, storedOf, hend, hstatus, List.append_assoc]
        rfl
      rw [hlength] at hlength'
      rw [← hlength'] at hbuffer ⊢
      refine (storeByte_leaves hc hbuffer c).bind (fun _ w₂ hstore₂ => ?_) (fun w₂ hw => hw)
      refine .inl ⟨_, rfl, heard ++ [b] ++ [c], b, c, by rw [hend], ?_, ?_⟩
      · rw [hlast, List.length_append, List.length_singleton, hlength']
      · have hmoved : (tpduTalk tpdu (heard ++ [b])).moved.length = (tpduTalk tpdu heard).moved.length := by
          rw [hstatus]
        rw [Between, hlast, hend]
        rw [hmoved] at hstore₂
        exact hstore₂.1
    · exact .inr ⟨rfl, stop, hstop, hs.stands (by rw [hstatus]; rfl) rfl⟩
  · exact ⟨hw.1.stands (by rw [hstatus]; rfl) rfl, hw.2⟩

/-- **The exchange ends with the status bytes, is cut, or waits.** -/
theorem simExchangeLoop_leaves (hsize : simHeaderSize ≤ tpdu.length)
    (hmax : tpdu.length ≤ ccidMaxDataSize) (n : Nat) :
    ∀ {heard : List UInt8} {w : World}, Between tpdu w₀ acks heard w →
      (tpduTalk tpdu heard).phase = .moving 0 → w.input.card.length ≤ n →
      Leaves (ExchangeEnds tpdu w₀ acks) (Waits tpdu w₀ acks)
        (simExchangeLoop (tpdu.getD simHeaderIns 0)
          (if tpdu.length > simHeaderSize then some (tpdu.drop simHeaderSize) else none) (dataSize tpdu)
          n (tpduTalk tpdu heard).moved.length (storedOf tpdu (tpduTalk tpdu heard)).length w) := by
  induction n with
  | zero =>
      intro heard w h hphase hlength
      exact ⟨h.stands (by rw [hphase]; rfl) rfl, List.length_eq_zero_iff.mp (Nat.le_zero.mp hlength)⟩
  | succ n ih =>
      intro heard w h hphase hlength
      rw [simExchangeLoop]
      refine (simReceiveProcedureLoop_leaves w.input.card.length h hphase (Nat.le_refl _)).bind
        (fun received w' hr => ?_) (fun w' hw => hw)
      rcases hr with ⟨heard', b, rfl, hnull, htalk, hb, hshorter⟩ | ⟨rfl, hcut⟩
      · have hmoved := (talk_moved_le (tpdu.getD simHeaderIns 0) (dataSize tpdu) heard').1
        rw [← tpduTalk] at hmoved
        rw [← htalk] at hphase ⊢
        have hhear := tpduTalk_procedure hphase hnull
        simp only [simChunk_eq hmoved (dataSize_lt hmax)]
        cases hasks : asksFor (tpdu.getD simHeaderIns 0) b
            (dataSize tpdu - (tpduTalk tpdu heard').moved.length) with
        | some chunk =>
            rw [hasks, Option.elim_some] at hhear
            have hsame : storedOf tpdu (tpduTalk tpdu (heard' ++ [b]))
                = storedOf tpdu (tpduTalk tpdu heard') := by
              rw [storedOf, storedOf, hhear, hphase]
              rfl
            have hnext : Between tpdu w₀ acks (heard' ++ [b]) w' := by
              rw [Between, hsame, hhear]
              exact hb
            have hchunk := simTransferChunk_leaves hsize chunk hnext (by rw [hhear])
            rw [hsame, hhear] at hchunk
            refine hchunk.bind (fun moved w'' hm => ?_) (fun w'' hw => hw)
            rcases hm with ⟨heard'', rfl, hphase'', hbetween, hle⟩ | ⟨rfl, hcut⟩
            · exact ih hbetween hphase'' (by omega)
            · exact .inr ⟨rfl, hcut⟩
        | none =>
            rw [hasks, Option.elim_none] at hhear
            exact status_leaves hphase hhear rfl hb
      · exact .inr ⟨rfl, hcut⟩

/-! ## The whole exchange -/

/-- A part of the header has been sent, and all of its bytes but the last one are accepted. -/
def Partly (bytes : List UInt8) (w₀ : World) (sent : List UInt8) (stop : List CardEvent) (w : World) :
    Prop :=
  ∃ acks k, acks.length + 1 = (sent ++ bytes.take k).length ∧
    Progress w₀ w acks [] stop (sent ++ bytes.take k) []

theorem simSendBytes_leaves (bytes : List UInt8) :
    ∀ {w : World} {acks sent : List UInt8}, acks.length = sent.length → Progress w₀ w acks [] [] sent [] →
      Leaves (fun ok w' =>
          (ok = true ∧ ∃ acks', acks'.length = (sent ++ bytes).length ∧
            Progress w₀ w' acks' [] [] (sent ++ bytes) []) ∨
          (ok = false ∧ ∃ stop, Stops stop ∧ Partly bytes w₀ sent stop w'))
        (fun w' => Partly bytes w₀ sent [] w' ∧ w'.input.card = []) (simSendBytes bytes w) := by
  induction bytes with
  | nil =>
      intro w acks sent hacks h
      refine .inl ⟨rfl, acks, ?_⟩
      rw [List.append_nil]
      exact ⟨hacks, h⟩
  | cons b rest ih =>
      intro w acks sent hacks h
      have hone : acks.length + 1 = (sent ++ (b :: rest).take 1).length := by
        rw [List.length_append, hacks]
        rfl
      refine (simSendByte_leaves h b).bind (fun ok w' hok => ?_) (fun w' hw => ?_)
      · rcases hok with ⟨rfl, ⟨c, hc⟩, -⟩ | ⟨rfl, stop, hstop, hs⟩
        · -- the bytes behind the first, put behind it again
          have hnext : (acks ++ [c]).length = (sent ++ [b]).length := by
            rw [List.length_append, List.length_append, hacks]
            rfl
          refine (ih hnext hc.ack).mono (fun ok w'' hok => ?_) (fun w'' hw => ?_)
          · rw [List.append_assoc, List.singleton_append] at hok
            refine hok.imp id fun hok => ?_
            obtain ⟨hok, stop, hstop, acks', k, hs⟩ := hok
            refine ⟨hok, stop, hstop, acks', k + 1, ?_⟩
            rwa [List.append_assoc, List.singleton_append, ← List.take_succ_cons] at hs
          · obtain ⟨⟨acks', k, hs⟩, hcard⟩ := hw
            refine ⟨⟨acks', k + 1, ?_⟩, hcard⟩
            rwa [List.append_assoc, List.singleton_append, ← List.take_succ_cons] at hs
        · exact .inr ⟨rfl, stop, hstop, acks, 1, hone, hs⟩
      · exact ⟨⟨acks, 1, hone, hw.1⟩, hw.2⟩

/-- The buffer holds what was stored. -/
theorem Progress.buffer_eq {stop : List CardEvent} {sent stored : List UInt8}
    (h : Progress w₀ w acks heard stop sent stored) :
    bufferBytes w .response stored.length = stored := by
  unfold bufferBytes
  refine List.ext_getElem (by simp) fun i _ hi => ?_
  rw [List.getElem_map, List.getElem_range, h.response, List.getD_eq_getElem _ _ hi]

/-- How an exchange ends: with the response, cut by the card, or waiting for it. -/
def Ended (tpdu heard : List UInt8) (stop : List CardEvent) (sent : List UInt8) :
    Outcome Overrun (Option Nat) × World → Prop
  | (.done (some size), w) =>
      stop = [] ∧ tpdu.take simHeaderSize <+: sent ∧
        ∃ sw1 sw2, (tpduTalk tpdu heard).phase = .finished sw1 sw2 ∧
          bufferBytes w .response size
            = (if tpdu.length > simHeaderSize then [] else (tpduTalk tpdu heard).moved) ++ [sw1, sw2]
  | (.done none, _) => Stops stop
  | (.waiting, w) => stop = [] ∧ w.input.card = []
  | (.fault _, _) => False

/-- What an exchange has done, up to its end or to where it waits. Before the card sends bytes of its own it accepts
those of the header: all of them, or all that were sent but the last one. -/
structure Exchanged (tpdu : List UInt8) (w : World) (heard : List UInt8) (stop : List CardEvent)
    (sent : List UInt8) (r : Outcome Overrun (Option Nat) × World) : Prop where
  progress : ∃ acks, (acks.length = simHeaderSize ∨ heard = [] ∧ acks.length + 1 = sent.length) ∧
    Progress w r.2 acks heard stop sent (storedOf tpdu (tpduTalk tpdu heard))
  inOrder : sent <+: tpdu
  header : heard ≠ [] → tpdu.take simHeaderSize <+: sent
  length_le : (tpduTalk tpdu heard).moved.length ≤ dataSize tpdu
  ended : Ended tpdu heard stop sent r

end

theorem exchanged_of_stands {tpdu : List UInt8} {w w' : World} {acks : List UInt8}
    {stop : List CardEvent} {outcome : Outcome Overrun (Option Nat)}
    (hacks : acks.length = simHeaderSize) (hs : Stands tpdu w acks stop w')
    (hended : ∀ heard sent, Ended tpdu heard stop sent (outcome, w')) :
    ∃ heard stop sent, Exchanged tpdu w heard stop sent (outcome, w') := by
  obtain ⟨heard, hprogress⟩ := hs
  refine ⟨heard, stop, _, ⟨acks, .inl hacks, hprogress⟩, List.take_prefix _ _, fun _ => ?_, ?_, hended _ _⟩
  · rw [Nat.add_assoc]
    exact List.take_prefix_take_left (Nat.le_add_right _ _)
  · exact (talk_moved_le _ _ heard).1

/-- **The exchange of a TPDU.** On every trace of the card the bytes sent are the first of the TPDU, the
header before anything is heard; no more data is moved than the TPDU carries or announces, and the
response buffer holds received data only if the TPDU carries none. A response is the received data
and the status bytes. -/
theorem simExchangeTpdu_exchanged (tpdu : List UInt8) (hsize : simHeaderSize ≤ tpdu.length)
    (hmax : tpdu.length ≤ ccidMaxDataSize) (w : World) :
    ∃ heard stop sent, Exchanged tpdu w heard stop sent (simExchangeTpdu tpdu w) := by
  have hstart : Progress w w [] [] [] [] [] := ⟨rfl, (List.append_nil _).symm, fun _ => rfl⟩
  have hpartly : ∀ {stop : List CardEvent} {w' : World} {outcome : Outcome Overrun (Option Nat)},
      Partly (tpdu.take simHeaderSize) w [] stop w' →
      (∀ sent, Ended tpdu [] stop sent (outcome, w')) →
      ∃ heard stop sent, Exchanged tpdu w heard stop sent (outcome, w') := by
    intro stop w' outcome hp hended
    obtain ⟨acks, k, hacks, hprogress⟩ := hp
    refine ⟨[], stop, (tpdu.take simHeaderSize).take k, ⟨acks, .inr ⟨rfl, hacks⟩, ?_⟩, ?_,
      fun h => absurd rfl h, Nat.zero_le _, hended _⟩
    · rw [storedOf]
      split_ifs
      · exact hprogress
      · exact hprogress
    · exact (List.take_prefix _ _).trans (List.take_prefix _ _)
  have hleaves : Leaves (fun result w' =>
        (∃ acks, acks.length = simHeaderSize ∧ ExchangeEnds tpdu w acks result w') ∨
        (result = none ∧ ∃ stop, Stops stop ∧ Partly (tpdu.take simHeaderSize) w [] stop w'))
      (fun w' => (∃ acks, acks.length = simHeaderSize ∧ Waits tpdu w acks w') ∨
        (Partly (tpdu.take simHeaderSize) w [] [] w' ∧ w'.input.card = []))
      (simExchangeTpdu tpdu w) := by
    refine (simSendBytes_leaves (tpdu.take simHeaderSize) rfl hstart).bind (fun ok w' hok => ?_)
      (fun w' hw => .inr hw)
    rcases hok with ⟨rfl, acks, hacks, hsent⟩ | ⟨rfl, hcut⟩
    · have hbetween : Between tpdu w acks [] w' := by
        rw [Between, storedOf]
        split_ifs
        · exact hsent
        · exact hsent
      have hstored : (storedOf tpdu (tpduTalk tpdu [])).length = 0 := by
        rw [storedOf]
        split_ifs
        · rfl
        · rfl
      have hloop := simExchangeLoop_leaves hsize hmax w'.input.card.length hbetween rfl (Nat.le_refl _)
      rw [hstored] at hloop
      have hheader : acks.length = simHeaderSize := by
        rw [hacks, List.nil_append, List.length_take, Nat.min_eq_left hsize]
      exact hloop.mono (fun result w'' hr => .inl ⟨acks, hheader, hr⟩) (fun w'' hw => .inl ⟨acks, hheader, hw⟩)
    · exact .inr ⟨rfl, hcut⟩
  generalize simExchangeTpdu tpdu w = r at hleaves
  obtain ⟨outcome, w'⟩ := r
  cases outcome with
  | done result =>
      rcases hleaves with ⟨acks, hacks, ⟨size, rfl, hfinished⟩ | ⟨rfl, stop, hstop, hs⟩⟩ | ⟨rfl, stop, hstop, hp⟩
      · obtain ⟨heard, sw1, sw2, hphase, rfl, hbetween⟩ := hfinished
        have hpending : (tpduTalk tpdu heard).phase.pending = 0 := by
          rw [hphase]
          rfl
        have hheader : tpdu.take simHeaderSize
            <+: tpdu.take (simHeaderSize + (tpduTalk tpdu heard).moved.length) :=
          List.take_prefix_take_left (Nat.le_add_right _ _)
        refine ⟨heard, [], _, ⟨acks, .inl hacks, hbetween⟩, List.take_prefix _ _, fun _ => hheader,
          (talk_moved_le _ _ heard).1, rfl, hheader, sw1, sw2, hphase, ?_⟩
        rw [hbetween.buffer_eq, storedOf, hphase]
        rfl
      · exact exchanged_of_stands hacks hs fun _ _ => hstop
      · exact hpartly hp fun _ => hstop
  | waiting =>
      rcases hleaves with ⟨acks, hacks, hs, hcard⟩ | ⟨hp, hcard⟩
      · exact exchanged_of_stands hacks hs fun _ _ => ⟨rfl, hcard⟩
      · exact hpartly hp fun _ => ⟨rfl, hcard⟩
  | fault e => exact absurd hleaves id

/-- A card that accepts five bytes and then answers. -/
def cardWorld (answers : List UInt8) : World where
  reader :=
    { con := 0, brf := simDefaultBrf, irqen := 0, imsc := 0, t0Parameters := defaultT0Parameters
      iccActive := true }
  rxb := 0
  buffers := fun _ _ => 0
  input :=
    { host := [], card := (List.replicate simHeaderSize 0 ++ answers).map CardEvent.ok, supply := [] }
  toHost := []
  toCard := []

/-- A GET RESPONSE of two bytes, with a NULL byte before them. -/
theorem simExchangeTpdu_exchanged_response :
    (∃ heard stop sent, Exchanged [0xA0, 0xC0, 0, 0, 2] (cardWorld [0x60, 0xC0, 0x11, 0x22, 0x90, 0x00])
      heard stop sent (simExchangeTpdu [0xA0, 0xC0, 0, 0, 2]
        (cardWorld [0x60, 0xC0, 0x11, 0x22, 0x90, 0x00]))) ∧
    (simExchangeTpdu [0xA0, 0xC0, 0, 0, 2] (cardWorld [0x60, 0xC0, 0x11, 0x22, 0x90, 0x00])).1
      = .done (some 4) :=
  ⟨simExchangeTpdu_exchanged [0xA0, 0xC0, 0, 0, 2] (by decide) (by decide)
    (cardWorld [0x60, 0xC0, 0x11, 0x22, 0x90, 0x00]), by decide +kernel⟩

/-- A TPDU with two bytes of data whose header announces one: both are sent. -/
theorem simExchangeTpdu_past_p3 :
    (simExchangeTpdu [0xA0, 0xD6, 0, 0, 1, 0x11, 0x22] (cardWorld [0xD6, 0, 0, 0x90, 0x00])).1
      = .done (some 2) ∧
    (simExchangeTpdu [0xA0, 0xD6, 0, 0, 1, 0x11, 0x22] (cardWorld [0xD6, 0, 0, 0x90, 0x00])).2.toCard
      = [0xA0, 0xD6, 0, 0, 1, 0x11, 0x22] ∧
    simHeaderToDataSize [0xA0, 0xD6, 0, 0, 1, 0x11, 0x22] = 1 := by
  decide +kernel

end Pmb887x.SimReader
