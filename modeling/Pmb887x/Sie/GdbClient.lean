import Mathlib.Data.List.Basic
import Mathlib.Data.List.TakeWhile
import Mathlib.Tactic.SplitIfs
import Mathlib.Tactic.ByContra

set_option autoImplicit false

/-! # Packets of a GDB stub (`Sie/GDBClient.pm`)

`readPacket` gathers what the stub sends until it has a frame `$payload#checksum`. The frame is sought in all
that was received, but the beginning of every chunk that does not complete it is looked at as if it were the
beginning of the answer. -/

namespace Pmb887x.Sie.Gdb

def plus : UInt8 := 43
def minus : UInt8 := 45
def dollar : UInt8 := 36
def hash : UInt8 := 35
def interrupt : UInt8 := 3

/-! ## The checksum -/

/-- A digit of `%x`. -/
def hexDigit (n : Nat) : UInt8 := UInt8.ofNat (if n < 10 then 48 + n else 87 + n)

/-- The digits of `sprintf("%02x", $chk)`. -/
def chk (data : List UInt8) : List UInt8 :=
  let sum := data.foldl (fun sum c => (sum + c.toNat) &&& 0xFF) 0
  [hexDigit (sum / 16), hexDigit (sum % 16)]

/-- `\w` on bytes -/
def isWord (b : UInt8) : Bool :=
  (48 ≤ b && b ≤ 57) || (65 ≤ b && b ≤ 90) || b == 95 || (97 ≤ b && b ≤ 122)

/-- The packet and the checksum of `/^([+]*)\$([^#]+)#([\w\d]{2})/`. -/
def matchFrame (frame : List UInt8) : Option (List UInt8 × List UInt8) :=
  match frame.dropWhile (· == plus) with
  | [] => none
  | first :: rest =>
      if first = dollar ∧ rest.takeWhile (· != hash) ≠ [] then
        match rest.dropWhile (· != hash) with
        | _ :: a :: b :: _ =>
            if isWord a && isWord b then some (rest.takeWhile (· != hash), [a, b]) else none
        | _ => none
      else none

/-! ## `readPacket` -/

inductive Status where
  /-- `CMD_OK` -/
  | ok
  /-- `CMD_NACK` -/
  | nack
  /-- `CMD_INVALID_RESP` -/
  | invalidResp
  /-- `CMD_CANCEL` -/
  | cancel
  deriving DecidableEq

/-- What `readPacket` returns, and whether the client is still connected. -/
structure Response where
  status : Status
  packet : List UInt8
  connected : Bool
  deriving DecidableEq

/-- The loop of `readPacket`, on the chunks that `recv` returns; nothing while it waits for more. -/
def readChunks (frame : List UInt8) : List (List UInt8) → Option Response
  | [] => none
  | buffer :: chunks =>
      if buffer = [] then some ⟨.cancel, [], false⟩
      else
        match matchFrame (frame ++ buffer) with
        | some (packet, checksum) =>
            if chk packet ≠ checksum then some ⟨.invalidResp, [], false⟩ else some ⟨.ok, packet, true⟩
        | none =>
            if buffer.head? = some minus then some ⟨.nack, [], false⟩
            else if buffer.head? = some interrupt then some ⟨.cancel, [], false⟩
            else if buffer.head? ≠ some plus then some ⟨.invalidResp, [], false⟩
            else readChunks (frame ++ buffer) chunks

def readPacket (connected : Bool) (chunks : List (List UInt8)) : Option Response :=
  if connected then readChunks [] chunks else some ⟨.cancel, [], false⟩

/-- What the stub sends. -/
def answer (payload : List UInt8) : List UInt8 := [plus, dollar] ++ payload ++ [hash] ++ chk payload

/-! ## Frames -/

variable {payload frame behind : List UInt8}

theorem isWord_hexDigit : ∀ n < 16, isWord (hexDigit n) = true := by decide

theorem chk_eq (data : List UInt8) :
    ∃ a b, chk data = [a, b] ∧ isWord a = true ∧ isWord b = true := by
  have hsum : ∀ sum, sum < 256 →
      data.foldl (fun sum c => (sum + c.toNat) &&& 0xFF) sum < 256 := by
    induction data with
    | nil => exact fun _ h => h
    | cons c data ih =>
        intro sum _
        exact ih _ (Nat.lt_of_le_of_lt Nat.and_le_right (by decide))
  have hlt := hsum 0 (by decide)
  exact ⟨_, _, rfl, isWord_hexDigit _ (by omega), isWord_hexDigit _ (by omega)⟩

theorem takeWhile_payload (h : hash ∉ payload) (behind : List UInt8) :
    (payload ++ hash :: behind).takeWhile (· != hash) = payload := by
  rw [List.takeWhile_append_of_pos (fun b hb => by simpa using ne_of_mem_of_not_mem hb h),
    List.takeWhile_cons_of_neg (by decide), List.append_nil]

theorem dropWhile_payload (h : hash ∉ payload) (behind : List UInt8) :
    (payload ++ hash :: behind).dropWhile (· != hash) = hash :: behind := by
  rw [List.dropWhile_append_of_pos (fun b hb => by simpa using ne_of_mem_of_not_mem hb h),
    List.dropWhile_cons_of_neg (by decide)]

/-- The answer has a frame if there is a payload. -/
theorem matchFrame_answer (h : hash ∉ payload) :
    matchFrame (answer payload) = if payload = [] then none else some (payload, chk payload) := by
  obtain ⟨a, b, hchk, ha, hb⟩ := chk_eq payload
  have hanswer : (answer payload).dropWhile (· == plus) = dollar :: (payload ++ hash :: [a, b]) := by
    rw [answer, hchk]
    simp [plus, dollar]
  rw [matchFrame, hanswer]
  simp only [takeWhile_payload h, dropWhile_payload h, true_and, ne_eq, ite_not, ha, hb, Bool.and_self,
    if_true, hchk]

/-- A frame is a dollar, its packet, a hash and two digits. -/
theorem eq_of_matchFrame {packet checksum : List UInt8} (h : matchFrame frame = some (packet, checksum)) :
    ∃ more, frame.dropWhile (· == plus) = dollar :: (packet ++ hash :: (checksum ++ more)) ∧
      hash ∉ packet ∧ checksum.length = 2 := by
  rw [matchFrame] at h
  cases hstart : frame.dropWhile (· == plus) with
  | nil => simp [hstart] at h
  | cons first rest =>
      simp only [hstart] at h
      split_ifs at h with hfirst
      cases hend : rest.dropWhile (· != hash) with
      | nil => simp [hend] at h
      | cons b behind =>
          obtain _ | ⟨c, _ | ⟨d, more⟩⟩ := behind
          · simp [hend] at h
          · simp [hend] at h
          · simp only [hend] at h
            split_ifs at h
            obtain ⟨rfl, rfl⟩ := Prod.mk.inj (Option.some.inj h)
            have hrest := List.takeWhile_append_dropWhile (p := (· != hash)) (l := rest)
            have hhash : b = hash := by
              have hnot := List.head?_dropWhile_not (· != hash) rest
              simpa [hend] using hnot
            refine ⟨more, ?_, fun hmem => ?_, rfl⟩
            · calc first :: rest
                  = dollar :: (rest.takeWhile (· != hash) ++ b :: c :: d :: more) := by
                    rw [← hend, hrest, hfirst.1]
                _ = dollar :: (rest.takeWhile (· != hash) ++ hash :: ([c, d] ++ more)) := by
                    rw [hhash]
                    rfl
            · have hne := List.mem_takeWhile_imp hmem
              simp at hne

/-- What comes before the end of the answer has none. -/
theorem matchFrame_part (h : hash ∉ payload) (hframe : frame ++ behind = answer payload)
    (hbehind : behind ≠ []) : matchFrame frame = none := by
  by_contra hsome
  obtain ⟨⟨packet, checksum⟩, hmatch⟩ := Option.ne_none_iff_exists'.mp hsome
  obtain ⟨more, hstart, hpacket, hlength⟩ := eq_of_matchFrame hmatch
  have hleft : (frame ++ behind).dropWhile (· == plus)
      = dollar :: (packet ++ hash :: (checksum ++ more ++ behind)) := by
    rw [List.dropWhile_append, hstart]
    simp
  have hright : (answer payload).dropWhile (· == plus) = dollar :: (payload ++ hash :: chk payload) := by
    simp [answer, plus, dollar]
  have hsame := (List.cons.inj (hleft.symm.trans ((congrArg _ hframe).trans hright))).2
  have hdigits := congrArg (List.dropWhile (· != hash)) hsame
  rw [dropWhile_payload hpacket, dropWhile_payload h, List.cons.injEq] at hdigits
  obtain ⟨a, b, hchk, -⟩ := chk_eq payload
  have htwo := congrArg List.length (hdigits.2.trans hchk)
  simp only [List.length_append, hlength, List.length_cons, List.length_nil] at htwo
  have hnone := List.length_pos_iff.mpr hbehind
  omega

/-! ## Every cut -/

/-- What is left of the answer is read if every chunk but the last begins like an acknowledgement. -/
theorem readChunks_ok_iff (h : hash ∉ payload) {chunks : List (List UInt8)} (hchunks : [] ∉ chunks)
    (hframe : frame ++ chunks.flatten = answer payload) (hleft : chunks ≠ []) :
    readChunks frame chunks = some ⟨.ok, payload, true⟩
      ↔ payload ≠ [] ∧ ∀ chunk ∈ chunks.dropLast, chunk.head? = some plus := by
  induction chunks generalizing frame with
  | nil => exact absurd rfl hleft
  | cons buffer chunks ih =>
      have hbuffer : buffer ≠ [] := fun hnil => hchunks (hnil ▸ List.mem_cons_self)
      have hrest : [] ∉ chunks := fun hmem => hchunks (List.mem_cons_of_mem _ hmem)
      have hframe' : (frame ++ buffer) ++ chunks.flatten = answer payload := by
        rw [List.append_assoc, ← List.flatten_cons, hframe]
      rw [readChunks, if_neg hbuffer]
      by_cases hlast : chunks = []
      · -- the frame is complete
        subst hlast
        rw [List.flatten_nil, List.append_nil] at hframe'
        rw [hframe', matchFrame_answer h]
        by_cases hpayload : payload = []
        · simp only [if_pos hpayload]
          split_ifs
          · simp [hpayload]
          · simp [hpayload]
          · simp [hpayload]
          · simp [readChunks, hpayload]
        · simp [hpayload]
      · have hflatten : chunks.flatten ≠ [] := by
          obtain ⟨chunk, more, rfl⟩ := List.exists_cons_of_ne_nil hlast
          have hchunk : chunk ≠ [] := fun hnil => hrest (hnil ▸ List.mem_cons_self)
          rw [List.flatten_cons]
          exact List.append_ne_nil_of_left_ne_nil hchunk _
        simp only [matchFrame_part h hframe' hflatten]
        rw [List.dropLast_cons_of_ne_nil hlast, List.forall_mem_cons, ← and_assoc, and_comm (a := payload ≠ []),
          and_assoc, ← ih hrest hframe' hlast]
        by_cases hplus : buffer.head? = some plus
        · simp [hplus, plus, minus, interrupt]
        · split_ifs
          · simp [hplus]
          · simp [hplus]
          · simp [hplus]

/-- **When a packet is read**: the payload is not empty, and every chunk between the first and the last begins
with a plus sign. -/
theorem readPacket_ok_iff (payload : List UInt8) (h : hash ∉ payload) (chunks : List (List UInt8))
    (hchunks : ∀ chunk ∈ chunks, chunk ≠ []) (hanswer : chunks.flatten = answer payload) :
    readPacket true chunks = some ⟨.ok, payload, true⟩
      ↔ payload ≠ [] ∧ ∀ chunk ∈ chunks.tail.dropLast, chunk.head? = some plus := by
  have hne : [] ∉ chunks := fun hmem => hchunks [] hmem rfl
  obtain _ | ⟨first, rest⟩ := chunks
  · cases hanswer
  · rw [readPacket, if_pos rfl, readChunks_ok_iff h hne hanswer (List.cons_ne_nil _ _)]
    by_cases hrest : rest = []
    · simp [hrest]
    · -- the first chunk begins with the acknowledgement of the stub
      have hfirst : first.head? = some plus := by
        obtain ⟨b, more, rfl⟩ := List.exists_cons_of_ne_nil (hchunks first List.mem_cons_self)
        rw [List.flatten_cons, List.cons_append] at hanswer
        rw [List.head?_cons, (List.cons.inj hanswer).1]
      rw [List.dropLast_cons_of_ne_nil hrest, List.forall_mem_cons, List.tail_cons]
      simp [hfirst]

/-- `+$O+K#c5` in three chunks: the one in the middle begins with the plus sign of the payload. -/
theorem readPacket_ok_three :
    readPacket true [[43, 36, 79], [43, 75], [35, 99, 53]] = some ⟨.ok, [79, 43, 75], true⟩ :=
  (readPacket_ok_iff [79, 43, 75] (by decide) [[43, 36, 79], [43, 75], [35, 99, 53]] (by decide) (by decide)).mpr
    (by decide)

/-- `+$OK#9a` in three chunks is refused, and `+$#00` is never answered. -/
theorem readPacket_not_ok :
    [[43, 36, 79], [75, 35], [57, 97]].flatten = answer [79, 75] ∧
      readPacket true [[43, 36, 79], [75, 35], [57, 97]] = some ⟨.invalidResp, [], false⟩ ∧
      [[43, 36, 35, 48, 48]].flatten = answer [] ∧ readPacket true [[43, 36, 35, 48, 48]] = none := by
  decide

end Pmb887x.Sie.Gdb
