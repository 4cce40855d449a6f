import Pmb887x.IoBridge.Host
import Pmb887x.Library.BitFields
import Mathlib.Tactic.SplitIfs

set_option autoImplicit false

/-! # One command at both ends

What the phone sends for each command, in the main loop and in the interrupt handler, and what the host makes
of it. The host reads as much as the phone sends. -/

namespace Pmb887x.IoBridge

open Library Library.Prog

/-! ## Words -/

theorem toNat_toUInt32_shiftLeft (a : UInt8) {k : UInt32} (h : k.toNat ≤ 24) :
    (a.toUInt32 <<< k).toNat = a.toNat <<< k.toNat := by
  have ha := a.toNat_lt
  have hk : k.toNat % 32 = k.toNat := Nat.mod_eq_of_lt (by omega)
  have hlt : a.toNat <<< k.toNat < 2 ^ 32 := by
    rw [Nat.shiftLeft_eq]
    calc a.toNat * 2 ^ k.toNat < 2 ^ 8 * 2 ^ k.toNat := Nat.mul_lt_mul_of_pos_right ha (Nat.two_pow_pos _)
      _ ≤ 2 ^ 8 * 2 ^ 24 := Nat.mul_le_mul_left _ (Nat.pow_le_pow_right (by decide) h)
  rw [UInt32.toNat_shiftLeft, UInt8.toNat_toUInt32, hk, Nat.mod_eq_of_lt hlt]

theorem beWord_toNat (a b c d : UInt8) :
    (beWord a b c d).toNat = d.toNat + 2 ^ 8 * (c.toNat + 2 ^ 8 * (b.toNat + 2 ^ 8 * a.toNat)) := by
  have hb := b.toNat_lt
  have hc := c.toNat_lt
  have hd := d.toNat_lt
  have hcd : d.toNat + 2 ^ 8 * c.toNat < 2 ^ 16 := by omega
  have hbcd : d.toNat + 2 ^ 8 * c.toNat + 2 ^ 16 * b.toNat < 2 ^ 24 := by omega
  simp only [beWord, UInt32.toNat_or, UInt8.toNat_toUInt32, toNat_toUInt32_shiftLeft a (k := 24) (by decide),
    toNat_toUInt32_shiftLeft b (k := 16) (by decide), toNat_toUInt32_shiftLeft c (k := 8) (by decide)]
  change a.toNat <<< 24 ||| b.toNat <<< 16 ||| c.toNat <<< 8 ||| d.toNat = _
  rw [Nat.or_comm, Nat.or_comm (_ ||| _), Nat.or_comm (a.toNat <<< 24), ← Nat.or_assoc, ← Nat.or_assoc,
    or_shiftLeft hd, or_shiftLeft hcd, or_shiftLeft hbcd]
  omega

/-- The bytes of a word as it is sent to the host, the lowest first. -/
def wordBytes (value : UInt32) : List UInt8 :=
  [(value >>> 0).toUInt8, (value >>> 8).toUInt8, (value >>> 16).toUInt8, (value >>> 24).toUInt8]

/-- The four bytes of a word. -/
theorem toNat_eq_bytes (x : UInt32) :
    x.toUInt8.toNat + 2 ^ 8 * ((x >>> 8).toUInt8.toNat + 2 ^ 8 * ((x >>> 16).toUInt8.toNat
      + 2 ^ 8 * (x >>> 24).toUInt8.toNat)) = x.toNat := by
  have hx := x.toNat_lt
  simp only [UInt32.toNat_toUInt8, UInt32.toNat_shiftRight, Nat.shiftRight_eq_div_pow]
  change x.toNat % 2 ^ 8 + 2 ^ 8 * (x.toNat / 2 ^ 8 % 2 ^ 8 + 2 ^ 8 * (x.toNat / 2 ^ 16 % 2 ^ 8
    + 2 ^ 8 * (x.toNat / 2 ^ 24 % 2 ^ 8))) = x.toNat
  omega

theorem beWord_beBytes (x : UInt32) :
    beWord (x >>> 24).toUInt8 (x >>> 16).toUInt8 (x >>> 8).toUInt8 x.toUInt8 = x := by
  apply UInt32.toNat_inj.mp
  rw [beWord_toNat, toNat_eq_bytes]

theorem unpackV_wordBytes (x : UInt32) : unpackV (wordBytes x) = x := by
  apply UInt32.toNat_inj.mp
  have hbytes := toNat_eq_bytes x
  have hx := x.toNat_lt
  have hzero : x >>> 0 = x := by
    apply UInt32.toNat_inj.mp
    rw [UInt32.toNat_shiftRight]
    rfl
  rw [unpackV, UInt32.toNat_ofNat', wordBytes, hzero]
  simp only [ofLeBytes]
  omega

theorem runs_getWord (addr : UInt32) : Runs getWord (beBytes addr) [] addr := by
  refine Runs.recv (Runs.recv (Runs.recv (Runs.recv ?_)))
  change Runs (ret (beWord (addr >>> 24).toUInt8 (addr >>> 16).toUInt8 (addr >>> 8).toUInt8 addr.toUInt8)) [] [] addr
  rw [beWord_beBytes]
  exact Runs.ret addr

theorem runs_putWord (value : UInt32) : Runs (putWord value) [] (wordBytes value) () :=
  Runs.send (Runs.send (Runs.send (Runs.send (Runs.ret ()))))

/-! ## The phone -/

def statusReply (irq : Bool) (currentIrq : UInt32) : List UInt8 :=
  if irq then ['!'.toUInt8, currentIrq.toUInt8] else [';'.toUInt8]

def pingReply (irq : Bool) (currentIrq : UInt32) : List UInt8 :=
  if irq then [','.toUInt8, currentIrq.toUInt8] else ['.'.toUInt8]

/-- Both handlers end with the status. -/
theorem replies_putStatus {α : Type} (irq : Bool) (currentIrq : UInt32) (a : α) :
    Replies (putStatus irq currentIrq >>= fun _ => pure a) [] (statusReply irq currentIrq) a := by
  cases irq with
  | false => exact Replies.last _ a
  | true => exact Replies.send (Replies.last _ a)

variable {σ : Type} (cpu : Cpu) (bus : Bus σ) (irq : Bool) (d : Device σ)

theorem replies_ping :
    Replies (commandHandler cpu bus irq d) ['.'.toUInt8] (pingReply irq d.currentIrq) (.returned 1 d) := by
  refine Replies.recv ?_
  cases irq with
  | false => exact Replies.last _ _
  | true => exact Replies.send (Replies.last _ _)

theorem isRead_readLetter (size : Nat) : isRead (readLetter size) = true := by
  rw [readLetter]
  split_ifs <;> decide

theorem isWrite_writeLetter (size : Nat) : isWrite (writeLetter size) = true := by
  rw [writeLetter]
  split_ifs <;> decide

theorem ne_ping_of_isRead {c : UInt8} (h : isRead c = true) : c ≠ '.'.toUInt8 := by
  rintro rfl
  exact absurd h (by decide)

theorem ne_ping_of_isWrite {c : UInt8} (h : isWrite c = true) : c ≠ '.'.toUInt8 ∧ isRead c = false := by
  rw [isWrite, decide_eq_true_eq] at h
  rcases h with rfl | rfl | rfl | rfl <;> decide

theorem replies_read {c : UInt8} (h : isRead c = true) (addr : UInt32) :
    Replies (commandHandler cpu bus irq d) (c :: beBytes addr)
      (wordBytes (readValue bus c addr d).1 ++ statusReply irq (readValue bus c addr d).2.currentIrq)
      (.returned 1 (readValue bus c addr d).2) := by
  refine Replies.recv ?_
  change Replies (if c = '.'.toUInt8 then _ else if isRead c = true then _ else _) _ _ _
  rw [if_neg (ne_ping_of_isRead h), if_pos h, ← List.append_nil (beBytes addr)]
  exact (runs_getWord addr).bind_replies ((runs_putWord _).bind_replies (replies_putStatus irq _ _))

theorem replies_write {c : UInt8} (h : isWrite c = true) (addr value : UInt32) :
    Replies (commandHandler cpu bus irq d) (c :: beBytes addr ++ beBytes value)
      (statusReply irq (writeValue cpu bus c addr value irq d).currentIrq)
      (.returned (if irq ∧ (writeValue cpu bus c addr value irq d).currentIrq = 0 then 2 else 1)
        (writeValue cpu bus c addr value irq d)) := by
  obtain ⟨hping, hread⟩ := ne_ping_of_isWrite h
  refine Replies.recv ?_
  change Replies
    (if c = '.'.toUInt8 then _ else if isRead c = true then _ else if isWrite c = true then _ else _) _ _ _
  rw [if_neg hping, if_neg (Bool.eq_false_iff.mp hread), if_pos h, ← List.append_nil (beBytes value)]
  exact (runs_getWord addr).bind_replies ((runs_getWord value).bind_replies (replies_putStatus irq _ _))

/-! ## The host -/

/-- The socket after a reply. -/
def afterReply (irq : Bool) (currentIrq : UInt32) (socket : IrqSocket) : IrqSocket :=
  if irq then writeIrq socket currentIrq.toUInt8 else socket

theorem runs_recvWord (value : UInt32) : Runs (recvAll 4) (wordBytes value) [] (wordBytes value) :=
  runs_recvAll (wordBytes value)

theorem exists_cmdWrite (addr : UInt32) (size : Nat) (value : UInt32) (socket : IrqSocket) :
    ∃ k, cmdWriteUnaligned addr size value socket
        = (sendAll (writeRequest addr size value) >>= fun _ => k) ∧
      ∀ irq n, Runs k (statusReply irq n) [] (.ok (), afterReply irq n socket) := by
  refine ⟨_, rfl, fun irq n => ?_⟩
  cases irq with
  | false => exact Runs.recv (Runs.ret _)
  | true => exact Runs.recv (Runs.recv (Runs.ret _))

theorem exists_cmdRead (addr : UInt32) (size : Nat) (socket : IrqSocket) :
    ∃ k, cmdReadUnaligned addr size socket = (sendAll (readRequest addr size) >>= fun _ => k) ∧
      ∀ value irq n, Runs k (wordBytes value ++ statusReply irq n) [] (.ok value, afterReply irq n socket) := by
  refine ⟨_, rfl, fun value irq n => (runs_recvWord value).bind_recv ?_⟩
  rw [unpackV_wordBytes]
  cases irq with
  | false => exact Runs.recv (Runs.ret _)
  | true => exact Runs.recv (Runs.recv (Runs.ret _))

theorem exists_cmdPing (socket : IrqSocket) :
    ∃ k, cmdPing socket = (sendAll ['.'.toUInt8] >>= fun _ => k) ∧
      ∀ irq n, Runs k (pingReply irq n) [] (.ok (), afterReply irq n socket) := by
  refine ⟨_, rfl, fun irq n => ?_⟩
  cases irq with
  | false => exact Runs.recv (Runs.ret _)
  | true => exact Runs.recv (Runs.recv (Runs.ret _))

end Pmb887x.IoBridge
