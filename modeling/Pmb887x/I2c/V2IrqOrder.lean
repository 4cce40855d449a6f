import Pmb887x.I2c.V2Irq
import Pmb887x.Library.Slices

set_option autoImplicit false

/-! # The words of an interrupt-driven write

The foreground and the handler of the request interrupts fill the FIFO from the same buffer. As long
as every request interrupt comes where it is `harmless`, the words are the packing of the bytes on
the bus; between the statements that make up a word it is not, and the last section shows a byte
that is sent twice and a counter that wraps. -/

namespace Pmb887x.I2c.V2Irq

open Library

/-! ## Packing -/

/-- A FIFO word: byte `i` in the bits from `i * alignment * 8` on. -/
def packWord (alignment : Alignment) (bs : List UInt8) : UInt32 :=
  bs.zipIdx.foldl
    (fun value b => value ||| b.1.toUInt32 <<< UInt32.ofNat (b.2 * alignment.bytes * 8)) 0

/-- The FIFO words of a byte string, all of them full but the last. -/
def packing (alignment : Alignment) (bytes : List UInt8) : List UInt32 :=
  (List.range ((bytes.length + alignment.capacity - 1) / alignment.capacity)).map fun k =>
    packWord alignment (window bytes (k * alignment.capacity) alignment.capacity)

/-- The bytes of a write on the bus. -/
def busBytes (mem : Memory) (address : UInt8) (tx size : Nat) : List UInt8 :=
  (address <<< 1) :: mem.readBytes tx 0 size

theorem Alignment.capacity_pos (alignment : Alignment) : 0 < alignment.capacity := by
  cases alignment with
  | one => decide
  | two => decide
  | four => decide

theorem packWord_snoc (alignment : Alignment) (bs : List UInt8) (b : UInt8) :
    packWord alignment (bs ++ [b]) = packWord alignment bs |||
      b.toUInt32 <<< UInt32.ofNat (bs.length * alignment.bytes * 8) := by
  rw [packWord, packWord, List.zipIdx_append, List.foldl_append, Nat.zero_add]
  rfl

theorem busBytes_length (mem : Memory) (address : UInt8) (tx size : Nat) :
    (busBytes mem address tx size).length = size + 1 := by
  rw [busBytes, List.length_cons, Memory.readBytes, List.length_map, List.length_range]

theorem busBytes_succ {mem : Memory} {address : UInt8} {tx size n : Nat} (hpos : 0 < n)
    (h : n < size + 1) :
    (busBytes mem address tx size)[n]? = some (mem.read (tx + (n - 1)) 0) := by
  obtain ⟨k, rfl⟩ := Nat.exists_eq_succ_of_ne_zero (Nat.ne_of_gt hpos)
  rw [busBytes, List.getElem?_cons_succ, Memory.readBytes, List.getElem?_map,
    List.getElem?_range (by omega)]
  simp only [Option.map_some, Memory.read, Pmb887x.Library.address]
  congr 3
  omega

/-- A word grows by the byte that comes next. -/
theorem packWord_window_succ {alignment : Alignment} {bytes : List UInt8} {start n : Nat}
    {b : UInt8} (h : bytes[start + n]? = some b) :
    packWord alignment (window bytes start (n + 1)) = packWord alignment (window bytes start n) |||
      b.toUInt32 <<< UInt32.ofNat (n * alignment.bytes * 8) := by
  have hlt : start + n < bytes.length := (List.getElem?_eq_some_iff.mp h).1
  rw [window_succ h, packWord_snoc, length_window (by omega)]

/-- The words so far with the next one. -/
theorem packing_take_succ {alignment : Alignment} {bytes : List UInt8} {w : Nat}
    (h : w * alignment.capacity < bytes.length) :
    (packing alignment bytes).take w ++
        [packWord alignment (window bytes (w * alignment.capacity) alignment.capacity)]
      = (packing alignment bytes).take (w + 1) := by
  have hpos := alignment.capacity_pos
  have hw : w < (bytes.length + alignment.capacity - 1) / alignment.capacity := by
    rw [Nat.lt_iff_add_one_le, Nat.le_div_iff_mul_le hpos, Nat.add_mul]
    omega
  rw [List.take_add_one, packing, List.getElem?_map, List.getElem?_range hw]
  rfl

theorem packing_take_all {alignment : Alignment} {bytes : List UInt8} {w : Nat}
    (h : bytes.length ≤ w * alignment.capacity) :
    (packing alignment bytes).take w = packing alignment bytes := by
  have hpos := alignment.capacity_pos
  apply List.take_of_length_le
  rw [packing, List.length_map, List.length_range]
  apply Nat.le_of_lt_succ
  rw [Nat.div_lt_iff_lt_mul hpos, Nat.succ_mul]
  omega

/-! ## What one activation of `write_fifo` keeps -/

section

variable (config : Config) (address : UInt8) (tx size : Nat)

/-- `n` bytes of the bus are taken and `w` words are written. -/
structure Sent (b : Buffers) (n w : Nat) : Prop where
  reading : b.reading = false
  address_eq : b.address = address <<< 1
  addressSent : b.addressSent = decide (0 < n)
  le : n ≤ size + 1
  tx_eq : b.tx = tx + (n - 1)
  remaining_eq : b.remaining = size - (n - 1)
  txd_eq : b.txd = (packing config.txfa (busBytes config.mem address tx size)).take w

/-- Between two words. -/
def Idle (b : Buffers) : Prop :=
  ∃ w, Sent config address tx size b (min (w * config.txfa.capacity) (size + 1)) w

/-- All words are written. -/
def AllSent (b : Buffers) : Prop :=
  ∃ w, Sent config address tx size b (size + 1) w ∧ size + 1 ≤ w * config.txfa.capacity

/-- The word with the first `n` bytes of the piece `w`. -/
def partWord (w n : Nat) : UInt32 :=
  packWord config.txfa
    (window (busBytes config.mem address tx size) (w * config.txfa.capacity) n)

/-- An activation that is alone at work: what is taken, and what is in its local variables. -/
inductive FrameOk (b : Buffers) : Frame → Prop
  | loop {w value offset}
      (h : Sent config address tx size b (min (w * config.txfa.capacity) (size + 1)) w) :
      FrameOk b ⟨.loop, value, offset⟩
  | locals {w value offset}
      (h : Sent config address tx size b (w * config.txfa.capacity) w)
      (hlt : w * config.txfa.capacity < size + 1) : FrameOk b ⟨.locals, value, offset⟩
  | ifAddress {w}
      (h : Sent config address tx size b (w * config.txfa.capacity) w)
      (hlt : w * config.txfa.capacity < size + 1) : FrameOk b ⟨.ifAddress, 0, 0⟩
  | valueAddress (h : Sent config address tx size b 0 0) : FrameOk b ⟨.valueAddress, 0, 0⟩
  | sentTrue (h : Sent config address tx size b 0 0) :
      FrameOk b ⟨.sentTrue, partWord config address tx size 0 1, 0⟩
  | offsetOne (h : Sent config address tx size b 1 0) :
      FrameOk b ⟨.offsetOne, partWord config address tx size 0 1, 0⟩
  | inner {w offset}
      (h : Sent config address tx size b (w * config.txfa.capacity + offset) w)
      (hpos : 0 < w * config.txfa.capacity + offset) (hlt : w * config.txfa.capacity < size + 1)
      (hoffset : offset ≤ config.txfa.capacity) :
      FrameOk b ⟨.inner, partWord config address tx size w offset, offset⟩
  | orByte {w offset}
      (h : Sent config address tx size b (w * config.txfa.capacity + offset) w)
      (hpos : 0 < w * config.txfa.capacity + offset)
      (hlt : w * config.txfa.capacity + offset < size + 1)
      (hoffset : offset < config.txfa.capacity) :
      FrameOk b ⟨.orByte, partWord config address tx size w offset, offset⟩
  | decRemaining {w offset}
      (h : Sent config address tx size { b with tx := b.tx - 1 }
        (w * config.txfa.capacity + offset) w)
      (htx : 0 < b.tx) (hpos : 0 < w * config.txfa.capacity + offset)
      (hlt : w * config.txfa.capacity + offset < size + 1)
      (hoffset : offset < config.txfa.capacity) :
      FrameOk b ⟨.decRemaining, partWord config address tx size w (offset + 1), offset⟩
  | incOffset {w offset}
      (h : Sent config address tx size b (w * config.txfa.capacity + (offset + 1)) w)
      (hlt : w * config.txfa.capacity < size + 1) (hoffset : offset < config.txfa.capacity) :
      FrameOk b ⟨.incOffset, partWord config address tx size w (offset + 1), offset⟩
  | put {w offset}
      (h : Sent config address tx size b
        (min (w * config.txfa.capacity + config.txfa.capacity) (size + 1)) w)
      (hlt : w * config.txfa.capacity < size + 1) :
      FrameOk b ⟨.put, partWord config address tx size w config.txfa.capacity, offset⟩

end

section

variable {config : Config} {address : UInt8} {tx size : Nat} {b : Buffers} {n w : Nat}

theorem AllSent.idle (h : AllSent config address tx size b) : Idle config address tx size b := by
  obtain ⟨w, hsent, hw⟩ := h
  refine ⟨w, ?_⟩
  rwa [Nat.min_eq_right hw]

theorem AllSent.txd_eq (h : AllSent config address tx size b) :
    b.txd = packing config.txfa (busBytes config.mem address tx size) := by
  obtain ⟨w, hsent, hw⟩ := h
  rw [hsent.txd_eq, packing_take_all]
  rwa [busBytes_length]

theorem AllSent.nothing_left (h : AllSent config address tx size b) :
    b.addressSent = true ∧ b.remaining = 0 := by
  obtain ⟨w, hsent, -⟩ := h
  refine ⟨by rw [hsent.addressSent]; simp, ?_⟩
  rw [hsent.remaining_eq]
  omega

/-- Something is left to send exactly if not all bytes are taken. -/
theorem Sent.left_iff (h : Sent config address tx size b n w) :
    (b.addressSent = false ∨ (b.reading = false ∧ b.remaining ≠ 0)) ↔ n < size + 1 := by
  have hle := h.le
  rw [h.addressSent, h.reading, h.remaining_eq, decide_eq_false_iff_not]
  simp only [true_and]
  omega

theorem partWord_zero (config : Config) (address : UInt8) (tx size w : Nat) :
    partWord config address tx size w 0 = 0 := by
  rw [partWord, window_zero]
  rfl

/-- The word with the address byte. -/
theorem partWord_address (config : Config) (address : UInt8) (tx size : Nat) :
    partWord config address tx size 0 1 = (address <<< 1).toUInt32 := by
  have hfirst : (busBytes config.mem address tx size)[0 + 0]? = some (address <<< 1) := rfl
  rw [partWord, Nat.zero_mul, packWord_window_succ hfirst, window_zero]
  simp [packWord]

/-- The word with one byte more of `tx`. -/
theorem partWord_succ {offset : Nat} (hpos : 0 < w * config.txfa.capacity + offset)
    (hlt : w * config.txfa.capacity + offset < size + 1) :
    partWord config address tx size w (offset + 1) = partWord config address tx size w offset |||
      (config.mem.read (tx + (w * config.txfa.capacity + offset - 1)) 0).toUInt32 <<<
        UInt32.ofNat (offset * config.txfa.bytes * 8) :=
  packWord_window_succ (busBytes_succ hpos hlt)

/-- The word is full, or the bytes are at their end. -/
theorem partWord_full {offset : Nat} (hoffset : offset ≤ config.txfa.capacity)
    (hfull : offset < config.txfa.capacity → size + 1 ≤ w * config.txfa.capacity + offset) :
    partWord config address tx size w offset = partWord config address tx size w config.txfa.capacity := by
  rcases Nat.eq_or_lt_of_le hoffset with rfl | hless
  · rfl
  · have hend := hfull hless
    rw [partWord, partWord, window_clipped]
    · rw [busBytes_length]
      omega
    · rw [busBytes_length]
      omega

/-- The address byte is the first of the first word. -/
theorem frameOk_ifAddress (h : Sent config address tx size b (w * config.txfa.capacity) w)
    (hlt : w * config.txfa.capacity < size + 1) :
    FrameOk config address tx size b ⟨if b.addressSent then .inner else .valueAddress, 0, 0⟩ := by
  have hcapacity := config.txfa.capacity_pos
  by_cases hpos : 0 < w * config.txfa.capacity
  · rw [if_pos (by rw [h.addressSent, decide_eq_true hpos]), ← partWord_zero config address tx size w]
    exact .inner h hpos hlt (Nat.zero_le _)
  · have hw : w = 0 := by
      by_contra hne
      exact hpos (Nat.mul_pos (Nat.pos_of_ne_zero hne) hcapacity)
    subst hw
    rw [Nat.zero_mul] at h
    rw [if_neg (by rw [h.addressSent]; decide)]
    exact .valueAddress h

/-- The inner loop goes on until the word is full or nothing is left. -/
theorem frameOk_inner {offset : Nat}
    (h : Sent config address tx size b (w * config.txfa.capacity + offset) w)
    (hpos : 0 < w * config.txfa.capacity + offset) (hlt : w * config.txfa.capacity < size + 1)
    (hoffset : offset ≤ config.txfa.capacity) :
    FrameOk config address tx size b
      ⟨if b.reading = false ∧ offset < config.txfa.capacity ∧ b.remaining ≠ 0 then .orByte else .put,
        partWord config address tx size w offset, offset⟩ := by
  have hle := h.le
  by_cases hnext : offset < config.txfa.capacity ∧ w * config.txfa.capacity + offset < size + 1
  · rw [if_pos ⟨h.reading, hnext.1, by rw [h.remaining_eq]; omega⟩]
    exact .orByte h hpos hnext.2 hnext.1
  · rw [if_neg (by rw [h.remaining_eq]; omega), partWord_full hoffset (by omega)]
    refine .put ?_ hlt
    have hn : w * config.txfa.capacity + offset
        = min (w * config.txfa.capacity + config.txfa.capacity) (size + 1) := by omega
    rwa [← hn]

/-- `remaining` follows `tx`. -/
theorem sent_decRemaining (hsize : size < 2 ^ 32)
    (h : Sent config address tx size { b with tx := b.tx - 1 } n w) (htx : 0 < b.tx) (hpos : 0 < n)
    (hlt : n < size + 1) :
    Sent config address tx size { b with remaining := sub32 b.remaining 1 } (n + 1) w := by
  have htx' := h.tx_eq
  have hremaining := h.remaining_eq
  have hsent := h.addressSent
  simp only [] at htx' hremaining hsent
  rw [decide_eq_true hpos] at hsent
  refine { h with
    addressSent := ?_, le := by omega, tx_eq := by simp only []; omega, remaining_eq := ?_ }
  · rw [decide_eq_true (Nat.succ_pos n)]
    exact hsent
  · simp only []
    rw [hremaining, sub32_of_le (by omega) (by omega)]
    omega

/-- **One statement of `write_fifo`.** It keeps what is taken and written in step, and returns when
all is sent. -/
theorem writeFifo_ok (hsize : size < 2 ^ 32) {frame : Frame}
    (h : FrameOk config address tx size b frame) :
    (writeFifo config b frame).2.elim (AllSent config address tx size (writeFifo config b frame).1)
      (FrameOk config address tx size (writeFifo config b frame).1) := by
  have hcapacity := config.txfa.capacity_pos
  cases h with
  | @loop w value offset h =>
      simp only [writeFifo]
      by_cases hlt : w * config.txfa.capacity < size + 1
      · rw [Nat.min_eq_left (Nat.le_of_lt hlt)] at h
        rw [if_pos (h.left_iff.mpr hlt)]
        exact .locals h hlt
      · rw [Nat.min_eq_right (by omega)] at h
        rw [if_neg (by rw [h.left_iff]; omega)]
        exact ⟨w, h, by omega⟩
  | locals h hlt => exact .ifAddress h hlt
  | ifAddress h hlt => exact frameOk_ifAddress h hlt
  | valueAddress h =>
      simp only [writeFifo, h.address_eq, ← partWord_address config address tx size]
      exact .sentTrue h
  | sentTrue h =>
      refine .offsetOne ?_
      exact { h with
        addressSent := rfl, le := by omega, tx_eq := h.tx_eq, remaining_eq := h.remaining_eq }
  | offsetOne h =>
      refine .inner (w := 0) ?_ ?_ ?_ ?_
      · rwa [Nat.zero_mul]
      · omega
      · omega
      · exact hcapacity
  | inner h hpos hlt hoffset => exact frameOk_inner h hpos hlt hoffset
  | @orByte w offset h hpos hlt hoffset =>
      simp only [writeFifo, h.tx_eq, ← partWord_succ hpos hlt]
      exact .decRemaining { h with tx_eq := by simp only []; omega } (by simp only []; omega) hpos
        hlt hoffset
  | decRemaining h htx hpos hlt hoffset =>
      exact .incOffset (sent_decRemaining hsize h htx hpos hlt) (by omega) hoffset
  | @incOffset w offset h hlt hoffset => exact .inner h (by omega) hlt (by omega)
  | @put w offset h hlt =>
      refine .loop (w := w + 1) ?_
      rw [Nat.add_mul, Nat.one_mul]
      refine { h with txd_eq := ?_ }
      rw [← packing_take_succ (by rwa [busBytes_length]), ← h.txd_eq]
      rfl

/-! ## What a run keeps -/

/-- What the foreground has done, when no handler is at work on the FIFO. -/
def ForegroundOk (config : Config) (address : UInt8) (tx size : Nat) (b : Buffers) :
    Foreground → Prop
  | .fifo frame => FrameOk config address tx size b frame
  | .wait => AllSent config address tx size b
  | .returned _ => AllSent config address tx size b
  | _ => Idle config address tx size b

/-- The states of a write: either the buffers are as the foreground needs them, and a handler has
nothing to send, or a handler fills the FIFO before the foreground does. -/
inductive Inv (config : Config) (address : UInt8) (tx size : Nat) (s : State) : Prop
  | paused (hok : ForegroundOk config address tx size s.buffers s.foreground)
      (hhandler : ∀ frame, s.handler = some (.fifo frame) →
        frame.pc = .loop ∧ s.buffers.addressSent = true ∧ s.buffers.remaining = 0)
  | filling {frame} (hhandler : s.handler = some (.fifo frame))
      (hopen : s.foreground.assembling = false ∧ s.foreground.filled = false)
      (hok : FrameOk config address tx size s.buffers frame)

theorem FrameOk.reading {frame : Frame} (h : FrameOk config address tx size b frame) :
    b.reading = false := by
  cases h with
  | loop h => exact h.reading
  | locals h => exact h.reading
  | ifAddress h => exact h.reading
  | valueAddress h => exact h.reading
  | sentTrue h => exact h.reading
  | offsetOne h => exact h.reading
  | inner h => exact h.reading
  | orByte h => exact h.reading
  | decRemaining h => exact h.reading
  | incOffset h => exact h.reading
  | put h => exact h.reading

theorem ForegroundOk.idle {foreground : Foreground}
    (h : ForegroundOk config address tx size b foreground)
    (hassembling : foreground.assembling = false) : Idle config address tx size b := by
  cases foreground with
  | fifo frame =>
      cases h with
      | loop h => exact ⟨_, h⟩
      | _ => cases hassembling
  | wait => exact AllSent.idle h
  | returned result => exact AllSent.idle h
  | _ => exact h

theorem AllSent.foregroundOk (h : AllSent config address tx size b) {foreground : Foreground}
    (hassembling : foreground.assembling = false) :
    ForegroundOk config address tx size b foreground := by
  cases foreground with
  | fifo frame =>
      obtain ⟨pc, value, offset⟩ := frame
      obtain ⟨w, hw⟩ := h.idle
      obtain rfl : pc = .loop := by simpa [Foreground.assembling] using hassembling
      exact .loop hw
  | wait => exact h
  | returned result => exact h
  | _ => exact h.idle

theorem ForegroundOk.reading {foreground : Foreground}
    (h : ForegroundOk config address tx size b foreground) : b.reading = false := by
  cases hassembling : foreground.assembling with
  | false =>
      obtain ⟨w, hw⟩ := h.idle hassembling
      exact hw.reading
  | true =>
      cases foreground with
      | fifo frame => exact FrameOk.reading h
      | _ => cases hassembling

variable {s : State}

/-- One statement of the foreground. -/
theorem ForegroundOk.step (hsize : size < 2 ^ 32)
    (h : ForegroundOk config address tx size s.buffers s.foreground) (elapsed : Bool) :
    ForegroundOk config address tx size (foregroundStep config elapsed s).buffers
      (foregroundStep config elapsed s).foreground := by
  unfold foregroundStep
  cases hforeground : s.foreground with
  | packetSizes =>
      rw [hforeground] at h
      obtain ⟨w, hw⟩ := h
      simp only [hw.reading, Bool.false_and, Bool.false_eq_true, if_false]
      exact FrameOk.loop hw
  | fifo frame =>
      rw [hforeground] at h
      have hnext := writeFifo_ok hsize h
      cases hreturn : (writeFifo config s.buffers frame).2 with
      | none =>
          rw [hreturn] at hnext
          simp only [hreturn, Option.elim_none]
          exact hnext
      | some frame' =>
          rw [hreturn] at hnext
          simp only [hreturn, Option.elim_some]
          exact hnext
  | wait =>
      rw [hforeground] at h
      simp only []
      split_ifs
      · rw [hforeground]
        exact h
      · exact h
  | returned result =>
      simp only [hforeground]
      rwa [hforeground] at h
  | _ =>
      rw [hforeground] at h
      exact h

/-- A request interrupt of a write calls `write_fifo`. -/
theorem handleRequestIrq_of_write (config : Config) (device : Device)
    (hreading : s.buffers.reading = false) :
    (handleRequestIrq config device s).buffers = s.buffers ∧
      (handleRequestIrq config device s).foreground = s.foreground ∧
      (handleRequestIrq config device s).handler = some (.fifo .call) := by
  rw [handleRequestIrq, if_neg (by rw [hreading]; rintro ⟨h, -⟩; cases h), if_pos (.inl hreading)]
  exact ⟨rfl, rfl, rfl⟩

theorem Inv.request {s' : State} (hok : ForegroundOk config address tx size s.buffers s.foreground)
    (hharmless : s.foreground.assembling = false ∨
      (s.buffers.addressSent = true ∧ s.buffers.remaining = 0))
    (hbuffers : s'.buffers = s.buffers) (hforeground : s'.foreground = s.foreground)
    (hhandler : s'.handler = some (.fifo .call)) : Inv config address tx size s' := by
  by_cases hnothing : s.buffers.addressSent = true ∧ s.buffers.remaining = 0
  · refine .paused (by rwa [hbuffers, hforeground]) fun frame hframe => ?_
    rw [hhandler, Option.some.injEq, Handler.fifo.injEq] at hframe
    exact ⟨hframe ▸ rfl, by rwa [hbuffers]⟩
  · have hassembling : s.foreground.assembling = false :=
      hharmless.resolve_right hnothing
    have hfilled : s.foreground.filled = false := by
      cases hforeground' : s.foreground with
      | wait =>
          rw [hforeground'] at hok
          exact absurd (AllSent.nothing_left hok) hnothing
      | returned result =>
          rw [hforeground'] at hok
          exact absurd (AllSent.nothing_left hok) hnothing
      | _ => rfl
    obtain ⟨w, hw⟩ := hok.idle hassembling
    refine .filling hhandler ?_ ?_
    · rw [hforeground]
      exact ⟨hassembling, hfilled⟩
    · rw [hbuffers]
      exact .loop hw

theorem harmless_request {irq : Irq} {device : Device}
    (h : harmless s (.interrupt irq device) = true) (hirq : irq = .singleReq ∨ irq = .burstReq) :
    s.foreground.assembling = false ∨ (s.buffers.addressSent = true ∧ s.buffers.remaining = 0) := by
  rcases hirq with rfl | rfl
  · simpa [harmless] using h
  · simpa [harmless] using h

/-- An interrupt that is harmless where it comes. -/
theorem Inv.interrupt (hi : Inv config address tx size s) (hnone : s.handler = none) {irq : Irq}
    {device : Device} (hharmless : harmless s (.interrupt irq device) = true) :
    Inv config address tx size (interruptStep config irq device s) := by
  cases hi with
  | filling hhandler => rw [hnone] at hhandler; cases hhandler
  | paused hok _ =>
      cases irq with
      | singleReq =>
          obtain ⟨hbuffers, hforeground, hhandler⟩ := handleRequestIrq_of_write config device
            (s := { s with status := countIrq .singleReq s.status }) hok.reading
          exact Inv.request hok (harmless_request hharmless (.inl rfl)) hbuffers hforeground hhandler
      | burstReq =>
          obtain ⟨hbuffers, hforeground, hhandler⟩ := handleRequestIrq_of_write config device
            (s := { s with status := countIrq .burstReq s.status }) hok.reading
          exact Inv.request hok (harmless_request hharmless (.inr rfl)) hbuffers hforeground hhandler
      | protocol => exact .paused hok fun frame hframe => by cases hframe
      | error => exact .paused hok fun frame hframe => by cases hframe

/-- One statement of a handler. -/
theorem Inv.handler (hsize : size < 2 ^ 32) (hi : Inv config address tx size s) {handler : Handler}
    (hhandler : s.handler = some handler) :
    Inv config address tx size (handlerStep config s handler) := by
  cases hi with
  | filling hfifo hopen hok =>
      rename_i frame
      obtain rfl := Option.some.inj (hhandler.symm.trans hfifo)
      have hnext := writeFifo_ok hsize hok
      simp only [handlerStep]
      cases hreturn : (writeFifo config s.buffers frame).2 with
      | none =>
          rw [hreturn] at hnext
          exact .paused (AllSent.foregroundOk hnext hopen.1) fun frame hframe => by cases hframe
      | some frame' =>
          rw [hreturn] at hnext
          exact .filling rfl hopen hnext
  | paused hok hquiet =>
      cases handler with
      | fifo frame =>
          -- the condition of the loop fails, and `write_fifo` returns
          obtain ⟨hpc, hsent, hremaining⟩ := hquiet frame hhandler
          have hreturn : writeFifo config s.buffers frame = (s.buffers, none) := by
            simp [writeFifo, hpc, hsent, hremaining]
          simp only [handlerStep, hreturn]
          exact .paused hok fun frame hframe => by cases hframe
      | unmask => exact .paused hok fun frame hframe => by cases hframe
      | finish =>
          simp only [handlerStep]
          split_ifs
          · exact .paused hok fun frame hframe => by cases hframe
          · exact .paused hok fun frame hframe => by cases hframe

theorem Inv.step (hsize : size < 2 ^ 32) {s' : State} {action : Action}
    (hi : Inv config address tx size s) (hharmless : harmless s action = true)
    (hstep : step config action s = some s') : Inv config address tx size s' := by
  cases action with
  | foreground elapsed =>
      obtain ⟨hnone, hs'⟩ := Option.ite_none_right_eq_some.mp hstep
      obtain rfl := Option.some.inj hs'
      cases hi with
      | filling hhandler => rw [hnone] at hhandler; cases hhandler
      | paused hok _ =>
          have hhandler : (foregroundStep config elapsed s).handler = none := by
            unfold foregroundStep
            cases s.foreground with
            | wait =>
                simp only []
                split_ifs
                · exact hnone
                · exact hnone
            | _ => exact hnone
          exact .paused (hok.step hsize elapsed) fun frame hframe => by
            rw [hhandler] at hframe
            cases hframe
  | interrupt irq device =>
      obtain ⟨⟨hnone, -⟩, hs'⟩ := Option.ite_none_right_eq_some.mp hstep
      obtain rfl := Option.some.inj hs'
      exact hi.interrupt hnone hharmless
  | handler =>
      obtain ⟨handler, hhandler, hs'⟩ := Option.map_eq_some_iff.mp hstep
      obtain rfl := hs'
      exact hi.handler hsize hhandler

theorem Inv.start (config : Config) (address : UInt8) (tx : Nat) (size imsc : UInt32) :
    Inv config address tx size.toNat (start address tx none size imsc) := by
  refine .paused ⟨0, ?_⟩ fun frame hframe => by cases hframe
  rw [Nat.zero_mul, Nat.zero_min]
  constructor
  case reading => rfl
  case address_eq => exact UInt8.or_zero
  case addressSent => rfl
  case le => exact Nat.zero_le _
  case tx_eq => rfl
  case remaining_eq => rfl
  case txd_eq => rfl

/-! ## The words -/

/-- The words so far are the first ones of the packing, and the counters are inside the buffer. -/
structure InOrder (config : Config) (address : UInt8) (tx size : Nat) (b : Buffers) : Prop where
  txd : b.txd <+: packing config.txfa (busBytes config.mem address tx size)
  remaining : b.remaining ≤ size
  tx_le : b.tx ≤ tx + size

theorem Sent.inOrder (h : Sent config address tx size b n w) :
    InOrder config address tx size b where
  txd := by
    rw [h.txd_eq]
    exact List.take_prefix _ _
  remaining := by
    rw [h.remaining_eq]
    omega
  tx_le := by
    have := h.le
    rw [h.tx_eq]
    omega

theorem FrameOk.inOrder {frame : Frame} (h : FrameOk config address tx size b frame) :
    InOrder config address tx size b := by
  cases h with
  | loop h => exact h.inOrder
  | locals h => exact h.inOrder
  | ifAddress h => exact h.inOrder
  | valueAddress h => exact h.inOrder
  | sentTrue h => exact h.inOrder
  | offsetOne h => exact h.inOrder
  | inner h => exact h.inOrder
  | orByte h => exact h.inOrder
  | decRemaining h htx hpos hlt =>
      -- `tx` is one ahead of `remaining` here
      have htx' := h.tx_eq
      simp only [] at htx'
      exact { h.inOrder with tx_le := by omega }
  | incOffset h => exact h.inOrder
  | put h => exact h.inOrder

theorem ForegroundOk.inOrder {foreground : Foreground}
    (h : ForegroundOk config address tx size b foreground) :
    InOrder config address tx size b := by
  cases hassembling : foreground.assembling with
  | false =>
      obtain ⟨w, hw⟩ := h.idle hassembling
      exact hw.inOrder
  | true =>
      cases foreground with
      | fifo frame => exact FrameOk.inOrder h
      | _ => cases hassembling

end

/-- **Where no request interrupt comes between the statements that make up a word, a write sends
its bytes in order.** In every state of every such run the words written are the first ones of the
packing of `[address << 1]` and `tx`, and all of them when the foreground has filled the FIFO. -/
theorem write_inOrder (config : Config) (address : UInt8) (tx : Nat) (size imsc : UInt32) (s : State)
    (h : Reachable (step config) (fun s a => harmless s a = true)
      (start address tx none size imsc) s) :
    InOrder config address tx size.toNat s.buffers ∧
      (s.foreground.filled = true →
        s.buffers.txd = packing config.txfa (busBytes config.mem address tx size.toNat)) := by
  have hi : Inv config address tx size.toNat s :=
    h.invariant (Inv.start config address tx size imsc) fun s a s' hi ha hs =>
      hi.step size.toNat_lt ha hs
  cases hi with
  | filling _ hopen hok =>
      exact ⟨hok.inOrder, fun hfilled => by rw [hopen.2] at hfilled; cases hfilled⟩
  | paused hok _ =>
      refine ⟨hok.inOrder, fun hfilled => ?_⟩
      cases hforeground : s.foreground with
      | wait =>
          rw [hforeground] at hok
          exact AllSent.txd_eq hok
      | returned result =>
          rw [hforeground] at hok
          exact AllSent.txd_eq hok
      | _ =>
          rw [hforeground] at hfilled
          cases hfilled

/-- A FIFO of four bytes a word, over a memory whose bytes count up. -/
def countingConfig : Config where
  mem := fun a => UInt8.ofNat a
  txfa := .one
  rxfa := .one
  rxfc := true
  txfc := true

/-- A write of two bytes whose request interrupt comes before `write_fifo` is called. -/
theorem write_inOrder_example : ∃ s, Reachable (step countingConfig)
    (fun s a => harmless s a = true) (start 0x31 0x10 none 2 0) s ∧ s.foreground.filled = true ∧
      s.buffers.txd = packing .one [0x62, 0x10, 0x11] := by
  obtain ⟨s, hs, hfilled⟩ : ∃ s, Reachable (step countingConfig)
      (fun s a => harmless s a = true) (start 0x31 0x10 none 2 0) s ∧
        s.foreground.filled = true :=
    exists_reachable_of_run
      (List.replicate 5 (.foreground false) ++ [.interrupt .burstReq ⟨8, [], false⟩] ++
        List.replicate 19 .handler ++ List.replicate 3 (.foreground false)) (by decide +kernel)
  exact ⟨s, hs, hfilled,
    (write_inOrder countingConfig 0x31 0x10 2 0 s hs).2 hfilled⟩

/-! ## Between the statements that make up a word -/

/-- A request interrupt between `if (!i2c_v2_state.address_sent)` and the assignments behind it sends
the whole transfer, and the foreground the address a second time. Between `tx++` and `remaining--`
it reads past the buffer, and the foreground counts below zero. -/
theorem write_out_of_order :
    (∃ s, Reachable (step countingConfig) (fun _ _ => True) (start 0x31 0x10 none 1 0) s ∧
      s.foreground = .returned .error ∧ s.buffers.txd = [0x1062, 0x62] ∧
      packing .one (busBytes countingConfig.mem 0x31 0x10 1) = [0x1062]) ∧
    (∃ s, Reachable (step countingConfig) (fun _ _ => True) (start 0x31 0x10 none 1 0) s ∧
      s.buffers.txd = [0x11] ∧ s.buffers.remaining = 2 ^ 32 - 1) := by
  refine ⟨?_, ?_⟩
  · apply exists_reachable_of_run
      (List.replicate 10 (.foreground false) ++ [.interrupt .singleReq ⟨2, [], false⟩] ++
        List.replicate 15 .handler ++ List.replicate 6 (.foreground false) ++
        [.interrupt .error ⟨1, [], false⟩, .handler, .foreground false])
    decide +kernel
  · apply exists_reachable_of_run
      (List.replicate 15 (.foreground false) ++ [.interrupt .singleReq ⟨2, [], false⟩] ++
        List.replicate 12 .handler ++ [.foreground false])
    decide +kernel

end Pmb887x.I2c.V2Irq
