import Pmb887x.Library.CrcPolynomial
import Pmb887x.Preloader.Requests

set_option autoImplicit false

/-! # The checksum of the preloader (`preloader/src/crc.c`)

`crc32_update` over a body, in whatever batches, is the remainder of the body by the CRC-32 generator, and
a body with a short burst of errors is never acknowledged by `cmd_ram_write`. -/

namespace Pmb887x.Preloader

open Library Polynomial

/-! ## CRC-32 by division -/

/-- The remainder of the message and the preset register by `0x104C11DB7`, reflected and complemented. -/
noncomputable def polynomialCrc32 (data : List UInt8) : BitVec 32 :=
  ~~~ reflect 32 ((numberPoly 32 0xFFFFFFFF * X ^ (8 * data.length)
    + messagePoly (messageBits data) * X ^ 32) %ₘ numberPoly 33 0x104C11DB7)

theorem length_messageBits (data : List UInt8) : (messageBits data).length = 8 * data.length := by
  rw [messageBits, List.length_flatMap, Nat.mul_comm]
  simp [lowBits]

theorem generatorPoly_crc32 : generatorPoly crc32Polynomial = numberPoly 33 0x104C11DB7 := by
  have hbits : ∀ k < 33, (0x104C11DB7 : Nat).testBit k
      = (decide (k = 32) ^^ crc32Polynomial.getMsbD k) := by decide
  ext k
  rw [generatorPoly, coeff_add, coeff_X_pow, coeff_registerPoly, coeff_numberPoly]
  by_cases hk : k < 33
  · rw [hbits k hk]
    by_cases htop : k = 32
    · subst htop
      decide
    · simp [hk, htop]
  · have hhigh : ¬ (k < 33 ∧ (0x104C11DB7 : Nat).testBit k = true) := fun h => hk h.1
    rw [if_neg (by omega), BitVec.getMsbD_of_ge _ _ (by omega), if_neg hhigh]
    rfl

theorem registerPoly_initial : registerPoly crc32InitialValue = numberPoly 32 0xFFFFFFFF := by
  have hbits : ∀ k < 32, (0xFFFFFFFF : Nat).testBit k = crc32InitialValue.getMsbD k := by decide
  ext k
  rw [coeff_registerPoly, coeff_numberPoly]
  by_cases hk : k < 32
  · simp [hk, hbits k hk]
  · have hhigh : ¬ (k < 32 ∧ (0xFFFFFFFF : Nat).testBit k = true) := fun h => hk h.1
    rw [BitVec.getMsbD_of_ge _ _ (Nat.le_of_not_lt hk), if_neg hhigh]
    rfl

/-- The bit-serial checksum is the remainder. -/
theorem crc32_eq_polynomialCrc32 (data : List UInt8) : crc32 data = polynomialCrc32 data := by
  have hremainder := registerPoly_crcBits (by decide) crc32Polynomial crc32InitialValue
    (messageBits data)
  rw [generatorPoly_crc32, registerPoly_initial, length_messageBits] at hremainder
  rw [polynomialCrc32, ← hremainder, reflect_registerPoly]
  rfl

/-! ## Batches -/

/-- `crc32_update` called for one batch after the other. -/
def crc32OverBatches (m : Memory) (data : Nat) : List Nat → Nat → BitVec 32 → BitVec 32
  | [], _, crc => crc
  | size :: sizes, offset, crc =>
      crc32OverBatches m data sizes (offset + size) (crc32Update m crc data offset size)

theorem crc32OverBatches_eq (m : Memory) (data : Nat) (sizes : List Nat) (offset : Nat)
    (crc : BitVec 32) :
    crc32OverBatches m data sizes offset crc
      = crcBits crc32Polynomial crc (messageBits (m.readBytes data offset sizes.sum)) := by
  induction sizes generalizing offset crc with
  | nil => rfl
  | cons size sizes ih =>
      rw [crc32OverBatches, ih, crc32Update_eq, ← crcBits_append, ← messageBits_append,
        ← Memory.readBytes_append, List.sum_cons]

/-! ## Bursts -/

theorem length_eq_of_differWithin {bytes bytes' : List UInt8} {n : Nat}
    (h : DifferWithin n (messageBits bytes) (messageBits bytes')) : bytes'.length = bytes.length := by
  have hlength := h.1
  rw [length_messageBits, length_messageBits] at hlength
  exact (Nat.eq_of_mul_eq_mul_left (Nat.succ_pos 7) hlength).symm

/-- A burst of at most 32 bits changes the checksum. -/
theorem crc32_ne_of_differWithin {bytes bytes' : List UInt8}
    (h : DifferWithin 32 (messageBits bytes) (messageBits bytes')) : crc32 bytes ≠ crc32 bytes' := by
  intro hsame
  have hregisters := congrArg (~~~ ·) hsame
  simp only [crc32, BitVec.not_not] at hregisters
  exact crcBits_ne_of_differWithin (by decide) _ h hregisters

/-- A body that does not have the checksum sent along is not acknowledged. -/
theorem exec_cmdRamWrite_failure (d : Device) {address : Nat} {body : List UInt8} {crc : BitVec 32}
    (ha : address < 2 ^ 32) (hb : body.length < 2 ^ 32) (hne : crc ≠ crc32 body) (rest : List UInt8) :
    ∃ d', (cmdRamWrite d).exec (leBytes 4 address ++ (leBytes 4 body.length ++
      (body ++ leBytes 4 crc.toNat)) ++ rest) = some (d', rest, [statusFailure]) := by
  have hruns := runs_cmdRamWrite d ha crc.isLt hb
  rw [BitVec.ofNat_toNat, BitVec.setWidth_eq, if_neg hne] at hruns
  exact ⟨_, hruns.exec_eq rest⟩

/-- **The checksum of the preloader.** Over any string in memory and with any batches it is CRC-32 by
polynomial division. Bits count in transmission order, the lowest of a byte first: a burst of at most 32 of
them changes the checksum, and `cmd_ram_write` answers a body damaged by one with `STATUS_FAILURE`. -/
theorem crc32_detects_bursts (m : Memory) (data : Nat) (bytes : List UInt8)
    (h : m.Holds data 0 bytes) :
    ~~~crcBatches m data bytes.length 0 crc32InitialValue = polynomialCrc32 bytes ∧
    (∀ sizes : List Nat, sizes.sum = bytes.length →
      ~~~crc32OverBatches m data sizes 0 crc32InitialValue = polynomialCrc32 bytes) ∧
    ∀ bytes', DifferWithin 32 (messageBits bytes) (messageBits bytes') →
      (∀ m' data', Memory.Holds m' data' 0 bytes' →
        ~~~crcBatches m' data' bytes'.length 0 crc32InitialValue
          ≠ ~~~crcBatches m data bytes.length 0 crc32InitialValue) ∧
      ∀ (d : Device) (address : Nat) (rest : List UInt8), address < 2 ^ 32 → bytes.length < 2 ^ 32 →
        ∃ d', (cmdRamWrite d).exec (leBytes 4 address ++ (leBytes 4 bytes.length ++
          (bytes' ++ leBytes 4 (polynomialCrc32 bytes).toNat)) ++ rest)
            = some (d', rest, [statusFailure]) := by
  have hcrc : ∀ (m : Memory) (data : Nat) (bytes : List UInt8), m.Holds data 0 bytes →
      ~~~crcBatches m data bytes.length 0 crc32InitialValue = crc32 bytes := by
    intro m data bytes h
    rw [crcBatches_eq _ _ _ _ _ (Nat.zero_le _), Nat.sub_zero, h.readBytes_eq]
    rfl
  refine ⟨(hcrc m data bytes h).trans (crc32_eq_polynomialCrc32 bytes), fun sizes hsizes => ?_,
    fun bytes' hburst => ⟨fun m' data' h' => ?_, fun d address rest ha hb => ?_⟩⟩
  · rw [crc32OverBatches_eq, hsizes, h.readBytes_eq, ← crc32_eq_polynomialCrc32]
    rfl
  · rw [hcrc m data bytes h, hcrc m' data' bytes' h']
    exact (crc32_ne_of_differWithin hburst).symm
  · have hlength := length_eq_of_differWithin hburst
    rw [← crc32_eq_polynomialCrc32, ← hlength]
    exact exec_cmdRamWrite_failure d ha (hlength ▸ hb) (crc32_ne_of_differWithin hburst) rest

theorem crc32_detects_bursts_check_value :
    polynomialCrc32 [0x31, 0x32, 0x33, 0x34, 0x35, 0x36, 0x37, 0x38, 0x39] = 0xCBF43926#32 := by
  let memory : Memory := fun a => UInt8.ofNat (0x31 + a)
  have hholds : memory.Holds 0 0 [0x31, 0x32, 0x33, 0x34, 0x35, 0x36, 0x37, 0x38, 0x39] := by
    unfold Memory.Holds
    decide
  rw [← (crc32_detects_bursts memory 0 _ hholds).1, crcBatches_eq _ _ _ _ _ (Nat.zero_le _)]
  decide +kernel

end Pmb887x.Preloader
