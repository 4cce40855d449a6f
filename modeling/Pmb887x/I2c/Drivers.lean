import Pmb887x.I2c.V1
import Pmb887x.I2c.V2

set_option autoImplicit false

/-! # The two I2C drivers side by side

`lib/i2c-v1.c` and `lib/i2c-v2.c` drive different controllers behind one interface. Both pack the
frame of a write into the same words, each as far as its own controller lets it; both store what
they read from the first byte of the buffer on. -/

namespace Pmb887x.I2c

open Library

/-- The words handed over are a beginning of the packing of the frame, all of it if the call
returns true. -/
def HandsOver (frame : List UInt8) (words : List UInt32) (ok : Bool) : Prop :=
  words <+: (wordChunks frame).map word ∧ (ok = true → words = (wordChunks frame).map word)

/-- At most `size` bytes are stored, consecutively from `data` on and each taken from the received
words in little-endian order; exactly `size` if the call returns true. -/
def StoresReceived {ρ : Type} [DecidableEq ρ] (r : ρ) (data size : Nat) (ok : Bool)
    (l : List (Access ρ)) : Prop :=
  ∃ bs, bs.length ≤ size ∧ Delivers r data bs l ∧ (ok = true → bs.length = size)

/-- The lengths declared with the pieces handed over add up to the bytes of these pieces. -/
theorem declared_sum {frame : List UInt8} {cs : List (List UInt8)} {l : List (Access V1.Register)}
    (hcs : cs <+: wordChunks frame) (hl : V1.Declares cs l) (size : Nat) :
    ((V1.declared size l).map Prod.fst).sum
      = ((wordChunks frame).take (Access.written .rtb l).length).flatten.length := by
  have hcount : (Access.written .rtb l).length = cs.length := by
    rw [← V1.declared_words size, List.length_map, hl size, List.length_map]
  have htake : (wordChunks frame).take cs.length = cs := (List.prefix_iff_eq_take.1 hcs).symm
  rw [hcount, htake, hl size, List.map_map, List.length_flatten]
  rfl

theorem V1.hwWrite_handsOver (mem : Memory) (passes : Nat) {args : WriteArgs}
    (h : args.address.toNat < 128) :
    Mmio.Runs (V1.hwWrite mem passes args) (fun ok l =>
      HandsOver (args.frame mem) (Access.written .rtb l) ok ∧
        ∀ size, ((V1.declared size l).map Prod.fst).sum
          = ((wordChunks (args.frame mem)).take (Access.written .rtb l).length).flatten.length) := by
  refine (V1.hwWrite_runs mem passes h).mono ?_
  rintro ok l ⟨cs, hl, hcs, hok⟩
  have hwords : Access.written .rtb l = cs.map word := by
    rw [← V1.declared_words 1, hl 1, List.map_map]
    rfl
  refine ⟨⟨?_, fun h => by rw [hwords, hok h]⟩, declared_sum hcs hl⟩
  rw [hwords]
  exact hcs.map word

theorem V2.hwWrite_handsOver (mem : Memory) {args : WriteArgs}
    (h : args.prefixSize + args.size + 1 < 2 ^ 32) :
    Mmio.Runs (V2.hwWrite mem args) (fun ok l =>
      HandsOver (args.frame mem) (Access.written .txd l) ok ∧
        (Access.written .tpsctrl l).map UInt32.toNat = [(args.frame mem).length]) := by
  refine (V2.hwWrite_runs mem args).mono ?_
  rw [← args.frame_length mem] at h
  rw [wrap32_of_lt h, List.take_length]
  rintro ok l ⟨cs, ⟨htotal, hwords⟩, hcs, hok⟩
  refine ⟨⟨?_, fun h => by rw [hwords, hok h]⟩, ?_⟩
  · rw [hwords]
    exact hcs.map word
  · rw [htotal, List.map_singleton, UInt32.toNat_ofNat_of_lt' h]

/-- **Both drivers send the packing of one frame.** For every 7-bit address, every two buffers and
everything the hardware may answer, the words handed to the controller are a beginning of the
little-endian packing of `[address << 1] ++ prefix ++ data`, and all of it if the call returns true.
The older driver declares with each word the bytes in it; the newer one declares the bytes of the
whole packing once, as long as their number fits its `uint32_t`. A read stores the received bytes
one after the other, at most `size` and exactly `size` if it returns true. -/
theorem drivers_send_one_packing (mem : Memory) (args : WriteArgs) (passes : Nat)
    (answers answers' : Nat → UInt32) (haddress : args.address.toNat < 128) :
    let l := (V1.hwWrite mem passes args).accesses answers
    let l' := (V2.hwWrite mem args).accesses answers'
    let ok := (V1.hwWrite mem passes args).result answers
    let ok' := (V2.hwWrite mem args).result answers'
    (HandsOver (args.frame mem) (Access.written .rtb l) ok ∧
      ∀ size, ((V1.declared size l).map Prod.fst).sum
          = ((wordChunks (args.frame mem)).take (Access.written .rtb l).length).flatten.length ∧
        (ok = true → ((V1.declared size l).map Prod.fst).sum = (args.frame mem).length)) ∧
    (args.prefixSize + args.size + 1 < 2 ^ 32 →
      HandsOver (args.frame mem) (Access.written .txd l') ok' ∧
        (Access.written .tpsctrl l').map UInt32.toNat = [(args.frame mem).length] ∧
        (Access.written .rtb l <+: Access.written .txd l' ∨
          Access.written .txd l' <+: Access.written .rtb l) ∧
        (ok = true → ok' = true → Access.written .rtb l = Access.written .txd l')) ∧
    ∀ data size,
      StoresReceived .rtb data size ((V1.hwRead mem passes args.address data size).result answers)
        ((V1.hwRead mem passes args.address data size).accesses answers) ∧
      StoresReceived .rxd data size ((V2.hwRead args.address data size).result answers')
        ((V2.hwRead args.address data size).accesses answers') := by
  intro l l' ok ok'
  obtain ⟨hv1, hsum⟩ := V1.hwWrite_handsOver mem passes haddress answers
  refine ⟨⟨hv1, fun size => ⟨hsum size, fun hok => ?_⟩⟩, fun hsize => ?_, fun data size => ?_⟩
  · rw [hsum size, hv1.2 hok, List.length_map, List.take_length, wordChunks_flatten]
  · obtain ⟨hv2, htotal⟩ := V2.hwWrite_handsOver mem hsize answers'
    refine ⟨hv2, htotal, List.prefix_or_prefix_of_prefix hv1.1 hv2.1, fun hok hok' => ?_⟩
    exact (hv1.2 hok).trans (hv2.2 hok').symm
  · exact ⟨V1.hwRead_runs mem passes args.address data size answers,
      V2.hwRead_runs args.address data size answers'⟩

/-- Memory whose byte at `a` is `a`. -/
def countingMemory : Memory := fun a => UInt8.ofNat a

/-- Three bytes to the device at `0x31`: both drivers finish the transfer, with one word. -/
theorem drivers_send_one_packing_example :
    let args : WriteArgs := ⟨0x31, 0, 1, 16, 2⟩
    let answers := fun n => if n = 0 then 0 else if n = 1 then V1.sysconIRQD else V1.sysconIRQE
    let answers' := fun n => if n = 0 then 1 else if n = 1 then V2.pirqssTXEND else 0
    (V1.hwWrite countingMemory 3 args).result answers = true ∧
      (V2.hwWrite countingMemory args).result answers' = true ∧
      Access.written .rtb ((V1.hwWrite countingMemory 3 args).accesses answers)
        = Access.written .txd ((V2.hwWrite countingMemory args).accesses answers') := by
  intro args answers answers'
  have hok : (V1.hwWrite countingMemory 3 args).result answers = true := by decide +kernel
  have hok' : (V2.hwWrite countingMemory args).result answers' = true := by decide +kernel
  have hboth := (drivers_send_one_packing countingMemory args 3 answers answers' (by decide)).2.1
    (by decide)
  exact ⟨hok, hok', hboth.2.2.2 hok hok'⟩

/-- A NACK after the first word leaves the older driver with four of nine bytes declared and sent,
and before it the newer one with none. A prefix of `2^32 - 1` bytes makes the newer driver's count
wrap around to zero: it declares no byte, sends no word and returns true. -/
theorem drivers_stop_short :
    (let args : WriteArgs := ⟨0x50, 0, 0, 16, 8⟩
      let l := (V1.hwWrite countingMemory 1 args).accesses fun _ => V1.sysconIRQD ||| V1.sysconLRB
      let l' := (V2.hwWrite countingMemory args).accesses fun _ => V2.pirqssNACK
      (args.frame countingMemory).length = 9 ∧ ((V1.declared 1 l).map Prod.fst).sum = 4 ∧
        Access.written .rtb l = [0x121110A0] ∧ Access.written .txd l' = []) ∧
      (let args : WriteArgs := ⟨0x50, 0, 2 ^ 32 - 1, 16, 0⟩
        let answers := fun n => if n = 0 then V2.pirqssTXEND else 0
        let l' := (V2.hwWrite countingMemory args).accesses answers
        (V2.hwWrite countingMemory args).result answers = true ∧
          (args.frame countingMemory).length = 2 ^ 32 ∧ Access.written .tpsctrl l' = [0] ∧
          Access.written .txd l' = []) := by
  refine ⟨?_, ?_⟩
  · decide +kernel
  · refine ⟨?_, ?_, ?_, ?_⟩
    · decide +kernel
    · rw [WriteArgs.frame_length]
      rfl
    · decide +kernel
    · decide +kernel

end Pmb887x.I2c
