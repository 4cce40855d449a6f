import Pmb887x.Library.Memory
import Pmb887x.Library.Mmio
import Pmb887x.Library.Words

set_option autoImplicit false

/-! # The buffers of an I2C transfer

What the two I2C drivers have in common: the arguments of `i2c_hw_write` and the bytes they stand
for on the bus, and the loop that takes a received word apart. A pointer is an address, sizes are
the `uint32_t` arguments as numbers. -/

namespace Pmb887x.I2c

open Library

/-- `BIT(n)` -/
def bit (n : UInt32) : UInt32 := 1 <<< n

/-- The arguments of `i2c_hw_write`; `prefixAt` is its pointer `prefix`. -/
structure WriteArgs where
  address : UInt8
  prefixAt : Nat
  prefixSize : Nat
  data : Nat
  size : Nat

/-- The bytes of a write on the bus: `[address << 1] ++ prefix ++ data`. -/
def WriteArgs.frame (mem : Memory) (args : WriteArgs) : List UInt8 :=
  (args.address <<< 1) ::
    (mem.readBytes args.prefixAt 0 args.prefixSize ++ mem.readBytes args.data 0 args.size)

theorem WriteArgs.frame_length (mem : Memory) (args : WriteArgs) :
    (args.frame mem).length = args.prefixSize + args.size + 1 := by
  simp [frame]

/-- Reading through a pointer that then moves on: `*p++`. -/
theorem readBytes_succ (mem : Memory) (p n : Nat) :
    mem.readBytes p 0 (n + 1) = mem.read p 0 :: mem.readBytes (p + 1) 0 n := by
  simp only [Memory.readBytes, List.range_succ_eq_map, List.map_cons, List.map_map]
  congr 1
  apply List.map_congr_left
  intro i _
  simp [Memory.read, address, Nat.add_comm, Nat.add_left_comm]

@[simp] theorem readBytes_zero (mem : Memory) (p : Nat) : mem.readBytes p 0 0 = [] := rfl

/-! ## Received words -/

variable {ρ : Type}

/-- `for (i = …; …) *rx++ = value >> (i * 8)` for the next `count` bytes of the word. -/
def storeWord (value : UInt32) : (count i rx : Nat) → Mmio ρ Unit
  | 0, _, _ => pure ()
  | count + 1, i, rx => do
      Mmio.store rx (value >>> UInt32.ofNat (i * 8)).toUInt8
      storeWord value count (i + 1) (rx + 1)

variable [DecidableEq ρ]

/-- The bytes `bs` were stored from `rx` on, one after the other, each at most four of them the
low-order bytes of a word read from `r`, in little-endian order and in the order of the words. -/
def Delivers (r : ρ) (rx : Nat) (bs : List UInt8) (l : List (Access ρ)) : Prop :=
  Access.stored l = (List.range' rx bs.length).zip bs ∧
    ∃ counts : List Nat, counts.length = (Access.received r l).length ∧ (∀ n ∈ counts, n ≤ 4) ∧
      bs = (counts.zipWith (fun n v => leBytes n v.toNat) (Access.received r l)).flatten

/-- Accesses that store nothing and do not read the data register. -/
theorem Delivers.nil {r : ρ} {rx : Nat} {l : List (Access ρ)} (hs : Access.stored l = [])
    (hr : Access.received r l = []) : Delivers r rx [] l :=
  ⟨hs, [], by rw [hr]; rfl, by simp, by simp⟩

/-- A word that is read and dropped. -/
theorem Delivers.dropped {r : ρ} {rx : Nat} {l : List (Access ρ)} {v : UInt32}
    (hs : Access.stored l = []) (hr : Access.received r l = [v]) : Delivers r rx [] l :=
  ⟨hs, [0], by simp [hr], by simp, by simp [hr, leBytes]⟩

/-- A word whose first `n` bytes are stored. -/
theorem Delivers.word {r : ρ} {rx n : Nat} {l : List (Access ρ)} {v : UInt32} (hn : n ≤ 4)
    (hs : Access.stored l = (List.range' rx n).zip (leBytes n v.toNat))
    (hr : Access.received r l = [v]) : Delivers r rx (leBytes n v.toNat) l :=
  ⟨by rw [leBytes_length, hs], [n], by simp [hr], by simpa using hn, by simp [hr]⟩

theorem Delivers.append {r : ρ} {rx : Nat} {bs cs : List UInt8} {l m : List (Access ρ)}
    (hl : Delivers r rx bs l) (hm : Delivers r (rx + bs.length) cs m) :
    Delivers r rx (bs ++ cs) (l ++ m) := by
  obtain ⟨hls, ns, hns, hns4, hbs⟩ := hl
  obtain ⟨hms, ks, hks, hks4, hcs⟩ := hm
  refine ⟨?_, ns ++ ks, ?_, ?_, ?_⟩
  · rw [Access.stored_append, hls, hms, List.length_append, ← List.range'_append_1,
      List.zip_append (by simp)]
  · rw [List.length_append, Access.received_append, List.length_append, hns, hks]
  · intro n hn
    exact (List.mem_append.1 hn).elim (hns4 n) (hks4 n)
  · rw [Access.received_append, List.zipWith_append hns, List.flatten_append, ← hbs, ← hcs]

/-- The loop stores the bytes of the word from byte `i` on. -/
theorem storeWord_runs (r : ρ) (value : UInt32) (count i rx : Nat) (h : i + count ≤ 4) :
    Mmio.Runs (storeWord value count i rx) (fun _ l =>
      Access.stored l = (List.range' rx count).zip (leBytes count (value.toNat / 256 ^ i)) ∧
        Access.received r l = []) := by
  induction count generalizing i rx with
  | zero => exact Mmio.Runs.pure ⟨rfl, rfl⟩
  | succ count ih =>
      refine Mmio.Runs.store_bind ((ih (i + 1) (rx + 1) (by omega)).mono ?_)
      rintro _ l ⟨hs, hr⟩
      refine ⟨?_, hr⟩
      rw [leBytes, List.range'_succ, List.zip_cons_cons, ← toUInt8_shiftRight value (by omega),
        Nat.div_div_eq_div_mul, ← Nat.pow_succ, ← hs]
      rfl

end Pmb887x.I2c
