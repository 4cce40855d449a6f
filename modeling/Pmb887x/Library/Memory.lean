import Mathlib.Algebra.Group.Nat.Defs
import Mathlib.Data.List.Basic

set_option autoImplicit false

/-! # A flat 32-bit byte memory

A pointer is a base address and an offset is added to it modulo `2^32`, as the address arithmetic
of a 32-bit core does. `Memory.Holds m base offset bytes` says that the buffer at `base` holds
`bytes` from `offset` on; `Memory.SameOutside` is the frame condition of an operation that writes one buffer. -/

namespace Pmb887x.Library

/-- Memory contents; only addresses below `2^32` are ever looked at. -/
def Memory := Nat → UInt8

/-- The size of the address space. -/
def addressSpace : Nat := 2 ^ 32

/-- The address of element `offset` of the byte buffer at `base`. -/
def address (base offset : Nat) : Nat := (base + offset) % addressSpace

namespace Memory

/-- `base[offset]` -/
def read (m : Memory) (base offset : Nat) : UInt8 := m (address base offset)

/-- `base[offset] = value` -/
def write (m : Memory) (base offset : Nat) (value : UInt8) : Memory :=
  fun a => if a = address base offset then value else m a

/-- Store a byte string at consecutive offsets. -/
def writeBytes (m : Memory) (base offset : Nat) : List UInt8 → Memory
  | [] => m
  | b :: rest => writeBytes (m.write base offset b) base (offset + 1) rest

/-- The `n` bytes from `offset` on. -/
def readBytes (m : Memory) (base offset n : Nat) : List UInt8 :=
  (List.range n).map (fun i => m.read base (offset + i))

/-- The buffer at `base` holds `bytes` from `offset` on. -/
def Holds (m : Memory) (base offset : Nat) (bytes : List UInt8) : Prop :=
  ∀ (i : Nat) (h : i < bytes.length), m.read base (offset + i) = bytes[i]

/-- `a` is an address of the `n`-byte buffer at `base`. -/
def InBuffer (base n a : Nat) : Prop := ∃ i < n, a = address base i

/-- The buffers of `n` bytes at `base` and `n'` bytes at `base'` share no address. -/
def Disjoint (base n base' n' : Nat) : Prop :=
  ∀ i < n, ∀ j < n', address base i ≠ address base' j

/-- `m'` differs from `m` at most inside the `n`-byte buffer at `base`. -/
def SameOutside (m m' : Memory) (base n : Nat) : Prop :=
  ∀ a, ¬ InBuffer base n a → m' a = m a

end Memory

theorem address_inj {base i j : Nat} (hi : i < addressSpace) (hj : j < addressSpace)
    (h : address base i = address base j) : i = j := by
  simp only [address, addressSpace] at *
  omega

namespace Memory

/-! ## Reading what was written -/

@[simp] theorem read_write_self (m : Memory) (base offset : Nat) (v : UInt8) :
    (m.write base offset v).read base offset = v := by
  simp [read, write]

theorem read_write_of_ne {m : Memory} {base offset base' offset' : Nat} {v : UInt8}
    (h : address base' offset' ≠ address base offset) :
    (m.write base offset v).read base' offset' = m.read base' offset' := by
  simp [read, write, h]

theorem read_write_offset_ne {m : Memory} {base offset offset' : Nat} {v : UInt8}
    (ho : offset < addressSpace) (ho' : offset' < addressSpace) (h : offset' ≠ offset) :
    (m.write base offset v).read base offset' = m.read base offset' :=
  read_write_of_ne (fun he => h (address_inj ho' ho he))

@[simp] theorem readBytes_length (m : Memory) (base offset n : Nat) :
    (m.readBytes base offset n).length = n := by
  simp [readBytes]

theorem readBytes_append (m : Memory) (base offset n k : Nat) :
    m.readBytes base offset (n + k)
      = m.readBytes base offset n ++ m.readBytes base (offset + n) k := by
  simp only [readBytes, List.range_add, List.map_append, List.map_map]
  congr 1
  apply List.map_congr_left
  intro i _
  simp [Nat.add_assoc]

/-! ## Buffer contents -/

@[simp] theorem holds_nil (m : Memory) (base offset : Nat) : m.Holds base offset [] := by
  intro i h
  simp at h

theorem holds_cons {m : Memory} {base offset : Nat} {b : UInt8} {bytes : List UInt8} :
    m.Holds base offset (b :: bytes)
      ↔ m.read base offset = b ∧ m.Holds base (offset + 1) bytes := by
  constructor
  · intro h
    refine ⟨h 0 (by simp), fun i hi => ?_⟩
    have := h (i + 1) (by simpa using hi)
    rw [Nat.add_assoc, Nat.add_comm 1 i]
    simpa using this
  · rintro ⟨h0, h⟩ i hi
    cases i with
    | zero => simpa using h0
    | succ i =>
        have := h i (by simpa using hi)
        rw [Nat.add_assoc, Nat.add_comm 1 i] at this
        simpa using this

theorem holds_append {m : Memory} {base offset : Nat} {xs ys : List UInt8} :
    m.Holds base offset (xs ++ ys)
      ↔ m.Holds base offset xs ∧ m.Holds base (offset + xs.length) ys := by
  induction xs generalizing offset with
  | nil => simp
  | cons x xs ih =>
      simp only [List.cons_append, holds_cons, ih, List.length_cons, and_assoc]
      rw [Nat.add_assoc, Nat.add_comm 1 xs.length]

theorem holds_singleton {m : Memory} {base offset : Nat} {b : UInt8} :
    m.Holds base offset [b] ↔ m.read base offset = b := by
  simp [holds_cons]

theorem Holds.readBytes_eq {m : Memory} {base offset : Nat} {bytes : List UInt8}
    (h : m.Holds base offset bytes) : m.readBytes base offset bytes.length = bytes := by
  apply List.ext_getElem
  · simp
  · intro i h1 h2
    simp [readBytes, h i h2]

theorem holds_readBytes (m : Memory) (base offset n : Nat) :
    m.Holds base offset (m.readBytes base offset n) := by
  intro i h
  simp [readBytes]

theorem address_add (base k i : Nat) : address (base + k) i = address base (k + i) := by
  rw [address, address, Nat.add_assoc]

/-- The tail of a buffer is a buffer of its own. -/
theorem holds_base_add {m : Memory} {base k : Nat} {bytes : List UInt8} :
    m.Holds (base + k) 0 bytes ↔ m.Holds base k bytes := by
  simp only [Holds, read, address_add, Nat.zero_add]

theorem readBytes_base_add (m : Memory) (base k n : Nat) :
    m.readBytes (base + k) 0 n = m.readBytes base k n := by
  simp only [readBytes, read, address_add, Nat.zero_add]

theorem InBuffer.of_base_add {base k n a : Nat} (h : InBuffer (base + k) n a) :
    InBuffer base (k + n) a := by
  obtain ⟨i, hi, rfl⟩ := h
  exact ⟨k + i, by omega, address_add base k i⟩

theorem InBuffer.mono {base n k a : Nat} (h : InBuffer base n a) (hk : n ≤ k) :
    InBuffer base k a := by
  obtain ⟨i, hi, ha⟩ := h
  exact ⟨i, by omega, ha⟩

/-! ## Disjoint buffers -/

theorem Disjoint.symm {base n base' n' : Nat} (h : Disjoint base n base' n') :
    Disjoint base' n' base n :=
  fun i hi j hj he => h j hj i hi he.symm

/-- One buffer lies wholly below the other. -/
theorem disjoint_of_le {base n base' n' : Nat} (h : base + n ≤ base')
    (h' : base' + n' ≤ addressSpace) : Disjoint base n base' n' := by
  intro i hi j hj
  simp only [address, addressSpace] at *
  omega

theorem Disjoint.mono {base n k base' n' k' : Nat} (h : Disjoint base n base' n') (hk : k ≤ n)
    (hk' : k' ≤ n') : Disjoint base k base' k' :=
  fun i hi j hj => h i (by omega) j (by omega)

/-- A buffer disjoint from a non-empty one is shorter than the address space. -/
theorem Disjoint.lt_addressSpace {base n base' n' : Nat} (h : Disjoint base n base' n')
    (hpos : 0 < n') : n < addressSpace := by
  by_contra hge
  -- a buffer as long as the address space would contain the other one's first byte
  refine h ((base' + addressSpace - base % addressSpace) % addressSpace) ?_ 0 hpos ?_
  · simp only [addressSpace] at *
    omega
  · simp only [address, addressSpace] at *
    omega

/-! ## Frame conditions -/

theorem SameOutside.refl (m : Memory) (base n : Nat) : SameOutside m m base n :=
  fun _ _ => rfl

theorem SameOutside.symm {m m' : Memory} {base n : Nat} (h : SameOutside m m' base n) :
    SameOutside m' m base n :=
  fun a ha => (h a ha).symm

theorem SameOutside.trans {m m' m'' : Memory} {base n : Nat} (h : SameOutside m m' base n)
    (h' : SameOutside m' m'' base n) : SameOutside m m'' base n :=
  fun a ha => (h' a ha).trans (h a ha)

theorem SameOutside.mono {m m' : Memory} {base n n' : Nat} (h : SameOutside m m' base n)
    (hn : n ≤ n') : SameOutside m m' base n' := by
  intro a ha
  refine h a ?_
  rintro ⟨i, hi, he⟩
  exact ha ⟨i, by omega, he⟩

theorem sameOutside_write (m : Memory) {base offset n : Nat} (v : UInt8) (h : offset < n) :
    SameOutside m (m.write base offset v) base n := by
  intro a ha
  have hne : a ≠ address base offset := fun he => ha ⟨offset, h, he⟩
  simp [write, hne]

/-- What a disjoint buffer holds does not change. -/
theorem Holds.of_sameOutside {m m' : Memory} {base base' offset k n : Nat} {bytes : List UInt8}
    (h : m.Holds base offset bytes) (hs : SameOutside m m' base' n)
    (hd : Disjoint base k base' n) (hk : offset + bytes.length ≤ k) :
    m'.Holds base offset bytes := by
  intro i hi
  rw [← h i hi]
  refine hs _ ?_
  rintro ⟨j, hj, he⟩
  exact hd (offset + i) (by omega) j hj he

/-! ## Storing a byte string -/

/-- Writing the next byte of a buffer extends what it holds. -/
theorem Holds.snoc {m : Memory} {base : Nat} {bytes : List UInt8} (h : m.Holds base 0 bytes)
    (v : UInt8) (hlen : bytes.length < addressSpace) :
    (m.write base bytes.length v).Holds base 0 (bytes ++ [v]) := by
  rw [holds_append, holds_singleton, Nat.zero_add, read_write_self]
  refine ⟨fun i hi => ?_, rfl⟩
  rw [read_write_offset_ne hlen (by omega) (by omega), h i hi]

theorem writeBytes_sameOutside (bytes : List UInt8) :
    ∀ (m : Memory) (base offset n : Nat), offset + bytes.length ≤ n →
      SameOutside m (m.writeBytes base offset bytes) base n := by
  induction bytes with
  | nil => intro m base offset n _; exact SameOutside.refl m base n
  | cons b rest ih =>
      intro m base offset n h
      simp only [List.length_cons] at h
      exact (sameOutside_write m b (by omega)).trans
        (ih (m.write base offset b) base (offset + 1) n (by omega))

/-- Storing a byte string behind what a buffer already holds. -/
theorem Holds.writeBytes {base : Nat} (new : List UInt8) :
    ∀ {m : Memory} {old : List UInt8}, m.Holds base 0 old →
      old.length + new.length ≤ addressSpace →
      (m.writeBytes base old.length new).Holds base 0 (old ++ new) := by
  induction new with
  | nil => intro m old h _; simpa [Memory.writeBytes] using h
  | cons b rest ih =>
      intro m old h hlen
      simp only [List.length_cons] at hlen
      have := ih (h.snoc b (by omega)) (by simp; omega)
      simpa [Memory.writeBytes] using this

/-- Storing a byte string at the start of a buffer. -/
theorem holds_writeBytes (m : Memory) (base : Nat) (bytes : List UInt8)
    (hlen : bytes.length ≤ addressSpace) : (m.writeBytes base 0 bytes).Holds base 0 bytes := by
  simpa using (holds_nil m base 0).writeBytes bytes (by simpa using hlen)

theorem writeBytes_append (xs ys : List UInt8) :
    ∀ (m : Memory) (base offset : Nat),
      m.writeBytes base offset (xs ++ ys)
        = (m.writeBytes base offset xs).writeBytes base (offset + xs.length) ys := by
  induction xs with
  | nil => intro m base offset; rfl
  | cons x xs ih =>
      intro m base offset
      simp only [List.cons_append, Memory.writeBytes, ih, List.length_cons]
      congr 1
      omega

theorem write_base_add (m : Memory) (base k offset : Nat) (v : UInt8) :
    m.write (base + k) offset v = m.write base (k + offset) v := by
  funext a
  rw [write, write, address_add]

theorem writeBytes_base_add (bytes : List UInt8) :
    ∀ (m : Memory) (base k offset : Nat),
      m.writeBytes (base + k) offset bytes = m.writeBytes base (k + offset) bytes := by
  induction bytes with
  | nil => intro m base k offset; rfl
  | cons b rest ih =>
      intro m base k offset
      rw [writeBytes, writeBytes, ih, write_base_add, Nat.add_assoc]

/-- Only what is around the string matters. -/
theorem writeBytes_congr (bytes : List UInt8) :
    ∀ {m m' : Memory} {base offset : Nat},
      (∀ a, (∀ i < bytes.length, a ≠ address base (offset + i)) → m a = m' a) →
      m.writeBytes base offset bytes = m'.writeBytes base offset bytes := by
  induction bytes with
  | nil =>
      intro m m' base offset h
      exact funext fun a => h a fun i hi => absurd hi (Nat.not_lt_zero i)
  | cons b rest ih =>
      intro m m' base offset h
      refine ih fun a ha => ?_
      rw [write, write]
      by_cases hfirst : a = address base offset
      · rw [if_pos hfirst, if_pos hfirst]
      · rw [if_neg hfirst, if_neg hfirst]
        refine h a fun i hi => ?_
        cases i with
        | zero => exact hfirst
        | succ i =>
            rw [Nat.add_comm i 1, ← Nat.add_assoc]
            exact ha i (Nat.lt_of_succ_lt_succ hi)

/-- Storing a string twice is storing it once. -/
theorem writeBytes_writeBytes (m : Memory) (base : Nat) (bytes : List UInt8) :
    (m.writeBytes base 0 bytes).writeBytes base 0 bytes = m.writeBytes base 0 bytes := by
  refine writeBytes_congr bytes fun a ha => ?_
  refine writeBytes_sameOutside bytes m base 0 bytes.length (Nat.le_of_eq (Nat.zero_add _)) a ?_
  rintro ⟨i, hi, he⟩
  exact ha i hi (by rw [Nat.zero_add]; exact he)

end Memory

end Pmb887x.Library
