import Pmb887x.Library.Bytes

set_option autoImplicit false

/-! # Reading a binary string (`tools/lib/Sie/BinaryReader.pm`)

`Reads p bytes v` says what a function of this reader does with its part of the string: in front of
anything it takes `bytes`, no more and no less, and returns `v`. A parser is put together from such facts in
the order in which it reads. -/

namespace Pmb887x.Sie

open Library

/-- The position in the string, and what is behind it. -/
structure BinaryReader where
  offset : Nat
  left : List UInt8

namespace BinaryReader

/-- A function that reads, and may `die` with a message. -/
abbrev Read := StateT BinaryReader (Except String)

def openString (var : List UInt8) : BinaryReader := ⟨0, var⟩

/-- `read` takes what there is. -/
def readBytes (size : Nat) : Read (List UInt8) := fun r =>
  let data := r.left.take size
  if data.length ≠ size then
    .error ("Unexpected EOF, size=" ++ toString size ++ ", readed=" ++ toString data.length)
  else .ok (data, ⟨r.offset + size, r.left.drop size⟩)

def readUInt8 : Read Nat := do
  return ofLeBytes (← readBytes 1)

/-- `unpack("v", …)` -/
def readUInt16 : Read Nat := do
  return ofLeBytes (← readBytes 2)

/-- `unpack("V", …)` -/
def readUInt32 : Read Nat := do
  return ofLeBytes (← readBytes 4)

/-- `for (my $i = …; …; $i++)` around something that reads: what the iterations push. -/
def readTimes {α : Type} (p : Nat → Read α) : (count i : Nat) → Read (List α)
  | 0, _ => return []
  | count + 1, i => do
      let x ← p i
      let xs ← readTimes p count (i + 1)
      return x :: xs

/-! ## What a function reads -/

/-- `p` takes exactly `bytes` and returns `v`, whatever is behind them. -/
def Reads {α : Type} (p : Read α) (bytes : List UInt8) (v : α) : Prop :=
  ∀ (offset : Nat) (rest : List UInt8),
    p ⟨offset, bytes ++ rest⟩ = .ok (v, ⟨offset + bytes.length, rest⟩)

/-- `p` takes exactly `bytes`, and what it returns satisfies `Q`. -/
def Decodes {α : Type} (p : Read α) (bytes : List UInt8) (Q : α → Prop) : Prop :=
  ∃ v, Reads p bytes v ∧ Q v

section Rules

variable {α β : Type} {p : Read α} {bytes bytes' : List UInt8} {v : α} {P : α → Prop} {Q : β → Prop}

/-- What is behind a function that has read its part. -/
theorem Reads.run_bind (hp : Reads p bytes v) (f : α → Read β) (offset : Nat) (rest : List UInt8) :
    (p >>= f) ⟨offset, bytes ++ rest⟩ = f v ⟨offset + bytes.length, rest⟩ := by
  have hrun : (p >>= f) ⟨offset, bytes ++ rest⟩
      = (p ⟨offset, bytes ++ rest⟩ >>= fun x => f x.1 x.2) := rfl
  rw [hrun, hp offset rest]
  rfl

theorem Reads.bind {f : α → Read β} {w : β} (hp : Reads p bytes v) (hf : Reads (f v) bytes' w) :
    Reads (p >>= f) (bytes ++ bytes') w := by
  intro offset rest
  rw [List.append_assoc, hp.run_bind, hf, List.length_append, Nat.add_assoc]

theorem Decodes.pure {w : β} (h : Q w) : Decodes (Pure.pure w) [] Q :=
  ⟨w, fun _ _ => rfl, h⟩

/-- The composition rule. -/
theorem Decodes.bind {f : α → Read β} (hp : Decodes p bytes P)
    (hf : ∀ v, P v → Decodes (f v) bytes' Q) : Decodes (p >>= f) (bytes ++ bytes') Q := by
  obtain ⟨v, hv, hP⟩ := hp
  obtain ⟨w, hw, hQ⟩ := hf v hP
  exact ⟨w, hv.bind hw, hQ⟩

/-- The rule for a last step that reads nothing. -/
theorem Decodes.map {f : α → β} (hp : Decodes p bytes P) (hf : ∀ v, P v → Q (f v)) :
    Decodes (do return f (← p)) bytes Q := by
  rw [← List.append_nil bytes]
  exact hp.bind fun v hP => Decodes.pure (hf v hP)

/-- The composition rule where the first value is known. -/
theorem Reads.andThen {f : α → Read β} (hp : Reads p bytes v) (hf : Decodes (f v) bytes' Q) :
    Decodes (p >>= f) (bytes ++ bytes') Q :=
  Decodes.bind (P := (· = v)) ⟨v, hp, rfl⟩ fun _ h => h ▸ hf

theorem Reads.last {f : α → β} (hp : Reads p bytes v) (hf : Q (f v)) :
    Decodes (do return f (← p)) bytes Q := by
  rw [← List.append_nil bytes]
  exact hp.andThen (Decodes.pure hf)

end Rules

/-! ## The fields -/

theorem reads_readBytes (bytes : List UInt8) : Reads (readBytes bytes.length) bytes bytes := by
  intro offset rest
  simp [readBytes]

theorem reads_leBytes {k n : Nat} (h : n < 256 ^ k) :
    Reads (do return ofLeBytes (← readBytes k)) (leBytes k n) n := by
  have hbytes := reads_readBytes (leBytes k n)
  rw [leBytes_length] at hbytes
  rw [← List.append_nil (leBytes k n)]
  refine hbytes.bind ?_
  rw [ofLeBytes_leBytes_of_lt h]
  exact fun _ _ => rfl

theorem reads_readUInt8 (b : UInt8) : Reads readUInt8 [b] b.toNat := by
  have hfield : leBytes 1 b.toNat = [b] := by simp [leBytes]
  rw [← hfield]
  exact reads_leBytes b.toNat_lt

/-- The length of a list in a byte. -/
theorem reads_count {n : Nat} (h : n < 256) : Reads readUInt8 [UInt8.ofNat n] n := by
  have hread := reads_readUInt8 (UInt8.ofNat n)
  rwa [UInt8.toNat_ofNat', Nat.mod_eq_of_lt h] at hread

theorem reads_readUInt16 (n : UInt16) : Reads readUInt16 (leBytes 2 n.toNat) n.toNat :=
  reads_leBytes n.toNat_lt

theorem reads_readUInt32 (n : UInt32) : Reads readUInt32 (leBytes 4 n.toNat) n.toNat :=
  reads_leBytes n.toNat_lt

/-- A loop reads its entries one behind the other. `P` relates an entry to its value. -/
theorem decodes_readTimes {α γ : Type} {p : Nat → Read α} {encode : γ → List UInt8}
    {P : γ → α → Prop} (entries : List γ) (i : Nat)
    (h : ∀ x j, i ≤ j → Decodes (p j) (encode x) (P x)) :
    Decodes (readTimes p entries.length i) (entries.flatMap encode) (List.Forall₂ P entries) := by
  induction entries generalizing i with
  | nil => exact Decodes.pure List.Forall₂.nil
  | cons x entries ih =>
      rw [List.flatMap_cons]
      refine (h x i (Nat.le_refl i)).bind fun v hv => ?_
      exact (ih (i + 1) fun y j hj => h y j (Nat.le_of_succ_le hj)).map
        fun vs hvs => List.Forall₂.cons hv hvs

end BinaryReader

end Pmb887x.Sie
