import Mathlib.Data.List.Basic

set_option autoImplicit false

/-! # Programs that talk to registers

A driver reads and writes 32-bit device registers and stores bytes in memory. The hardware may
answer a read with anything, so a program `Mmio ρ α` over the registers `ρ` runs on a stream of
answers, one for each read in turn; next to its value it leaves the list of its accesses.

`Runs p Q` says that `Q` holds of value and accesses for every stream of answers. Its rules never
mention the stream: an access list is a concatenation, and a postcondition is proved for a
continuation behind the accesses made before it. -/

namespace Pmb887x.Library

/-- One access of a driver. -/
inductive Access (ρ : Type) where
  | read (r : ρ) (v : UInt32)
  | write (r : ρ) (v : UInt32)
  | store (a : Nat) (b : UInt8)
  deriving DecidableEq

/-- A program over the registers `ρ`: on the answers to the reads to come it gives a value, the
answers it leaves and its accesses. -/
def Mmio (ρ α : Type) := (Nat → UInt32) → α × (Nat → UInt32) × List (Access ρ)

namespace Mmio

variable {ρ α β : Type}

instance : Monad (Mmio ρ) where
  pure a := fun answers => (a, answers, [])
  bind p f := fun answers =>
    let first := p answers
    let second := f first.1 first.2.1
    (second.1, second.2.1, first.2.2 ++ second.2.2)

/-- Read a register: the next answer. -/
def read (r : ρ) : Mmio ρ UInt32 := fun answers =>
  (answers 0, fun n => answers (n + 1), [.read r (answers 0)])

/-- Write a register. -/
def write (r : ρ) (v : UInt32) : Mmio ρ Unit := fun answers => ((), answers, [.write r v])

/-- Store a byte in memory. -/
def store (a : Nat) (b : UInt8) : Mmio ρ Unit := fun answers => ((), answers, [.store a b])

/-- The value a program gives. -/
def result (p : Mmio ρ α) (answers : Nat → UInt32) : α := (p answers).1

/-- The accesses a program makes. -/
def accesses (p : Mmio ρ α) (answers : Nat → UInt32) : List (Access ρ) := (p answers).2.2

/-! ## Correctness statements -/

/-- Whatever the hardware answers, value and accesses are in `Q`. -/
def Runs (p : Mmio ρ α) (Q : α → List (Access ρ) → Prop) : Prop :=
  ∀ answers, Q (p.result answers) (p.accesses answers)

namespace Runs

variable {p : Mmio ρ α} {f : α → Mmio ρ β} {Q Q' : α → List (Access ρ) → Prop}
  {R : β → List (Access ρ) → Prop}

theorem pure {a : α} (h : Q a []) : Runs (Pure.pure a : Mmio ρ α) Q := fun _ => h

theorem read {r : ρ} {Q : UInt32 → List (Access ρ) → Prop} (h : ∀ v, Q v [.read r v]) :
    Runs (Mmio.read r) Q := fun answers => h (answers 0)

theorem write {r : ρ} {v : UInt32} {Q : Unit → List (Access ρ) → Prop} (h : Q () [.write r v]) :
    Runs (Mmio.write r v) Q := fun _ => h

theorem store {a : Nat} {b : UInt8} {Q : Unit → List (Access ρ) → Prop} (h : Q () [.store a b]) :
    Runs (Mmio.store a b : Mmio ρ Unit) Q := fun _ => h

/-- The composition rule: what follows comes behind the accesses of the first part. -/
theorem bind (hp : Runs p Q) (hf : ∀ a l, Q a l → Runs (f a) (fun b m => R b (l ++ m))) :
    Runs (p >>= f) R := fun answers => hf _ _ (hp answers) _

/-- The rule of consequence. -/
theorem mono (hp : Runs p Q) (h : ∀ a l, Q a l → Q' a l) : Runs p Q' :=
  fun answers => h _ _ (hp answers)

theorem ite {c : Prop} [Decidable c] {q : Mmio ρ α} (ht : c → Runs p Q) (he : ¬ c → Runs q Q) :
    Runs (if c then p else q) Q := by
  by_cases h : c
  · rw [if_pos h]
    exact ht h
  · rw [if_neg h]
    exact he h

theorem read_bind {r : ρ} {f : UInt32 → Mmio ρ β}
    (h : ∀ v, Runs (f v) (fun b m => R b (.read r v :: m))) : Runs (Mmio.read r >>= f) R :=
  bind (read (Q := fun v l => l = [.read r v]) (fun _ => rfl)) fun v _ hl => hl ▸ h v

theorem write_bind {r : ρ} {v : UInt32} {f : Unit → Mmio ρ β}
    (h : Runs (f ()) (fun b m => R b (.write r v :: m))) : Runs (Mmio.write r v >>= f) R :=
  bind (write (Q := fun _ l => l = [.write r v]) rfl) fun _ _ hl => hl ▸ h

theorem store_bind {a : Nat} {b : UInt8} {f : Unit → Mmio ρ β}
    (h : Runs (f ()) (fun c m => R c (.store a b :: m))) :
    Runs ((Mmio.store a b : Mmio ρ Unit) >>= f) R :=
  bind (store (Q := fun _ l => l = [.store a b]) rfl) fun _ _ hl => hl ▸ h

end Runs

end Mmio

/-! ## What a list of accesses holds -/

namespace Access

variable {ρ : Type}

/-- The byte stored and its address, if this access stores one. -/
def stored? : Access ρ → Option (Nat × UInt8)
  | .store a b => some (a, b)
  | _ => none

/-- The bytes stored, with their addresses, in order. -/
def stored (l : List (Access ρ)) : List (Nat × UInt8) := l.filterMap stored?

@[simp] theorem stored_append (l m : List (Access ρ)) : stored (l ++ m) = stored l ++ stored m :=
  List.filterMap_append

@[simp] theorem stored_nil : stored ([] : List (Access ρ)) = [] := rfl

@[simp] theorem stored_read (r : ρ) (v : UInt32) (l : List (Access ρ)) :
    stored (.read r v :: l) = stored l := rfl

@[simp] theorem stored_write (r : ρ) (v : UInt32) (l : List (Access ρ)) :
    stored (.write r v :: l) = stored l := rfl

variable [DecidableEq ρ]

/-- The value a register is written, if this access does it. -/
def written? (r : ρ) : Access ρ → Option UInt32
  | .write q v => if q = r then some v else none
  | _ => none

/-- The value a register is read as, if this access does it. -/
def received? (r : ρ) : Access ρ → Option UInt32
  | .read q v => if q = r then some v else none
  | _ => none

/-- The values written to `r`, in order. -/
def written (r : ρ) (l : List (Access ρ)) : List UInt32 := l.filterMap (written? r)

/-- The values read from `r`, in order. -/
def received (r : ρ) (l : List (Access ρ)) : List UInt32 := l.filterMap (received? r)

@[simp] theorem written_append (r : ρ) (l m : List (Access ρ)) :
    written r (l ++ m) = written r l ++ written r m := List.filterMap_append

@[simp] theorem received_append (r : ρ) (l m : List (Access ρ)) :
    received r (l ++ m) = received r l ++ received r m := List.filterMap_append

@[simp] theorem written_nil (r : ρ) : written r [] = [] := rfl

@[simp] theorem written_write_self (r : ρ) (v : UInt32) (l : List (Access ρ)) :
    written r (.write r v :: l) = v :: written r l := by
  simp [written, written?]

theorem written_write_of_ne {r q : ρ} (h : q ≠ r) (v : UInt32) (l : List (Access ρ)) :
    written r (.write q v :: l) = written r l := by
  simp [written, written?, h]

@[simp] theorem written_read (r q : ρ) (v : UInt32) (l : List (Access ρ)) :
    written r (.read q v :: l) = written r l := rfl

@[simp] theorem received_nil (r : ρ) : received r [] = [] := rfl

@[simp] theorem received_read_self (r : ρ) (v : UInt32) (l : List (Access ρ)) :
    received r (.read r v :: l) = v :: received r l := by
  simp [received, received?]

theorem received_read_of_ne {r q : ρ} (h : q ≠ r) (v : UInt32) (l : List (Access ρ)) :
    received r (.read q v :: l) = received r l := by
  simp [received, received?, h]

@[simp] theorem received_write (r q : ρ) (v : UInt32) (l : List (Access ρ)) :
    received r (.write q v :: l) = received r l := rfl

end Access

end Pmb887x.Library
