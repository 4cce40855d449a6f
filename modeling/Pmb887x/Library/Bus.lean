import Mathlib.Order.Defs.Unbundled

set_option autoImplicit false

/-! # Programs on a bus

A program reads and writes 16-bit words at addresses and reports what it finds. The device on the bus is a
relation: it may answer and react in several ways. `Runs` collects the runs of a program on a device, with the
value, the reports and the state they end in; every program has one where the device always reacts.

`Keeps P R p` is the correctness statement for commands that begin and end in `P`: they take the device along
`R`, and so does a sequence of them. -/

namespace Pmb887x.Library

/-- A program that ends with a value of `α` and reports values of `ρ`. -/
inductive BusProgram (ρ α : Type) where
  | ret (a : α)
  | read (address : Nat) (k : UInt16 → BusProgram ρ α)
  | write (address : Nat) (value : UInt16) (k : BusProgram ρ α)
  | report (r : ρ) (k : BusProgram ρ α)

/-- What a device may do: `reads s address value s'` answers with `value`, `writes s address value s'` takes it. -/
structure BusDevice (σ : Type) where
  reads : σ → Nat → UInt16 → σ → Prop
  writes : σ → Nat → UInt16 → σ → Prop

/-- The device reacts to everything. -/
structure BusDevice.Total {σ : Type} (device : BusDevice σ) : Prop where
  reads : ∀ s address, ∃ value s', device.reads s address value s'
  writes : ∀ s address value, ∃ s', device.writes s address value s'

namespace BusProgram

variable {ρ α β σ : Type}

def bind (p : BusProgram ρ α) (f : α → BusProgram ρ β) : BusProgram ρ β :=
  match p with
  | ret a => f a
  | read address k => read address fun value => (k value).bind f
  | write address value k => write address value (k.bind f)
  | report r k => report r (k.bind f)

instance : Monad (BusProgram ρ) where
  pure := ret
  bind := bind

/-- Read one word. -/
def readWord (address : Nat) : BusProgram ρ UInt16 := read address ret

/-- Write one word. -/
def writeWord (address : Nat) (value : UInt16) : BusProgram ρ Unit := write address value (ret ())

def tell (r : ρ) : BusProgram ρ Unit := report r (ret ())

/-- The runs of a program from one state. -/
inductive Runs (device : BusDevice σ) : BusProgram ρ α → σ → α → List ρ → σ → Prop where
  | ret (a : α) (s : σ) : Runs device (ret a) s a [] s
  | read {address value k s s₁ a l s'} (hread : device.reads s address value s₁)
      (hrest : Runs device (k value) s₁ a l s') : Runs device (read address k) s a l s'
  | write {address value k s s₁ a l s'} (hwrite : device.writes s address value s₁)
      (hrest : Runs device k s₁ a l s') : Runs device (write address value k) s a l s'
  | report {r k s a l s'} (hrest : Runs device k s a l s') : Runs device (report r k) s a (r :: l) s'

variable {device : BusDevice σ}

theorem exists_runs (hdevice : device.Total) (p : BusProgram ρ α) (s : σ) :
    ∃ a l s', Runs device p s a l s' := by
  induction p generalizing s with
  | ret a => exact ⟨a, [], s, .ret a s⟩
  | read address k ih =>
      obtain ⟨value, s₁, hread⟩ := hdevice.reads s address
      obtain ⟨a, l, s', hrest⟩ := ih value s₁
      exact ⟨a, l, s', .read hread hrest⟩
  | write address value k ih =>
      obtain ⟨s₁, hwrite⟩ := hdevice.writes s address value
      obtain ⟨a, l, s', hrest⟩ := ih s₁
      exact ⟨a, l, s', .write hwrite hrest⟩
  | report r k ih =>
      obtain ⟨a, l, s', hrest⟩ := ih s
      exact ⟨a, r :: l, s', .report hrest⟩

namespace Runs

/-! ## What a run of a composed program is -/

theorem pure_iff {a b : α} {s s' : σ} {l : List ρ} :
    Runs device (Pure.pure a : BusProgram ρ α) s b l s' ↔ b = a ∧ l = [] ∧ s' = s := by
  constructor
  · intro h
    cases h
    exact ⟨rfl, rfl, rfl⟩
  · rintro ⟨rfl, rfl, rfl⟩
    exact .ret b s'

/-- A run of a sequence is a run of its first part, then one of the second. -/
theorem bind_iff {p : BusProgram ρ α} {f : α → BusProgram ρ β} {s s' : σ} {b : β} {l : List ρ} :
    Runs device (p >>= f) s b l s' ↔
      ∃ a l₁ s₁ l₂, Runs device p s a l₁ s₁ ∧ Runs device (f a) s₁ b l₂ s' ∧ l = l₁ ++ l₂ := by
  constructor
  · intro h
    change Runs device (p.bind f) s b l s' at h
    induction p generalizing s l with
    | ret a => exact ⟨a, [], s, l, .ret a s, h, rfl⟩
    | read address k ih =>
        cases h with
        | read hread hrest =>
            obtain ⟨a, l₁, s₁, l₂, hfirst, hsecond, hl⟩ := ih _ hrest
            exact ⟨a, l₁, s₁, l₂, .read hread hfirst, hsecond, hl⟩
    | write address value k ih =>
        cases h with
        | write hwrite hrest =>
            obtain ⟨a, l₁, s₁, l₂, hfirst, hsecond, hl⟩ := ih hrest
            exact ⟨a, l₁, s₁, l₂, .write hwrite hfirst, hsecond, hl⟩
    | report r k ih =>
        cases h with
        | report hrest =>
            obtain ⟨a, l₁, s₁, l₂, hfirst, hsecond, hl⟩ := ih hrest
            exact ⟨a, r :: l₁, s₁, l₂, .report hfirst, hsecond, by rw [hl, List.cons_append]⟩
  · rintro ⟨a, l₁, s₁, l₂, hfirst, hsecond, rfl⟩
    change Runs device (p.bind f) s b (l₁ ++ l₂) s'
    induction hfirst with
    | ret a s => exact hsecond
    | read hread _ ih => exact .read hread (ih hsecond)
    | write hwrite _ ih => exact .write hwrite (ih hsecond)
    | report _ ih => exact .report (ih hsecond)

theorem readWord_iff {address : Nat} {value : UInt16} {s s' : σ} {l : List ρ} :
    Runs device (readWord address : BusProgram ρ UInt16) s value l s' ↔ device.reads s address value s' ∧ l = [] := by
  constructor
  · intro h
    cases h with
    | read hread hrest =>
        cases hrest
        exact ⟨hread, rfl⟩
  · rintro ⟨hread, rfl⟩
    exact .read hread (.ret value s')

theorem writeWord_iff {address : Nat} {value : UInt16} {u : Unit} {s s' : σ} {l : List ρ} :
    Runs device (writeWord address value : BusProgram ρ Unit) s u l s' ↔
      device.writes s address value s' ∧ l = [] := by
  constructor
  · intro h
    cases h with
    | write hwrite hrest =>
        cases hrest
        exact ⟨hwrite, rfl⟩
  · rintro ⟨hwrite, rfl⟩
    exact .write hwrite (.ret u s')

theorem tell_iff {r : ρ} {u : Unit} {s s' : σ} {l : List ρ} :
    Runs device (tell r) s u l s' ↔ s' = s ∧ l = [r] := by
  constructor
  · intro h
    cases h with
    | report hrest =>
        cases hrest
        exact ⟨rfl, rfl⟩
  · rintro ⟨rfl, rfl⟩
    exact .report (.ret u s')

end Runs

/-- Every run from `s` ends in `Q`. -/
def Ends (device : BusDevice σ) (s : σ) (p : BusProgram ρ α) (Q : α → List ρ → σ → Prop) : Prop :=
  ∀ a l s', Runs device p s a l s' → Q a l s'

/-- The runs from `s` leave the device there. -/
def Stays (device : BusDevice σ) (s : σ) (p : BusProgram ρ α) : Prop := ∀ a l s', Runs device p s a l s' → s' = s

namespace Stays

variable {s : σ} {p : BusProgram ρ α}

theorem pure (a : α) : Stays device s (Pure.pure a : BusProgram ρ α) := by
  intro b l s' h
  exact (Runs.pure_iff.mp h).2.2

theorem tell (r : ρ) : Stays device s (BusProgram.tell r) := by
  intro u l s' h
  exact (Runs.tell_iff.mp h).1

theorem readWord {address : Nat} (hread : ∀ value s', device.reads s address value s' → s' = s) :
    Stays device s (BusProgram.readWord address : BusProgram ρ UInt16) := by
  intro value l s' h
  exact hread value s' (Runs.readWord_iff.mp h).1

/-- The composition rule. -/
theorem bind {f : α → BusProgram ρ β} (hp : Stays device s p) (hf : ∀ a, Stays device s (f a)) :
    Stays device s (p >>= f) := by
  intro b l s' h
  obtain ⟨a, l₁, s₁, l₂, hfirst, hsecond, -⟩ := Runs.bind_iff.mp h
  obtain rfl := hp a l₁ s₁ hfirst
  exact hf a b l₂ s' hsecond

theorem ite {c : Prop} [Decidable c] {q : BusProgram ρ α} (ht : Stays device s p) (he : Stays device s q) :
    Stays device s (if c then p else q) := by
  split
  · exact ht
  · exact he

end Stays

/-- The runs from `P` end in `P`, along `R`. -/
def Keeps (device : BusDevice σ) (P : σ → Prop) (R : σ → σ → Prop) (p : BusProgram ρ α) : Prop :=
  ∀ s a l s', P s → Runs device p s a l s' → P s' ∧ R s s'

namespace Keeps

variable {P : σ → Prop} {R R' : σ → σ → Prop} {p : BusProgram ρ α}

theorem pure [Std.Refl R] (a : α) : Keeps device P R (Pure.pure a : BusProgram ρ α) := by
  intro s b l s' hs h
  obtain ⟨-, -, rfl⟩ := Runs.pure_iff.mp h
  exact ⟨hs, Std.Refl.refl s'⟩

theorem tell [Std.Refl R] (r : ρ) : Keeps device P R (tell r) := by
  intro s u l s' hs h
  obtain ⟨rfl, -⟩ := Runs.tell_iff.mp h
  exact ⟨hs, Std.Refl.refl s'⟩

/-- The composition rule. -/
theorem bind [IsTrans σ R] {f : α → BusProgram ρ β} (hp : Keeps device P R p)
    (hf : ∀ a, Keeps device P R (f a)) : Keeps device P R (p >>= f) := by
  intro s b l s' hs h
  obtain ⟨a, l₁, s₁, l₂, hfirst, hsecond, -⟩ := Runs.bind_iff.mp h
  obtain ⟨hs₁, hR₁⟩ := hp s a l₁ s₁ hs hfirst
  obtain ⟨hs', hR'⟩ := hf a s₁ b l₂ s' hs₁ hsecond
  exact ⟨hs', IsTrans.trans _ _ _ hR₁ hR'⟩

theorem ite {c : Prop} [Decidable c] {q : BusProgram ρ α} (ht : Keeps device P R p)
    (he : Keeps device P R q) : Keeps device P R (if c then p else q) := by
  split
  · exact ht
  · exact he

theorem of_stays [Std.Refl R] (hp : ∀ s, P s → Stays device s p) : Keeps device P R p := by
  intro s a l s' hs h
  obtain rfl := hp s hs a l s' h
  exact ⟨hs, Std.Refl.refl s'⟩

/-- The rule of consequence. -/
theorem mono (hp : Keeps device P R p) (h : ∀ s s', R s s' → R' s s') : Keeps device P R' p := by
  intro s a l s' hs hrun
  obtain ⟨hs', hR⟩ := hp s a l s' hs hrun
  exact ⟨hs', h s s' hR⟩

end Keeps

end BusProgram

end Pmb887x.Library
