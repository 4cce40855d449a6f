import Mathlib.Logic.Relation

set_option autoImplicit false

/-! # Two programs on a lossless byte link

`Prog α` is a program that exchanges bytes with a peer and ends with an `α`; `Runs p ins outs a`
says that `p` consumes exactly `ins`, sends exactly `outs` and ends with `a`.

A `Config` puts a program (the host) and a program that starts over whenever it ends (the device)
at the two ends of a link with one queue for each direction. `Step` lets either side move, so a run
is any interleaving of the two. Both sides are deterministic and a receive waits, so the order of
the moves does not matter: where one schedule ends, every schedule ends, in the same configuration
(`Config.every_run`). -/

namespace Pmb887x.Library

/-- A program that sends and receives bytes. -/
inductive Prog (α : Type) where
  | ret (a : α)
  | recv (k : UInt8 → Prog α)
  | send (b : UInt8) (k : Prog α)

namespace Prog

variable {α β γ : Type}

/-- Sequential composition. -/
def bind : Prog α → (α → Prog β) → Prog β
  | ret a, f => f a
  | recv k, f => recv (fun b => (k b).bind f)
  | send b k, f => send b (k.bind f)

instance : Monad Prog where
  pure := ret
  bind := bind

@[simp] theorem pure_eq (a : α) : (pure a : Prog α) = ret a := rfl

@[simp] theorem ret_bind (a : α) (f : α → Prog β) : (ret a >>= f) = f a := rfl

@[simp] theorem recv_bind (k : UInt8 → Prog α) (f : α → Prog β) :
    (recv k >>= f) = recv (fun b => k b >>= f) := rfl

@[simp] theorem send_bind (b : UInt8) (k : Prog α) (f : α → Prog β) :
    (send b k >>= f) = send b (k >>= f) := rfl

instance : LawfulMonad Prog := LawfulMonad.mk' Prog
  (fun p => by
    induction p with
    | ret a => rfl
    | recv k ih => exact congrArg recv (funext ih)
    | send b k ih => exact congrArg (send b) ih)
  (fun _ _ => rfl)
  (fun p f g => by
    induction p with
    | ret a => rfl
    | recv k ih => simp only [recv_bind, ih]
    | send b k ih => simp only [send_bind, ih])

/-- Receive one byte. -/
def getc : Prog UInt8 := recv ret

/-- Send one byte. -/
def putc (b : UInt8) : Prog Unit := send b (ret ())

/-- Send a byte string. -/
def sendAll : List UInt8 → Prog Unit
  | [] => ret ()
  | b :: rest => send b (sendAll rest)

/-- Receive `n` bytes. -/
def recvAll : Nat → Prog (List UInt8)
  | 0 => ret []
  | n + 1 => do
      let b ← getc
      let rest ← recvAll n
      pure (b :: rest)

/-- Consuming exactly `ins` and sending exactly `outs`, the program ends with `a`. -/
inductive Runs : Prog α → List UInt8 → List UInt8 → α → Prop where
  | ret (a : α) : Runs (.ret a) [] [] a
  | recv {k : UInt8 → Prog α} {b : UInt8} {ins outs : List UInt8} {a : α}
      (h : Runs (k b) ins outs a) : Runs (.recv k) (b :: ins) outs a
  | send {k : Prog α} {b : UInt8} {ins outs : List UInt8} {a : α}
      (h : Runs k ins outs a) : Runs (.send b k) ins (b :: outs) a

/-- Run the program on a byte stream: its result, the unread rest of the stream and what it sent;
    `none` when it waits for more than the stream holds. -/
def exec : Prog α → List UInt8 → Option (α × List UInt8 × List UInt8)
  | .ret a, ins => some (a, ins, [])
  | .recv _, [] => none
  | .recv k, b :: ins => (k b).exec ins
  | .send b k, ins => (k.exec ins).map (fun r => (r.1, r.2.1, b :: r.2.2))

/-- On a stream that starts with its input the program leaves the rest of the stream unread. -/
theorem Runs.exec_eq {p : Prog α} {ins outs : List UInt8} {a : α} (h : Runs p ins outs a)
    (rest : List UInt8) : p.exec (ins ++ rest) = some (a, rest, outs) := by
  induction h with
  | ret a => rfl
  | recv h ih => exact ih
  | send h ih => simp [exec, ih]

/-- The composition rule. -/
theorem Runs.bind {p : Prog α} {f : α → Prog β} {ins ins' outs outs' : List UInt8} {a : α} {b : β}
    (hp : Runs p ins outs a) (hf : Runs (f a) ins' outs' b) :
    Runs (p >>= f) (ins ++ ins') (outs ++ outs') b := by
  induction hp with
  | ret a => exact hf
  | recv h ih => exact Runs.recv (ih hf)
  | send h ih => exact Runs.send (ih hf)

/-- Composition with a program that only receives. -/
theorem Runs.bind_recv {p : Prog α} {f : α → Prog β} {ins ins' outs : List UInt8} {a : α} {b : β}
    (hp : Runs p ins [] a) (hf : Runs (f a) ins' outs b) :
    Runs (p >>= f) (ins ++ ins') outs b :=
  hp.bind hf

theorem Runs.of_ret {a a' : α} {ins outs : List UInt8} (h : Runs (.ret a') ins outs a) : ins = [] ∧ a' = a := by
  cases h
  exact ⟨rfl, rfl⟩

theorem Runs.map {p : Prog α} {ins outs : List UInt8} {a : α} (f : α → β) (h : Runs p ins outs a) :
    Runs (p >>= fun a => pure (f a)) ins outs (f a) := by
  have hend : Runs (pure (f a) : Prog β) [] [] (f a) := Runs.ret (f a)
  have hmap := h.bind (f := fun a => pure (f a)) hend
  rwa [List.append_nil, List.append_nil] at hmap

/-- Composition with a program that only sends. -/
theorem Runs.bind_send {p : Prog α} {f : α → Prog β} {ins outs outs' : List UInt8} {a : α} {b : β}
    (hp : Runs p [] outs a) (hf : Runs (f a) ins outs' b) : Runs (p >>= f) ins (outs ++ outs') b :=
  hp.bind hf

theorem Runs.bind_getc {f : UInt8 → Prog β} {c : UInt8} {ins outs : List UInt8} {b : β}
    (hf : Runs (f c) ins outs b) : Runs (getc >>= f) (c :: ins) outs b :=
  Runs.recv hf

theorem Runs.bind_putc {f : Unit → Prog β} {c : UInt8} {ins outs : List UInt8} {b : β}
    (hf : Runs (f ()) ins outs b) : Runs (putc c >>= f) ins (c :: outs) b :=
  Runs.send hf

theorem runs_sendAll (bs : List UInt8) : Runs (sendAll bs) [] bs () := by
  induction bs with
  | nil => exact Runs.ret ()
  | cons b rest ih => exact Runs.send ih

theorem runs_recvAll (bs : List UInt8) : Runs (recvAll bs.length) bs [] bs := by
  induction bs with
  | nil => exact Runs.ret []
  | cons b rest ih =>
      have hrest : Runs (recvAll rest.length >>= fun rest => pure (b :: rest)) (rest ++ []) []
          (b :: rest) := ih.bind_recv (Runs.ret (b :: rest))
      rw [List.append_nil] at hrest
      exact Runs.bind_getc hrest

/-- `Runs` for a program that sends its last byte and ends: whoever has all bytes knows that it has ended. -/
inductive Replies : Prog α → List UInt8 → List UInt8 → α → Prop where
  | last (b : UInt8) (a : α) : Replies (.send b (.ret a)) [] [b] a
  | recv {k : UInt8 → Prog α} {b : UInt8} {ins outs : List UInt8} {a : α}
      (h : Replies (k b) ins outs a) : Replies (.recv k) (b :: ins) outs a
  | send {k : Prog α} {b : UInt8} {ins outs : List UInt8} {a : α}
      (h : Replies k ins outs a) : Replies (.send b k) ins (b :: outs) a

theorem Replies.runs {p : Prog α} {ins outs : List UInt8} {a : α} (h : Replies p ins outs a) :
    Runs p ins outs a := by
  induction h with
  | last b a => exact Runs.send (Runs.ret a)
  | recv h ih => exact Runs.recv ih
  | send h ih => exact Runs.send ih

/-- The first move. -/
theorem Replies.first {p : Prog α} {ins outs : List UInt8} {a : α} (h : Replies p ins outs a) :
    (∃ b, p = .send b (.ret a) ∧ ins = [] ∧ outs = [b]) ∨
    (∃ k b ins', p = .recv k ∧ ins = b :: ins' ∧ Replies (k b) ins' outs a) ∨
    (∃ k b outs', p = .send b k ∧ outs = b :: outs' ∧ Replies k ins outs' a) := by
  cases h with
  | last b a => exact .inl ⟨b, rfl, rfl, rfl⟩
  | recv h => exact .inr (.inl ⟨_, _, _, rfl, rfl, h⟩)
  | send h => exact .inr (.inr ⟨_, _, _, rfl, rfl, h⟩)

theorem Replies.ne_nil {p : Prog α} {ins outs : List UInt8} {a : α} (h : Replies p ins outs a) : outs ≠ [] := by
  induction h with
  | last b a => exact List.cons_ne_nil _ _
  | recv h ih => exact ih
  | send h ih => exact List.cons_ne_nil _ _

theorem Replies.ne_ret {p : Prog α} {ins outs : List UInt8} {a : α} (h : Replies p ins outs a) (a' : α) :
    p ≠ .ret a' := by
  rintro rfl
  cases h

/-- The composition rule. -/
theorem Runs.bind_replies {p : Prog α} {f : α → Prog β} {ins ins' outs outs' : List UInt8} {a : α} {b : β}
    (hp : Runs p ins outs a) (hf : Replies (f a) ins' outs' b) :
    Replies (p >>= f) (ins ++ ins') (outs ++ outs') b := by
  induction hp with
  | ret a => exact hf
  | recv h ih => exact Replies.recv (ih hf)
  | send h ih => exact Replies.send (ih hf)

end Prog

/-! ## Relations with the diamond property -/

section Diamond

variable {α : Type} {r : α → α → Prop}

/-- Two different steps from one place are joined by one step each. -/
def Diamond (r : α → α → Prop) : Prop :=
  ∀ a b c, r a b → r a c → b = c ∨ ∃ d, r b d ∧ r c d

/-- `a` reaches `b` in `n` steps. -/
inductive StepsIn (r : α → α → Prop) : Nat → α → α → Prop where
  | refl (a : α) : StepsIn r 0 a a
  | head {n : Nat} {a b c : α} (h : r a b) (t : StepsIn r n b c) : StepsIn r (n + 1) a c

theorem exists_stepsIn {a b : α} (h : Relation.ReflTransGen r a b) : ∃ n, StepsIn r n a b := by
  induction h using Relation.ReflTransGen.head_induction_on with
  | refl => exact ⟨0, .refl b⟩
  | head hab _ ih =>
      obtain ⟨n, hn⟩ := ih
      exact ⟨n + 1, .head hab hn⟩

theorem StepsIn.reflTransGen {n : Nat} {a b : α} (h : StepsIn r n a b) :
    Relation.ReflTransGen r a b := by
  induction h with
  | refl a => exact .refl
  | head h _ ih => exact .head h ih

/-- Whichever step is taken first, a normal form that was `n` steps away is one step closer. -/
theorem Diamond.stepsIn_pred (hr : Diamond r) {f : α} (hf : ∀ b, ¬ r f b) (n : Nat) :
    ∀ {a b : α}, StepsIn r n a f → r a b → ∃ k, n = k + 1 ∧ StepsIn r k b f := by
  induction n with
  | zero =>
      intro a b h hab
      cases h
      exact absurd hab (hf b)
  | succ n ih =>
      intro a b h hab
      cases h with
      | head hac ht =>
          rcases hr _ _ _ hab hac with rfl | ⟨d, hbd, hcd⟩
          · exact ⟨n, rfl, ht⟩
          · obtain ⟨k, rfl, hk⟩ := ih ht hcd
            exact ⟨k + 1, rfl, .head hbd hk⟩

/-- If one run ends, every run is finite. -/
theorem Diamond.acc (hr : Diamond r) {f : α} (hf : ∀ b, ¬ r f b) (n : Nat) :
    ∀ {a : α}, StepsIn r n a f → Acc (fun x y => r y x) a := by
  induction n with
  | zero =>
      intro a h
      cases h
      exact ⟨_, fun b hb => absurd hb (hf b)⟩
  | succ n ih =>
      intro a h
      refine ⟨_, fun b hb => ?_⟩
      obtain ⟨k, hk, hb'⟩ := hr.stepsIn_pred hf (n + 1) h hb
      obtain rfl : n = k := by omega
      exact ih hb'

/-- If one run ends in a normal form, every place reached leads there. -/
theorem Diamond.reaches_normal (hr : Diamond r) {a b f : α} (hf : ∀ b, ¬ r f b)
    (haf : Relation.ReflTransGen r a f) (hab : Relation.ReflTransGen r a b) :
    Relation.ReflTransGen r b f := by
  induction hab with
  | refl => exact haf
  | tail _ hbc ih =>
      obtain ⟨n, hn⟩ := exists_stepsIn ih
      obtain ⟨k, -, hk⟩ := hr.stepsIn_pred hf n hn hbc
      exact hk.reflTransGen

end Diamond

/-! ## The two-party system -/

/-- A host and a device at the ends of a link; `toDevice` and `toHost` are the bytes in flight. -/
structure Config (α σ : Type) where
  host : Prog α
  device : Prog σ
  toDevice : List UInt8
  toHost : List UInt8

namespace Config

variable {α σ : Type}

/-- The host's move, if it has one. -/
def hostStep (c : Config α σ) : Option (Config α σ) :=
  match c.host, c.toHost with
  | .send b k, _ => some { c with host := k, toDevice := c.toDevice ++ [b] }
  | .recv k, b :: rest => some { c with host := k b, toHost := rest }
  | _, _ => none

/-- The device's move, if it has one; `body` is what it does each time it starts over. -/
def deviceStep (body : σ → Prog σ) (c : Config α σ) : Option (Config α σ) :=
  match c.device, c.toDevice with
  | .ret s, _ => some { c with device := body s }
  | .send b k, _ => some { c with device := k, toHost := c.toHost ++ [b] }
  | .recv k, b :: rest => some { c with device := k b, toDevice := rest }
  | .recv _, [] => none

/-- One move of either side. -/
def Step (body : σ → Prog σ) (c c' : Config α σ) : Prop :=
  c.hostStep = some c' ∨ c.deviceStep body = some c'

/-- The reflexive and transitive closure of `Step`: any interleaving. -/
abbrev Reaches (body : σ → Prog σ) : Config α σ → Config α σ → Prop :=
  Relation.ReflTransGen (Step body)

/-- Moves of different sides commute: a queue grows at one end and shrinks at the other. -/
theorem hostStep_comm_deviceStep (body : σ → Prog σ) {c c₁ c₂ : Config α σ}
    (h₁ : c.hostStep = some c₁) (h₂ : c.deviceStep body = some c₂) :
    ∃ d, c₁.deviceStep body = some d ∧ c₂.hostStep = some d := by
  obtain ⟨host, device, toDevice, toHost⟩ := c
  cases host with
  | ret a => simp [hostStep] at h₁
  | send b k =>
      cases device with
      | ret s =>
          simp only [hostStep, deviceStep, Option.some.injEq] at h₁ h₂
          subst h₁ h₂
          exact ⟨_, rfl, rfl⟩
      | send b' k' =>
          simp only [hostStep, deviceStep, Option.some.injEq] at h₁ h₂
          subst h₁ h₂
          exact ⟨_, rfl, rfl⟩
      | recv k' =>
          cases toDevice with
          | nil => simp [deviceStep] at h₂
          | cons b' rest =>
              simp only [hostStep, deviceStep, Option.some.injEq] at h₁ h₂
              subst h₁ h₂
              exact ⟨_, rfl, rfl⟩
  | recv k =>
      cases toHost with
      | nil => simp [hostStep] at h₁
      | cons b rest =>
          cases device with
          | ret s =>
              simp only [hostStep, deviceStep, Option.some.injEq] at h₁ h₂
              subst h₁ h₂
              exact ⟨_, rfl, rfl⟩
          | send b' k' =>
              simp only [hostStep, deviceStep, Option.some.injEq] at h₁ h₂
              subst h₁ h₂
              exact ⟨_, rfl, rfl⟩
          | recv k' =>
              cases toDevice with
              | nil => simp [deviceStep] at h₂
              | cons b' rest' =>
                  simp only [hostStep, deviceStep, Option.some.injEq] at h₁ h₂
                  subst h₁ h₂
                  exact ⟨_, rfl, rfl⟩

theorem step_diamond (body : σ → Prog σ) : Diamond (Step (α := α) body) := by
  rintro a b c (hb | hb) (hc | hc)
  · exact .inl (Option.some.inj (hb.symm.trans hc))
  · obtain ⟨d, h₁, h₂⟩ := hostStep_comm_deviceStep body hb hc
    exact .inr ⟨d, .inr h₁, .inl h₂⟩
  · obtain ⟨d, h₁, h₂⟩ := hostStep_comm_deviceStep body hc hb
    exact .inr ⟨d, .inl h₂, .inr h₁⟩
  · exact .inl (Option.some.inj (hb.symm.trans hc))

/-- The host has ended with `a`, the device waits for a byte, nothing is in flight. -/
structure Settled (c : Config α σ) (a : α) : Prop where
  host : c.host = .ret a
  device : ∃ k, c.device = .recv k
  toDevice : c.toDevice = []
  toHost : c.toHost = []

theorem Settled.not_step {body : σ → Prog σ} {c : Config α σ} {a : α} (h : c.Settled a)
    (c' : Config α σ) : ¬ Step body c c' := by
  obtain ⟨host, device, toDevice, toHost⟩ := c
  obtain ⟨rfl, ⟨k, rfl⟩, rfl, rfl⟩ := h
  rintro (h | h)
  · simp [hostStep] at h
  · simp [deviceStep] at h

/-- **Every schedule ends like this one.** If some run settles, then from every configuration that
    any run reaches the same one is reached, and no run goes on for ever. -/
theorem every_run {body : σ → Prog σ} {c f : Config α σ} {a : α} (hf : f.Settled a)
    (h : Reaches body c f) :
    (∀ c', Reaches body c c' → Reaches body c' f) ∧
      Acc (fun x y => Step body y x) c := by
  obtain ⟨n, hn⟩ := exists_stepsIn h
  exact ⟨fun c' hc' => (step_diamond body).reaches_normal hf.not_step h hc',
    (step_diamond body).acc hf.not_step n hn⟩

/-! ## Request and reply -/

theorem reaches_sendAll (body : σ → Prog σ) (bs : List UInt8) (k : Prog α) :
    ∀ (device : Prog σ) (toDevice toHost : List UInt8),
      Reaches body ⟨Prog.sendAll bs >>= fun _ => k, device, toDevice, toHost⟩
        ⟨k, device, toDevice ++ bs, toHost⟩ := by
  induction bs with
  | nil =>
      intro device toDevice toHost
      simp only [Prog.sendAll, Prog.ret_bind, List.append_nil]
      exact .refl
  | cons b rest ih =>
      intro device toDevice toHost
      have hrest := ih device (toDevice ++ [b]) toHost
      rw [List.append_assoc, List.singleton_append] at hrest
      exact .head (.inl rfl) hrest

theorem reaches_of_runs (body : σ → Prog σ) {p : Prog σ} {ins outs : List UInt8} {s : σ}
    (h : Prog.Runs p ins outs s) :
    ∀ (host : Prog α) (rest toHost : List UInt8),
      Reaches body ⟨host, p, ins ++ rest, toHost⟩ ⟨host, body s, rest, toHost ++ outs⟩ := by
  induction h with
  | ret s =>
      intro host rest toHost
      rw [List.nil_append, List.append_nil]
      exact .single (.inr rfl)
  | recv h ih =>
      intro host rest toHost
      exact .head (.inr rfl) (ih host rest toHost)
  | @send k b ins outs s h ih =>
      intro host rest toHost
      have hrest := ih host rest (toHost ++ [b])
      rw [List.append_assoc, List.singleton_append] at hrest
      exact .head (.inr rfl) hrest

/-- The first part of the device's program. -/
theorem reaches_of_runs_bind (body : σ → Prog σ) {β : Type} {p : Prog β} {ins outs : List UInt8} {b : β}
    (h : Prog.Runs p ins outs b) (f : β → Prog σ) :
    ∀ (host : Prog α) (rest toHost : List UInt8),
      Reaches body ⟨host, p >>= f, ins ++ rest, toHost⟩ ⟨host, f b, rest, toHost ++ outs⟩ := by
  induction h with
  | ret b =>
      intro host rest toHost
      rw [List.nil_append, List.append_nil]
      exact .refl
  | recv h ih =>
      intro host rest toHost
      exact .head (.inr rfl) (ih host rest toHost)
  | @send k b ins outs s h ih =>
      intro host rest toHost
      have hrest := ih host rest (toHost ++ [b])
      rw [List.append_assoc, List.singleton_append] at hrest
      exact .head (.inr rfl) hrest

/-- **The request-reply rule.** If one round of the device consumes the request and answers with
    `reply`, a host that sends the request and then waits for a byte goes on with `reply`, and both
    sides are back at a message boundary. -/
theorem reaches_request (body : σ → Prog σ) {s s' : σ} {request : List UInt8} {reply : UInt8}
    (h : Prog.Runs (body s) request [reply] s') (k : UInt8 → Prog α) :
    Reaches body ⟨Prog.sendAll request >>= fun _ => .recv k, body s, [], []⟩
      ⟨k reply, body s', [], []⟩ := by
  refine (reaches_sendAll body request (.recv k) (body s) [] []).trans ?_
  have hrun := reaches_of_runs body h (Prog.recv k) [] []
  simp only [List.append_nil, List.nil_append] at hrun ⊢
  exact hrun.tail (.inl rfl)

/-- The device neither looks at the host nor changes it. -/
theorem deviceStep_host {β : Type} {body : σ → Prog σ} {c c' : Config α σ}
    (h : c.deviceStep body = some c') (host : Prog β) :
    c'.host = c.host ∧
      deviceStep body ⟨host, c.device, c.toDevice, c.toHost⟩
        = some ⟨host, c'.device, c'.toDevice, c'.toHost⟩ := by
  obtain ⟨_, device, toDevice, toHost⟩ := c
  cases device with
  | ret s =>
      simp only [deviceStep, Option.some.injEq] at h
      subst h
      exact ⟨rfl, rfl⟩
  | send b k =>
      simp only [deviceStep, Option.some.injEq] at h
      subst h
      exact ⟨rfl, rfl⟩
  | recv k =>
      cases toDevice with
      | nil => simp [deviceStep] at h
      | cons b rest =>
          simp only [deviceStep, Option.some.injEq] at h
          subst h
          exact ⟨rfl, rfl⟩

/-- A move of the host is a move of every program that starts with it. -/
theorem hostStep_bind {β : Type} {c c' : Config α σ} (h : c.hostStep = some c') (f : α → Prog β) :
    hostStep ⟨c.host >>= f, c.device, c.toDevice, c.toHost⟩
      = some ⟨c'.host >>= f, c'.device, c'.toDevice, c'.toHost⟩ := by
  obtain ⟨host, device, toDevice, toHost⟩ := c
  cases host with
  | ret a => simp [hostStep] at h
  | send b k =>
      simp only [hostStep, Option.some.injEq] at h
      subst h
      rfl
  | recv k =>
      cases toHost with
      | nil => simp [hostStep] at h
      | cons b rest =>
          simp only [hostStep, Option.some.injEq] at h
          subst h
          rfl

/-- **The frame rule for the host.** A run of the host is a run of every program that starts with it. -/
theorem Reaches.host_bind {β : Type} {body : σ → Prog σ} {c c' : Config α σ} (h : Reaches body c c')
    (f : α → Prog β) :
    Reaches body ⟨c.host >>= f, c.device, c.toDevice, c.toHost⟩
      ⟨c'.host >>= f, c'.device, c'.toDevice, c'.toHost⟩ := by
  induction h with
  | refl => exact .refl
  | @tail c₁ c₂ _ hstep ih =>
      refine ih.tail ?_
      rcases hstep with hhost | hdevice
      · exact .inl (hostStep_bind hhost f)
      · obtain ⟨hsame, hmove⟩ := deviceStep_host hdevice (c₁.host >>= f)
        exact .inr (hsame ▸ hmove)

/-- A host that has ended stays so. -/
theorem Reaches.host_ret {body : σ → Prog σ} {c c' : Config α σ} {a : α} (h : Reaches body c c')
    (hret : c.host = .ret a) : c'.host = .ret a := by
  induction h with
  | refl => exact hret
  | @tail c₁ c₂ _ hstep ih =>
      rcases hstep with hhost | hdevice
      · simp [hostStep, ih] at hhost
      · exact (deviceStep_host hdevice c₁.host).1.trans ih

/-- **No schedule is lost.** Whatever two runs do, they can be continued to one configuration. -/
theorem joins {body : σ → Prog σ} {c c₁ c₂ : Config α σ} (h₁ : Reaches body c c₁) (h₂ : Reaches body c c₂) :
    ∃ d, Reaches body c₁ d ∧ Reaches body c₂ d := by
  refine Relation.church_rosser (fun a b c hab hac => ?_) h₁ h₂
  rcases step_diamond body a b c hab hac with rfl | ⟨d, hbd, hcd⟩
  · exact ⟨b, .refl, .refl⟩
  · exact ⟨d, .single hbd, .single hcd⟩

/-- A host that only receives takes its replies from the queue. -/
theorem reaches_reply (body : σ → Prog σ) {k : Prog α} {reply outs : List UInt8} {a : α}
    (h : Prog.Runs k reply outs a) (houts : outs = []) (device : Prog σ) (toDevice rest : List UInt8) :
    Reaches body ⟨k, device, toDevice, reply ++ rest⟩ ⟨.ret a, device, toDevice, rest⟩ := by
  induction h with
  | ret a => exact .refl
  | recv h ih => exact .head (.inl rfl) (ih houts)
  | send h ih => cases houts

/-! ## One exchange -/

/-- A device that has ended with `s` and waits. -/
def waiting (s : σ) : Prog σ := .recv fun _ => .ret s

/-- The two programs end with `a` and `s`, and nothing is left on the link. -/
def Exchange (host : Prog α) (device : Prog σ) (a : α) (s : σ) : Prop :=
  Reaches waiting ⟨host, device, [], []⟩ ⟨.ret a, waiting s, [], []⟩

/-- **The exchange rule.** The device consumes the request and the host its reply. -/
theorem exchange_of_runs {k : Prog α} {device : Prog σ} {request reply : List UInt8} {a : α} {s : σ}
    (hk : Prog.Runs k reply [] a) (hdevice : Prog.Runs device request reply s) :
    Exchange (Prog.sendAll request >>= fun _ => k) device a s := by
  have hsend := reaches_sendAll waiting request k device [] []
  have hserve := reaches_of_runs waiting hdevice k [] []
  have hreceive := reaches_reply waiting hk rfl (waiting s) [] []
  simp only [List.append_nil, List.nil_append] at hsend hserve hreceive
  exact (hsend.trans hserve).trans hreceive

/-- However the two are scheduled, the exchange ends, and in the same way. -/
theorem Exchange.every_run {host : Prog α} {device : Prog σ} {a : α} {s : σ} (h : Exchange host device a s) :
    (∀ c, Reaches waiting ⟨host, device, [], []⟩ c → Reaches waiting c ⟨.ret a, waiting s, [], []⟩) ∧
      Acc (fun x y => Step waiting y x) ⟨host, device, [], []⟩ :=
  Config.every_run ⟨rfl, ⟨_, rfl⟩, rfl, rfl⟩ h

theorem Exchange.unique {host : Prog α} {device : Prog σ} {a a' : α} {s s' : σ}
    (h : Exchange host device a s) (h' : Exchange host device a' s') : a = a' ∧ s = s' := by
  have hsettled : Settled (⟨.ret a, waiting s, [], []⟩ : Config α σ) a := ⟨rfl, ⟨_, rfl⟩, rfl, rfl⟩
  rcases (h'.every_run.1 _ h).cases_head with heq | ⟨c, hstep, -⟩
  · obtain ⟨hhost, hdevice, -, -⟩ := Config.mk.inj heq
    exact ⟨Prog.ret.inj hhost, Prog.ret.inj (congrFun (Prog.recv.inj hdevice) 0)⟩
  · exact absurd hstep (hsettled.not_step c)

end Config

end Pmb887x.Library
