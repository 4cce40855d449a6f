import Pmb887x.Library.Link
import Pmb887x.Library.Machine

set_option autoImplicit false

/-! # A host whose receptions run out of time

`TimedProg α` is a program that sends bytes and asks for bytes, and an answer may be that the time has run
out. The link loses nothing: an answer that is late stays in the queue, and the host may take it for the
answer to what it asks next.

`TimedLink` puts such a program and a device at the two ends of a link; the program goes on as `next` says
when it ends, the device starts over. Whatever the host makes of its answers, the device gets the bytes
that were sent, in their order. `Speaks ok post p sent` says that `ok` holds of everything that `p` sends
behind `sent`, for all answers, and `TimedLink.Reaches.hears` that the device has heard a beginning of it. -/

namespace Pmb887x.Library

/-- A program that sends bytes, and asks for bytes that may not come in time. -/
inductive TimedProg (α : Type) where
  | ret (a : α)
  | send (b : UInt8) (k : TimedProg α)
  | recv (k : Option UInt8 → TimedProg α)

namespace TimedProg

variable {α β σ : Type}

/-- Sequential composition. -/
def bind : TimedProg α → (α → TimedProg β) → TimedProg β
  | ret a, f => f a
  | send b k, f => send b (k.bind f)
  | recv k, f => recv (fun r => (k r).bind f)

instance : Monad TimedProg where
  pure := ret
  bind := bind

@[simp] theorem pure_eq (a : α) : (pure a : TimedProg α) = ret a := rfl

@[simp] theorem ret_bind (a : α) (f : α → TimedProg β) : (ret a >>= f) = f a := rfl

@[simp] theorem send_bind (b : UInt8) (k : TimedProg α) (f : α → TimedProg β) :
    (send b k >>= f) = send b (k >>= f) := rfl

@[simp] theorem recv_bind (k : Option UInt8 → TimedProg α) (f : α → TimedProg β) :
    (recv k >>= f) = recv (fun r => k r >>= f) := rfl

instance : LawfulMonad TimedProg := LawfulMonad.mk' TimedProg
  (fun p => by
    induction p with
    | ret a => rfl
    | send b k ih => exact congrArg (send b) ih
    | recv k ih => exact congrArg recv (funext ih))
  (fun _ _ => rfl)
  (fun p f g => by
    induction p with
    | ret a => rfl
    | send b k ih => simp only [send_bind, ih]
    | recv k ih => simp only [recv_bind, ih])

/-- Send a byte string. -/
def sendAll : List UInt8 → TimedProg Unit
  | [] => ret ()
  | b :: rest => send b (sendAll rest)

/-- One byte, if it comes. -/
def getc : TimedProg (Option UInt8) := recv ret

/-- Up to `n` bytes: the first that does not come in time ends the reception. -/
def recvUpTo : Nat → TimedProg (List UInt8)
  | 0 => ret []
  | n + 1 => recv fun
      | none => ret []
      | some b => do
          let rest ← recvUpTo n
          pure (b :: rest)

/-! ## What a program may send -/

/-- Behind `sent`, and whatever the answers are, `ok` holds of all that has been sent after each byte, and
    `post` at the end. -/
def Speaks (ok : List UInt8 → Prop) (post : List UInt8 → α → Prop) : TimedProg α → List UInt8 → Prop
  | ret a, sent => post sent a
  | send b k, sent => ok (sent ++ [b]) ∧ Speaks ok post k (sent ++ [b])
  | recv k, sent => ∀ r, Speaks ok post (k r) sent

section Rules

variable {ok : List UInt8 → Prop} {sent : List UInt8}

/-- The composition rule. -/
theorem Speaks.bind {mid : List UInt8 → α → Prop} {post : List UInt8 → β → Prop} {f : α → TimedProg β}
    (hf : ∀ sent a, mid sent a → Speaks ok post (f a) sent) :
    ∀ {p : TimedProg α} {sent : List UInt8}, Speaks ok mid p sent → Speaks ok post (p >>= f) sent := by
  intro p
  induction p with
  | ret a =>
      intro sent h
      exact hf sent a h
  | send b k ih =>
      intro sent h
      exact ⟨h.1, ih h.2⟩
  | recv k ih =>
      intro sent h r
      exact ih r (h r)

theorem speaks_sendAll {post : List UInt8 → Unit → Prop} (data : List UInt8) :
    ∀ {sent : List UInt8}, (∀ part, part <+: data → ok (sent ++ part)) → post (sent ++ data) () →
      Speaks ok post (sendAll data) sent := by
  induction data with
  | nil =>
      intro sent _ hpost
      rwa [List.append_nil] at hpost
  | cons b rest ih =>
      intro sent hok hpost
      refine ⟨hok [b] (List.prefix_append [b] rest), ih (fun part hpart => ?_) ?_⟩
      · rw [List.append_assoc]
        exact hok (b :: part) ((List.prefix_cons_inj b).mpr hpart)
      · rwa [List.append_assoc]

theorem speaks_recvUpTo {post : List UInt8 → List UInt8 → Prop} :
    ∀ (n : Nat) {sent : List UInt8}, (∀ data, post sent data) → Speaks ok post (recvUpTo n) sent := by
  intro n
  induction n generalizing post with
  | zero =>
      intro sent h
      exact h []
  | succ n ih =>
      intro sent h r
      cases r with
      | none => exact h []
      | some b =>
          have hrest : Speaks ok (fun sent rest => post sent (b :: rest)) (recvUpTo n) sent :=
            ih fun data => h (b :: data)
          exact hrest.bind fun sent rest hpost => hpost

end Rules

/-! ## A host that always waits -/

/-- The program on answers that are always in time. -/
def patient : TimedProg α → Prog α
  | ret a => .ret a
  | send b k => .send b k.patient
  | recv k => .recv fun b => (k (some b)).patient

theorem patient_bind (p : TimedProg α) (f : α → TimedProg β) :
    (p >>= f).patient = p.patient >>= fun a => (f a).patient := by
  induction p with
  | ret a => rfl
  | send b k ih => exact congrArg (Prog.send b) ih
  | recv k ih => exact congrArg Prog.recv (funext fun b => ih (some b))

theorem patient_sendAll (data : List UInt8) : (sendAll data).patient = Prog.sendAll data := by
  induction data with
  | nil => rfl
  | cons b rest ih => exact congrArg (Prog.send b) ih

theorem patient_recvUpTo (n : Nat) : (recvUpTo n).patient = Prog.recvAll n := by
  induction n with
  | zero => rfl
  | succ n ih =>
      refine congrArg Prog.recv (funext fun b => ?_)
      rw [patient_bind, ih]
      rfl

theorem eq_ret_of_patient {p : TimedProg α} {a : α} (h : p.patient = .ret a) : p = .ret a := by
  cases p with
  | ret a' => exact congrArg ret (Prog.ret.inj h)
  | send b k => cases h
  | recv k => cases h

end TimedProg

/-! ## What a device has heard -/

/-- Wherever the program ends, it ends with `P`. -/
def Prog.Ends {α : Type} (P : α → Prop) : Prog α → Prop
  | .ret a => P a
  | .recv k => ∀ b, (k b).Ends P
  | .send _ k => k.Ends P

theorem Prog.ends_bind {α β : Type} {P : β → Prop} {f : α → Prog β} (hf : ∀ a, (f a).Ends P) (p : Prog α) :
    (p >>= f).Ends P := by
  induction p with
  | ret a => exact hf a
  | recv k ih => exact ih
  | send b k ih => exact ih

/-- A device that starts over as `body` says consumes `heard` on its way from one place to the other. -/
inductive Hears {σ : Type} (body : σ → Prog σ) : Prog σ → List UInt8 → Prog σ → Prop where
  | refl (p : Prog σ) : Hears body p [] p
  | recv {k : UInt8 → Prog σ} {b : UInt8} {heard : List UInt8} {q : Prog σ} (h : Hears body (k b) heard q) :
      Hears body (.recv k) (b :: heard) q
  | send {k : Prog σ} {b : UInt8} {heard : List UInt8} {q : Prog σ} (h : Hears body k heard q) :
      Hears body (.send b k) heard q
  | again {s : σ} {heard : List UInt8} {q : Prog σ} (h : Hears body (body s) heard q) :
      Hears body (.ret s) heard q

namespace Hears

variable {σ : Type} {body : σ → Prog σ}

theorem trans {p q r : Prog σ} {heard heard' : List UInt8} (h : Hears body p heard q)
    (h' : Hears body q heard' r) : Hears body p (heard ++ heard') r := by
  induction h with
  | refl p => exact h'
  | recv h ih => exact .recv (ih h')
  | send h ih => exact .send (ih h')
  | again h ih => exact .again (ih h')

/-- A device that is between two rounds has not yet finished the request in front of it, or has served it. -/
theorem behind_request {p : Prog σ} {request reply rest : List UInt8} {s s' : σ}
    (hruns : Prog.Runs p request reply s') :
    ∀ {heard : List UInt8}, Hears body p heard (.ret s) → heard <+: request ++ rest →
      (heard = request ∧ s = s') ∨
        ∃ more, heard = request ++ more ∧ Hears body (body s') more (.ret s) := by
  induction hruns with
  | ret a =>
      intro heard h _
      cases h with
      | refl => exact .inl ⟨rfl, rfl⟩
      | again h => exact .inr ⟨heard, rfl, h⟩
  | @recv k b ins outs a hk ih =>
      intro heard h hpart
      cases h with
      | @recv _ b' heard _ h =>
          rw [List.cons_append] at hpart
          obtain ⟨rfl, hrest⟩ := List.cons_prefix_cons.mp hpart
          rcases ih h hrest with ⟨rfl, rfl⟩ | ⟨more, rfl, hmore⟩
          · exact .inl ⟨rfl, rfl⟩
          · exact .inr ⟨more, rfl, hmore⟩
  | send hk ih =>
      intro heard h hpart
      cases h with
      | send h => exact ih h hpart

/-- Whatever is heard, a device that starts over with `P` at its end ends with `P`. -/
theorem ends {P : σ → Prop} (hbody : ∀ s, P s → (body s).Ends P) {p q : Prog σ} {heard : List UInt8}
    (h : Hears body p heard q) (hp : p.Ends P) : q.Ends P := by
  induction h with
  | refl p => exact hp
  | @recv k b heard q h ih => exact ih (hp b)
  | send h ih => exact ih hp
  | again h ih => exact ih (hbody _ hp)

section Requests

variable {ρ : Type} {bytes : ρ → List UInt8} {serve : ρ → σ → σ}

/-- Each request finds the device ready to serve it. -/
inductive Serves (body : σ → Prog σ) (bytes : ρ → List UInt8) (serve : ρ → σ → σ) : σ → List ρ → Prop where
  | nil (s : σ) : Serves body bytes serve s []
  | cons {s : σ} {request : ρ} {rest : List ρ} {reply : List UInt8}
      (h : Prog.Runs (body s) (bytes request) reply (serve request s))
      (t : Serves body bytes serve (serve request s) rest) : Serves body bytes serve s (request :: rest)

/-- **Between two rounds a device has served some of the requests**, or all of them and part of the rest. -/
theorem behind_requests {requests : List ρ} {s : σ} (hserves : Serves body bytes serve s requests) :
    ∀ {heard rest : List UInt8} {s' : σ}, Hears body (body s) heard (.ret s') →
      heard <+: requests.flatMap bytes ++ rest →
      (∃ served more, requests = served ++ more ∧ s' = served.foldl (fun s r => serve r s) s) ∨
        ∃ more, more <+: rest ∧ Hears body (body (requests.foldl (fun s r => serve r s) s)) more (.ret s') := by
  induction hserves with
  | nil s =>
      intro heard rest s' h hpart
      exact .inr ⟨heard, hpart, h⟩
  | @cons s request requests reply hruns _ ih =>
      intro heard rest s' h hpart
      rw [List.flatMap_cons, List.append_assoc] at hpart
      rcases behind_request hruns h hpart with ⟨-, rfl⟩ | ⟨more, rfl, hmore⟩
      · exact .inl ⟨[request], requests, rfl, rfl⟩
      · rcases ih hmore ((List.prefix_append_right_inj _).mp hpart) with ⟨served, left, rfl, rfl⟩ | hall
        · exact .inl ⟨request :: served, left, rfl, rfl⟩
        · exact .inr hall

theorem Serves.append {first second : List ρ} {s : σ} (h : Serves body bytes serve s first)
    (h' : Serves body bytes serve (first.foldl (fun s r => serve r s) s) second) :
    Serves body bytes serve s (first ++ second) := by
  induction h with
  | nil s => exact h'
  | cons hruns _ ih => exact .cons hruns (ih h')

end Requests

end Hears

/-! ## The two-party system -/

/-- A host and a device at the ends of a link; `toDevice` and `toHost` are the bytes in flight. -/
structure TimedLink (α σ : Type) where
  host : TimedProg α
  device : Prog σ
  toDevice : List UInt8
  toHost : List UInt8

namespace TimedLink

variable {α σ : Type}

/-- One move of either side. The time of a reception may run out at any moment. -/
inductive Step (next : α → Option (TimedProg α)) (body : σ → Prog σ) : TimedLink α σ → TimedLink α σ → Prop where
  | send (b : UInt8) (k : TimedProg α) (device : Prog σ) (toDevice toHost : List UInt8) :
      Step next body ⟨.send b k, device, toDevice, toHost⟩ ⟨k, device, toDevice ++ [b], toHost⟩
  | receive (b : UInt8) (k : Option UInt8 → TimedProg α) (device : Prog σ) (toDevice toHost : List UInt8) :
      Step next body ⟨.recv k, device, toDevice, b :: toHost⟩ ⟨k (some b), device, toDevice, toHost⟩
  | timeOut (k : Option UInt8 → TimedProg α) (device : Prog σ) (toDevice toHost : List UInt8) :
      Step next body ⟨.recv k, device, toDevice, toHost⟩ ⟨k none, device, toDevice, toHost⟩
  | next {a : α} {p : TimedProg α} (h : next a = some p) (device : Prog σ) (toDevice toHost : List UInt8) :
      Step next body ⟨.ret a, device, toDevice, toHost⟩ ⟨p, device, toDevice, toHost⟩
  | deviceSend (host : TimedProg α) (b : UInt8) (k : Prog σ) (toDevice toHost : List UInt8) :
      Step next body ⟨host, .send b k, toDevice, toHost⟩ ⟨host, k, toDevice, toHost ++ [b]⟩
  | deviceReceive (host : TimedProg α) (b : UInt8) (k : UInt8 → Prog σ) (toDevice toHost : List UInt8) :
      Step next body ⟨host, .recv k, b :: toDevice, toHost⟩ ⟨host, k b, toDevice, toHost⟩
  | deviceAgain (host : TimedProg α) (s : σ) (toDevice toHost : List UInt8) :
      Step next body ⟨host, .ret s, toDevice, toHost⟩ ⟨host, body s, toDevice, toHost⟩

/-- The reflexive and transitive closure of `Step`: any interleaving, with any receptions out of time. -/
abbrev Reaches (next : α → Option (TimedProg α)) (body : σ → Prog σ) : TimedLink α σ → TimedLink α σ → Prop :=
  Relation.ReflTransGen (Step next body)

variable {next : α → Option (TimedProg α)} {body : σ → Prog σ}

/-- What the host has sent is what the device has heard and what is in flight. -/
def Delivers (ok : List UInt8 → Prop) (post : List UInt8 → α → Prop) (body : σ → Prog σ) (start : Prog σ)
    (c : TimedLink α σ) : Prop :=
  ∃ heard, ok (heard ++ c.toDevice) ∧ TimedProg.Speaks ok post c.host (heard ++ c.toDevice) ∧
    Hears body start heard c.device

theorem Delivers.step {ok : List UInt8 → Prop} {post : List UInt8 → α → Prop} {start : Prog σ}
    (hnext : ∀ sent a p, post sent a → next a = some p → TimedProg.Speaks ok post p sent) {c c' : TimedLink α σ}
    (h : Delivers ok post body start c) (hstep : Step next body c c') : Delivers ok post body start c' := by
  obtain ⟨heard, hok, hspeaks, hhears⟩ := h
  cases hstep with
  | send b k device toDevice toHost =>
      refine ⟨heard, ?_⟩
      rw [← List.append_assoc]
      exact ⟨hspeaks.1, hspeaks.2, hhears⟩
  | receive b k device toDevice toHost => exact ⟨heard, hok, hspeaks (some b), hhears⟩
  | timeOut k device toDevice toHost => exact ⟨heard, hok, hspeaks none, hhears⟩
  | next ha device toDevice toHost => exact ⟨heard, hok, hnext _ _ _ hspeaks ha, hhears⟩
  | deviceSend host b k toDevice toHost =>
      have hsend := hhears.trans (.send (.refl k))
      rw [List.append_nil] at hsend
      exact ⟨heard, hok, hspeaks, hsend⟩
  | deviceReceive host b k toDevice toHost =>
      refine ⟨heard ++ [b], ?_, ?_, hhears.trans (.recv (.refl _))⟩
      · rwa [List.append_assoc]
      · rwa [List.append_assoc]
  | deviceAgain host s toDevice toHost =>
      have hagain := hhears.trans (.again (.refl (body s)))
      rw [List.append_nil] at hagain
      exact ⟨heard, hok, hspeaks, hagain⟩

/-- **The device hears what the host may send.** In every run, also with receptions out of time, the device
    has gone through a beginning of a byte string of which `ok` holds. -/
theorem Reaches.hears {ok : List UInt8 → Prop} {post : List UInt8 → α → Prop}
    (hnext : ∀ sent a p, post sent a → next a = some p → TimedProg.Speaks ok post p sent)
    {host : TimedProg α} {device : Prog σ} {c : TimedLink α σ} (hok : ok [])
    (hspeaks : TimedProg.Speaks ok post host []) (h : Reaches next body ⟨host, device, [], []⟩ c) :
    ∃ heard, ok (heard ++ c.toDevice) ∧ Hears body device heard c.device := by
  have hdelivers : Delivers ok post body device c := by
    induction h with
    | refl => exact ⟨[], hok, hspeaks, .refl device⟩
    | tail _ hstep ih => exact ih.step hnext hstep
  obtain ⟨heard, hok, -, hhears⟩ := hdelivers
  exact ⟨heard, hok, hhears⟩

/-- A schedule in which no reception is out of time. -/
theorem reaches_of_patient {c : Config α σ} {p : TimedProg α} {device : Prog σ} {toDevice toHost : List UInt8}
    (h : Config.Reaches body ⟨p.patient, device, toDevice, toHost⟩ c) :
    ∃ p', c.host = p'.patient ∧
      Reaches next body ⟨p, device, toDevice, toHost⟩ ⟨p', c.device, c.toDevice, c.toHost⟩ := by
  induction h with
  | refl => exact ⟨p, rfl, .refl⟩
  | @tail c₁ c₂ _ hstep ih =>
      obtain ⟨p', hhost, hreaches⟩ := ih
      obtain ⟨host, device₁, toDevice₁, toHost₁⟩ := c₁
      rw [show host = p'.patient from hhost] at hstep
      rcases hstep with hhostStep | hdeviceStep
      · cases p' with
        | ret a => cases hhostStep
        | send b k =>
            cases hhostStep
            exact ⟨k, rfl, hreaches.tail (.send b k _ _ _)⟩
        | recv k =>
            cases toHost₁ with
            | nil => cases hhostStep
            | cons b rest =>
                cases hhostStep
                exact ⟨k (some b), rfl, hreaches.tail (.receive b k _ _ _)⟩
      · cases device₁ with
        | ret s =>
            cases hdeviceStep
            exact ⟨p', rfl, hreaches.tail (.deviceAgain _ _ _ _)⟩
        | send b k =>
            cases hdeviceStep
            exact ⟨p', rfl, hreaches.tail (.deviceSend _ _ _ _ _)⟩
        | recv k =>
            cases toDevice₁ with
            | nil => cases hdeviceStep
            | cons b rest =>
                cases hdeviceStep
                exact ⟨p', rfl, hreaches.tail (.deviceReceive _ _ _ _ _)⟩

/-! ## One schedule -/

/-- Which side moves, or that the time of a reception runs out. -/
inductive Move where
  | host
  | timeOut
  | device
  deriving DecidableEq

def move (next : α → Option (TimedProg α)) (body : σ → Prog σ) (m : Move) (c : TimedLink α σ) :
    Option (TimedLink α σ) :=
  match m, c with
  | .host, ⟨.send b k, device, toDevice, toHost⟩ => some ⟨k, device, toDevice ++ [b], toHost⟩
  | .host, ⟨.recv k, device, toDevice, b :: toHost⟩ => some ⟨k (some b), device, toDevice, toHost⟩
  | .host, ⟨.ret a, device, toDevice, toHost⟩ => (next a).map fun p => ⟨p, device, toDevice, toHost⟩
  | .timeOut, ⟨.recv k, device, toDevice, toHost⟩ => some ⟨k none, device, toDevice, toHost⟩
  | .device, ⟨host, .send b k, toDevice, toHost⟩ => some ⟨host, k, toDevice, toHost ++ [b]⟩
  | .device, ⟨host, .recv k, b :: toDevice, toHost⟩ => some ⟨host, k b, toDevice, toHost⟩
  | .device, ⟨host, .ret s, toDevice, toHost⟩ => some ⟨host, body s, toDevice, toHost⟩
  | _, _ => none

theorem step_of_move {m : Move} {c c' : TimedLink α σ} (h : move next body m c = some c') : Step next body c c' := by
  unfold move at h
  split at h
  · exact Option.some.inj h ▸ .send _ _ _ _ _
  · exact Option.some.inj h ▸ .receive _ _ _ _ _
  · obtain ⟨p, hp, rfl⟩ := Option.map_eq_some_iff.mp h
    exact .next hp _ _ _
  · exact Option.some.inj h ▸ .timeOut _ _ _ _
  · exact Option.some.inj h ▸ .deviceSend _ _ _ _ _
  · exact Option.some.inj h ▸ .deviceReceive _ _ _ _ _
  · exact Option.some.inj h ▸ .deviceAgain _ _ _ _
  · cases h

/-- A schedule is a run. -/
theorem reaches_of_run (moves : List Move) {c c' : TimedLink α σ} (h : run (move next body) moves c = some c') :
    Reaches next body c c' := by
  induction moves generalizing c with
  | nil => exact Option.some.inj h ▸ .refl
  | cons m moves ih =>
      obtain ⟨c₁, hmove, hrest⟩ := Option.bind_eq_some_iff.mp h
      exact .head (step_of_move hmove) (ih hrest)

end TimedLink

end Pmb887x.Library
