import Pmb887x.ChaosBoot.Requests

set_option autoImplicit false

/-! # Sessions in which receptions run out of time

An answer that is late is taken for the answer to a later request, and the client may repeat what has been
served. The boot loader gets whole requests in their order all the same: a block is written before the next
one is sent, writing it again changes nothing, and the jump is behind all of them. So a program is called
with all that was to be loaded (`client_calls_loaded`), whatever the client makes of its answers. -/

namespace Pmb887x.ChaosBoot

open Library

/-! ## Strings of requests -/

section Sendable

variable (phone : Phone) (d₀ : Device)

/-- The device behind the requests. -/
def after (requests : List Request) : Device := requests.foldl (fun d r => r.serve phone d) d₀

/-- Every request finds the device ready. -/
inductive Legal : List Request → Prop where
  | nil : Legal []
  | snoc {requests : List Request} {r : Request} (h : Legal requests) (hready : r.Ready (after phone d₀ requests)) :
      Legal (requests ++ [r])

/-- What the client has sent may be a beginning of a legal string that does not call a program, or begin with
    one that calls the right program with the right memory. -/
def Sendable (target : Option (Nat × Memory)) (sent : List UInt8) : Prop :=
  ∃ requests tail, Legal phone d₀ requests ∧ sent <+: requests.flatMap Request.bytes ++ tail ∧
    ((tail = [] ∧ ∀ a, (after phone d₀ requests).control ≠ .called a) ∨
      ∃ entry memory, target = some (entry, memory) ∧ (after phone d₀ requests).control = .called entry ∧
        (after phone d₀ requests).memory = memory)

/-- Exactly the requests of a legal string have been sent, and the device behind them is as `P` says. -/
def At (P : Device → Prop) (sent : List UInt8) : Prop :=
  ∃ requests, Legal phone d₀ requests ∧ sent = requests.flatMap Request.bytes ∧ P (after phone d₀ requests)

end Sendable

section

variable {phone : Phone} {d₀ : Device}

theorem after_snoc (requests : List Request) (r : Request) :
    after phone d₀ (requests ++ [r]) = r.serve phone (after phone d₀ requests) := by
  rw [after, List.foldl_append]
  rfl

theorem Request.Ready.not_called {d : Device} {r : Request} (h : r.Ready d) (a : Nat) : d.control ≠ .called a := by
  intro hcalled
  cases r with
  | start => exact absurd (hcalled.symm.trans h) nofun
  | confirmSpeed => exact absurd (hcalled.symm.trans h) nofun
  | read addr size => exact absurd (hcalled.symm.trans h.1) nofun
  | write addr tmp => exact absurd (hcalled.symm.trans h.1) nofun
  | ping => exact absurd (hcalled.symm.trans h) nofun
  | keepAlive => exact absurd (hcalled.symm.trans h) nofun
  | setSpeed code => exact absurd (hcalled.symm.trans h) nofun
  | info => exact absurd (hcalled.symm.trans h) nofun
  | goto addr => exact absurd (hcalled.symm.trans h) nofun

theorem Legal.serves {requests : List Request} (h : Legal phone d₀ requests) :
    Hears.Serves (bootRound phone) Request.bytes (fun r d => r.serve phone d) d₀ requests := by
  induction h with
  | nil => exact .nil d₀
  | snoc _ hready ih => exact ih.append (.cons (runs_request hready) (.nil _))

/-- In front of a request no program has been called. -/
theorem Legal.not_called {requests : List Request} (h : Legal phone d₀ requests) :
    ∀ {served more : List Request} {a : Nat}, requests = served ++ more → more ≠ [] →
      (after phone d₀ served).control ≠ .called a := by
  induction h with
  | nil =>
      intro served more a heq hmore
      exact absurd (List.append_eq_nil_iff.mp heq.symm).2 hmore
  | @snoc requests r _ hready ih =>
      intro served more a heq hmore
      obtain ⟨front, last, rfl⟩ := List.eq_nil_or_concat more |>.resolve_left hmore
      rw [List.concat_eq_append, ← List.append_assoc] at heq
      obtain ⟨rfl, -⟩ := List.append_inj' heq rfl
      by_cases hfront : front = []
      · rw [hfront, List.append_nil] at hready
        exact hready.not_called a
      · exact ih rfl hfront

theorem bootRound_of_called {d : Device} {a : Nat} (h : d.control = .called a) :
    bootRound phone d = (phone.program a >>= fun _ => Prog.ret d) := by
  rw [bootRound, h]
  rfl

/-- A called program keeps the device. -/
theorem eq_of_called {d d' : Device} {a : Nat} {heard : List UInt8} (hcalled : d.control = .called a)
    (h : Hears (bootRound phone) (bootRound phone d) heard (.ret d')) : d' = d := by
  have hround : ∀ s, s = d → (bootRound phone s).Ends (fun s => s = d) := by
    intro s hs
    rw [bootRound_of_called (hs ▸ hcalled)]
    exact Prog.ends_bind (P := fun s => s = d) (f := fun _ => Prog.ret s) (fun _ => hs) _
  exact h.ends hround (hround d rfl)

/-- A device that waits for a request is not between two rounds. -/
theorem not_hears_nil {d d' : Device} (hcalled : ∀ a, d.control ≠ .called a) :
    ¬ Hears (bootRound phone) (bootRound phone d) [] (.ret d') := by
  have hrecv : ∃ k, bootRound phone d = .recv k := by
    cases hcontrol : d.control with
    | startwait =>
        rw [bootRound, hcontrol]
        exact ⟨_, rfl⟩
    | mainLoop =>
        rw [bootRound, hcontrol]
        exact ⟨_, rfl⟩
    | awaitPing =>
        rw [bootRound, hcontrol]
        exact ⟨_, rfl⟩
    | called a => exact absurd hcontrol (hcalled a)
  obtain ⟨k, hk⟩ := hrecv
  rw [hk]
  intro h
  cases h

/-- **Only the right program is called.** -/
theorem Sendable.called {target : Option (Nat × Memory)} {sent heard : List UInt8} {d : Device} {a : Nat}
    (h : Sendable phone d₀ target sent) (hpart : heard <+: sent)
    (hhears : Hears (bootRound phone) (bootRound phone d₀) heard (.ret d)) (hcalled : d.control = .called a) :
    target = some (a, d.memory) := by
  obtain ⟨requests, tail, hlegal, hsent, hend⟩ := h
  rcases Hears.behind_requests hlegal.serves hhears (hpart.trans hsent) with
    ⟨served, more, heq, hd⟩ | ⟨more, hmore, hlast⟩
  · -- `d` is the device behind some of the requests, and only behind all of them can a program be called
    have hserved : d = after phone d₀ served := hd
    by_cases hall : more = []
    · rw [hall, List.append_nil] at heq
      rw [hserved, ← heq] at hcalled ⊢
      rcases hend with ⟨-, hnot⟩ | ⟨entry, memory, htarget, hentry, hmemory⟩
      · exact absurd hcalled (hnot a)
      · have hsame : Control.called entry = .called a := hentry.symm.trans hcalled
        rw [htarget, hmemory, Control.called.inj hsame]
    · rw [hserved] at hcalled
      exact absurd hcalled (hlegal.not_called heq hall)
  · rcases hend with ⟨rfl, hnot⟩ | ⟨entry, memory, htarget, hentry, hmemory⟩
    · rw [List.prefix_nil.mp hmore] at hlast
      exact absurd hlast (not_hears_nil hnot)
    · have hsame : d = after phone d₀ requests := eq_of_called hentry hlast
      rw [hsame] at hcalled ⊢
      rw [htarget, hmemory, Control.called.inj (hentry.symm.trans hcalled)]

end

/-! ## What a host may send -/

section Triples

variable (phone : Phone) (d₀ : Device) (target : Option (Nat × Memory))

/-- From where the device is as `P` says the host sends legal requests, for all answers, and the device is as
    `Q` says where the host goes on. -/
def Triple {α : Type} (P : Device → Prop) (p : Host α) (Q : α → Device → Prop) : Prop :=
  ∀ sent, At phone d₀ P sent →
    TimedProg.Speaks (Sendable phone d₀ target) (fun sent r => ∀ a, r = .ok a → At phone d₀ (Q a) sent) p.run sent

end Triples

namespace Triple

variable {phone : Phone} {d₀ : Device} {target : Option (Nat × Memory)} {α β : Type} {P : Device → Prop}

theorem pure {Q : α → Device → Prop} (a : α) (h : ∀ d, P d → Q a d) :
    Triple phone d₀ target P (pure a : Host α) Q := by
  rintro sent ⟨requests, hlegal, hsent, hP⟩ a' ha'
  obtain rfl := Except.ok.inj ha'
  exact ⟨requests, hlegal, hsent, h _ hP⟩

theorem throw {Q : α → Device → Prop} (e : Exit) : Triple phone d₀ target P (throw e : Host α) Q := by
  intro sent _ a ha
  cases ha

theorem bind {mid : α → Device → Prop} {Q : β → Device → Prop} {p : Host α} {f : α → Host β}
    (hp : Triple phone d₀ target P p mid) (hf : ∀ a, Triple phone d₀ target (mid a) (f a) Q) :
    Triple phone d₀ target P (p >>= f) Q := by
  intro sent hsent
  rw [ExceptT.run_bind]
  refine (hp sent hsent).bind fun sent r hr => ?_
  cases r with
  | ok a => exact hf a sent (hr a rfl)
  | error e =>
      intro b hb
      cases hb

theorem mono {P' : Device → Prop} {Q Q' : α → Device → Prop} {p : Host α} (h : Triple phone d₀ target P p Q)
    (hP : ∀ d, P' d → P d) (hQ : ∀ a d, Q a d → Q' a d) : Triple phone d₀ target P' p Q' := by
  rintro sent ⟨requests, hlegal, hsent, hP'⟩
  have hspeaks := h sent ⟨requests, hlegal, hsent, hP _ hP'⟩
  rw [← bind_pure p.run]
  refine hspeaks.bind fun sent r hr => ?_
  intro a ha
  obtain ⟨requests, hlegal, hsent, hQa⟩ := hr a ha
  exact ⟨requests, hlegal, hsent, hQ a _ hQa⟩

/-- A reception sends nothing. -/
theorem portRead (wanted : Nat) : Triple phone d₀ target P (portRead wanted) fun _ => P := by
  intro sent hsent
  have hread : TimedProg.Speaks (Sendable phone d₀ target) (fun sent _ => At phone d₀ P sent)
      (TimedProg.recvUpTo wanted) sent := TimedProg.speaks_recvUpTo wanted fun _ => hsent
  rw [ChaosBoot.portRead, ExceptT.run_lift]
  refine hread.bind fun sent data hat => ?_
  intro a _
  exact hat

theorem readb : Triple phone d₀ target P readb fun _ => P := by
  intro sent hsent r a _
  exact hsent

/-- **A request is sent where the device is ready for it.** -/
theorem request {Q : Device → Prop} (r : Request) (hready : ∀ d, P d → r.Ready d ∧ Q (r.serve phone d))
    (hQ : ∀ d, Q d → ∀ a, d.control ≠ .called a) :
    Triple phone d₀ target P (portWrite r.bytes) fun _ => Q := by
  rintro sent ⟨requests, hlegal, rfl, hP⟩
  obtain ⟨hr, hserved⟩ := hready _ hP
  rw [← after_snoc] at hserved
  have hbytes : (requests ++ [r]).flatMap Request.bytes = requests.flatMap Request.bytes ++ r.bytes := by
    rw [List.flatMap_append, List.flatMap_singleton]
  rw [portWrite, ExceptT.run_lift, map_eq_pure_bind]
  suffices hsend : TimedProg.Speaks (Sendable phone d₀ target) (fun sent _ => At phone d₀ Q sent)
      (TimedProg.sendAll r.bytes) (requests.flatMap Request.bytes) by
    refine hsend.bind fun sent _ hat => ?_
    intro a _
    exact hat
  refine TimedProg.speaks_sendAll _ (fun part hpart => ?_) ⟨_, hlegal.snoc hr, hbytes.symm, hserved⟩
  refine ⟨_, [], hlegal.snoc hr, ?_, .inl ⟨rfl, hQ _ hserved⟩⟩
  rw [List.append_nil, hbytes]
  exact (List.prefix_append_right_inj _).mpr hpart

end Triple

/-! ## Programs that apply a function to the memory -/

/-- In front of `main_loop` and back there, the memory has become `F memory`. -/
def Applies (phone : Phone) (d₀ : Device) (target : Option (Nat × Memory)) {α : Type} (F : Memory → Memory)
    (p : Host α) : Prop :=
  ∀ R : Memory → Prop, Triple phone d₀ target (fun d => d.control = .mainLoop ∧ R (F d.memory)) p
    fun _ d => d.control = .mainLoop ∧ R d.memory

section

variable {phone : Phone} {d₀ : Device} {target : Option (Nat × Memory)} {α β : Type}

theorem not_called_of_mainLoop {d : Device} {φ : Prop} (h : d.control = .mainLoop ∧ φ) (a : Nat) :
    d.control ≠ .called a := by
  rw [h.1]
  nofun

namespace Applies

theorem pure (a : α) : Applies phone d₀ target id (pure a : Host α) := fun _ => Triple.pure a fun _ h => h

theorem throw (F : Memory → Memory) (e : Exit) : Applies phone d₀ target F (throw e : Host α) := fun _ =>
  Triple.throw e

theorem bind {F G : Memory → Memory} {p : Host α} {f : α → Host β} (hp : Applies phone d₀ target F p)
    (hf : ∀ a, Applies phone d₀ target G (f a)) : Applies phone d₀ target (G ∘ F) (p >>= f) := fun R =>
  (hp (R ∘ G)).bind fun a => hf a R

theorem bind_left {F : Memory → Memory} {p : Host α} {f : α → Host β} (hp : Applies phone d₀ target F p)
    (hf : ∀ a, Applies phone d₀ target id (f a)) : Applies phone d₀ target F (p >>= f) := hp.bind hf

theorem bind_right {F : Memory → Memory} {p : Host α} {f : α → Host β} (hp : Applies phone d₀ target id p)
    (hf : ∀ a, Applies phone d₀ target F (f a)) : Applies phone d₀ target F (p >>= f) := hp.bind hf

theorem readb : Applies phone d₀ target id readb := fun _ => Triple.readb

theorem portRead (wanted : Nat) : Applies phone d₀ target id (portRead wanted) := fun _ => Triple.portRead wanted

/-- A request that leaves `main_loop` waiting. -/
theorem request {F : Memory → Memory} (r : Request)
    (hready : ∀ d, d.control = .mainLoop → r.Ready d ∧ r.serve phone d = { d with memory := F d.memory }) :
    Applies phone d₀ target F (portWrite r.bytes) := by
  intro R
  refine Triple.request r (fun d hd => ?_) fun d hd => not_called_of_mainLoop hd
  obtain ⟨hcontrol, hR⟩ := hd
  obtain ⟨hr, hserve⟩ := hready d hcontrol
  rw [hserve]
  exact ⟨hr, hcontrol, hR⟩

theorem forM {F : α → Memory → Memory} {f : α → Host Unit} {xs : List α}
    (hf : ∀ x ∈ xs, Applies phone d₀ target (F x) (f x)) :
    Applies phone d₀ target (fun memory => xs.foldl (fun memory x => F x memory) memory) (xs.forM f) := by
  induction xs with
  | nil => exact Applies.pure ()
  | cons x rest ih =>
      exact (hf x List.mem_cons_self).bind fun _ => ih fun y hy => hf y (List.mem_cons_of_mem x hy)

theorem mapM {F : α → Memory → Memory} {f : α → Host β} {xs : List α}
    (hf : ∀ x ∈ xs, Applies phone d₀ target (F x) (f x)) :
    Applies phone d₀ target (fun memory => xs.foldl (fun memory x => F x memory) memory) (xs.mapM f) := by
  induction xs with
  | nil => exact Applies.pure []
  | cons x rest ih =>
      have hrest (y : β) : Applies phone d₀ target (fun memory => rest.foldl (fun memory x => F x memory) memory)
          (rest.mapM f >>= fun ys => Pure.pure (y :: ys)) :=
        (ih fun y hy => hf y (List.mem_cons_of_mem x hy)).bind fun ys => Applies.pure (y :: ys)
      rw [List.mapM_cons]
      exact (hf x List.mem_cons_self).bind hrest

theorem mono_pre {F : Memory → Memory} {p : Host α} (h : Applies phone d₀ target F p) (R : Memory → Prop)
    {P : Device → Prop} (hP : ∀ d, P d → d.control = .mainLoop ∧ R (F d.memory)) :
    Triple phone d₀ target P p fun _ d => d.control = .mainLoop ∧ R d.memory :=
  (h R).mono hP fun _ _ h => h

/-- A function for each element that changes nothing. -/
theorem foldl_id (xs : List α) : (fun memory : Memory => xs.foldl (fun memory _ => memory) memory) = id := by
  funext memory
  induction xs with
  | nil => rfl
  | cons x rest ih => exact ih

end Applies

/-! ## The functions of the client -/

theorem applies_chaosPing : Applies phone d₀ target id chaosPing :=
  (Applies.request .ping fun _ h => ⟨h, rfl⟩).bind fun _ => Applies.readb.bind fun _ => .pure _

theorem applies_chaosKeepAlive : Applies phone d₀ target id chaosKeepAlive :=
  Applies.request .keepAlive fun _ h => ⟨h, rfl⟩

theorem applies_chaosReadInfo : Applies phone d₀ target id chaosReadInfo :=
  (Applies.request .info fun _ h => ⟨h, rfl⟩).bind fun _ => (Applies.portRead infoSize).bind fun _ => .pure _

/-- The speed is set in two requests; if that fails the device may still wait for the second. -/
theorem triple_chaosSetSpeed (speed : Nat) (R : Memory → Prop) :
    Triple phone d₀ target (fun d => d.control = .mainLoop ∧ R d.memory) (chaosSetSpeed speed)
      fun ok d => ok = true → d.control = .mainLoop ∧ R d.memory := by
  rw [chaosSetSpeed]
  cases chaosSpeeds.lookup speed with
  | none => exact Triple.pure false fun _ _ => nofun
  | some code =>
      have hset : Triple phone d₀ target (fun d => d.control = .mainLoop ∧ R d.memory)
          (portWrite [speedLetter, code]) fun _ d => d.control = .awaitPing ∧ R d.memory := by
        refine Triple.request (.setSpeed code) (fun d hd => ⟨hd.1, rfl, hd.2⟩) fun d hd a => ?_
        rw [hd.1]
        nofun
      have hconfirm : Triple phone d₀ target (fun d => d.control = .awaitPing ∧ R d.memory)
          (portWrite [pingLetter]) fun _ d => d.control = .mainLoop ∧ R d.memory :=
        Triple.request .confirmSpeed (fun d hd => ⟨hd.1, rfl, hd.2⟩) fun d hd => not_called_of_mainLoop hd
      refine hset.bind fun _ => Triple.readb.bind fun c => ?_
      by_cases hc : c = some 0x68
      · rw [if_pos hc]
        exact hconfirm.bind fun _ => Triple.readb.bind fun _ => Triple.pure _ fun _ h _ => h
      · rw [if_neg hc]
        exact Triple.pure false fun _ _ => nofun

theorem applies_readOnce (addr : Nat) {size : Nat} (hpos : 0 < size) (hlt : size < 2 ^ 32) :
    Applies phone d₀ target id (readOnce (readRequest addr size) size) :=
  (Applies.request (.read addr size) fun _ h => ⟨⟨h, hpos, hlt⟩, rfl⟩).bind fun _ =>
    (Applies.portRead (size + 4)).bind fun _ => .pure _

/-- However often the block is asked for. -/
theorem applies_readBlock (addr : Nat) {size : Nat} (hpos : 0 < size) (hlt : size < 2 ^ 32) (tries : Nat) :
    Applies phone d₀ target id (readBlock (readRequest addr size) size tries) := by
  induction tries with
  | zero =>
      rw [readBlock]
      refine (applies_readOnce addr hpos hlt).bind_right fun answer => ?_
      cases answer with
      | none => exact .throw id .one
      | some data => exact .pure data
  | succ tries ih =>
      rw [readBlock]
      refine (applies_readOnce addr hpos hlt).bind_right fun answer => ?_
      cases answer with
      | some data => exact .pure data
      | none =>
          refine applies_chaosPing.bind_right fun pong => ?_
          cases pong with
          | true => exact ih
          | false => exact .throw id .one

theorem applies_chaosReadRam (addr size : Nat) {chunk : Nat} (hpos : 0 < chunk) (hlt : chunk < 2 ^ 32) :
    Applies phone d₀ target id (chaosReadRam addr size chunk) := by
  have hparts : Applies phone d₀ target id
      ((cut size chunk).mapM fun block => readBlock (readRequest (addr + block.1) block.2) block.2 10) := by
    rw [← Applies.foldl_id (cut size chunk)]
    refine Applies.mapM fun block hblock => ?_
    obtain ⟨hsize, hle⟩ := mem_cut hpos hblock
    exact applies_readBlock _ hsize (Nat.lt_of_le_of_lt hle hlt) 10
  exact hparts.bind fun parts => .pure parts.flatten

/-- **A block that is sent again changes nothing.** -/
theorem applies_writeBlock (addr : Nat) {tmp : List UInt8} (hne : tmp ≠ []) (hlt : tmp.length < 2 ^ 32)
    (tries : Nat) :
    Applies phone d₀ target (fun memory => memory.writeBytes addr 0 tmp)
      (writeBlock (writeRequest addr tmp) tries) := by
  have honce : Applies phone d₀ target (fun memory => memory.writeBytes addr 0 tmp)
      (writeOnce (writeRequest addr tmp)) :=
    (Applies.request (.write addr tmp) fun _ h => ⟨⟨h, hne, hlt⟩, rfl⟩).bind fun _ =>
      (Applies.portRead 2).bind fun _ => .pure _
  induction tries with
  | zero =>
      rw [writeBlock]
      refine honce.bind_left fun ok => ?_
      cases ok with
      | true => exact .pure ()
      | false => exact .throw id .one
  | succ tries ih =>
      intro R
      -- the block is in the memory, so that `R` also holds of what writing it again gives
      have hwritten : Triple phone d₀ target
          (fun d => d.control = .mainLoop ∧ R (d.memory.writeBytes addr 0 tmp)) (writeOnce (writeRequest addr tmp))
          fun _ d => d.control = .mainLoop ∧ R d.memory ∧ R (d.memory.writeBytes addr 0 tmp) := by
        refine (honce fun memory => R memory ∧ R (memory.writeBytes addr 0 tmp)).mono (fun d hd => ?_) fun _ _ h => h
        rw [Memory.writeBytes_writeBytes]
        exact ⟨hd.1, hd.2, hd.2⟩
      refine hwritten.bind fun ok => ?_
      cases ok with
      | true => exact Triple.pure () fun d hd => ⟨hd.1, hd.2.1⟩
      | false =>
          have hagain : Triple phone d₀ target
              (fun d => d.control = .mainLoop ∧ R d.memory ∧ R (d.memory.writeBytes addr 0 tmp))
              (chaosKeepAlive >>= fun _ => writeBlock (writeRequest addr tmp) tries)
              fun _ d => d.control = .mainLoop ∧ R d.memory :=
            (applies_chaosKeepAlive.bind fun _ => ih).mono_pre R fun d hd => ⟨hd.1, hd.2.2⟩
          exact hagain

end

end Pmb887x.ChaosBoot
