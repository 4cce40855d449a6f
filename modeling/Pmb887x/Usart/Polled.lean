import Mathlib.Data.List.Basic
import Mathlib.Tactic.SplitIfs
import Pmb887x.Library.Machine

set_option autoImplicit false

/-! # Sending and receiving by polling (`lib/usart.c`)

`usart_write` waits for an empty transmit FIFO and fills it; `usart_read` waits for bytes in the receive FIFO and
takes as many as it has seen. The machine has one on each end of a line and executes one statement at a time;
between any two of them the hardware may move a byte on. -/

namespace Pmb887x.Usart.Polled

open Library

/-! ## The two loops and the hardware between them -/

def usartFifoSize : Nat := 8

/-- The statement of `usart_write` that comes next; `put` has the turns of the inner loop that are left. -/
inductive Write where
  | loop
  | wait
  | put (left : Nat)
  | done
  deriving DecidableEq

/-- The statement of `usart_read` that comes next. -/
inductive Read where
  | loop
  | level
  | take (left : Nat)
  | done
  deriving DecidableEq

structure State where
  write : Write
  /-- what `usart_write` has not handed over: `bytes + offset` -/
  unsent : List UInt8
  txFifo : List UInt8
  /-- the bytes on their way from one FIFO to the other -/
  line : List UInt8
  rxFifo : List UInt8
  read : Read
  /-- what `usart_read` has stored: `bytes` up to `offset` -/
  stored : List UInt8
  /-- a byte was written to a full transmit FIFO -/
  txOverflow : Bool
  /-- a byte was read from an empty receive FIFO -/
  emptyRead : Bool
  /-- a byte has found the receive FIFO full -/
  overrun : Bool
  deriving DecidableEq

def State.start (data : List UInt8) : State where
  write := .loop
  unsent := data
  txFifo := []
  line := []
  rxFifo := []
  read := .loop
  stored := []
  txOverflow := false
  emptyRead := false
  overrun := false

/-- One statement of `usart_write`. -/
def usartWrite (s : State) : State :=
  match s.write with
  | .loop => if s.unsent ≠ [] then { s with write := .wait } else { s with write := .done }
  | .wait =>
      if s.txFifo.length ≠ 0 then s
      else { s with write := .put (min s.unsent.length usartFifoSize) }
  | .put 0 => { s with write := .loop }
  | .put (left + 1) =>
      if s.txFifo.length < usartFifoSize then
        { s with write := .put left, unsent := s.unsent.drop 1, txFifo := s.txFifo ++ s.unsent.take 1 }
      else { s with write := .put left, unsent := s.unsent.drop 1, txOverflow := true }
  | .done => s

/-- One statement of `usart_read` for `size` bytes. -/
def usartRead (size : Nat) (s : State) : State :=
  match s.read with
  | .loop => if s.stored.length < size then { s with read := .level } else { s with read := .done }
  | .level =>
      if s.rxFifo.length = 0 then s
      else { s with read := .take (min (size - s.stored.length) s.rxFifo.length) }
  | .take 0 => { s with read := .loop }
  | .take (left + 1) =>
      match s.rxFifo with
      | b :: rxFifo => { s with read := .take left, rxFifo := rxFifo, stored := s.stored ++ [b] }
      | [] => { s with read := .take left, stored := s.stored ++ [0], emptyRead := true }
  | .done => s

inductive Action where
  | write
  | read
  /-- the transmitter sends the next byte -/
  | shift
  /-- a byte arrives -/
  | arrive
  deriving DecidableEq

def step (size : Nat) (a : Action) (s : State) : Option State :=
  match a with
  | .write => some (usartWrite s)
  | .read => some (usartRead size s)
  | .shift =>
      match s.txFifo with
      | [] => none
      | b :: txFifo => some { s with txFifo := txFifo, line := s.line ++ [b] }
  | .arrive =>
      match s.line with
      | [] => none
      | b :: line =>
          if s.rxFifo.length < usartFifoSize then some { s with line := line, rxFifo := s.rxFifo ++ [b] }
          else some { s with line := line, overrun := true }

/-- The step does something: a poll that finds nothing does not, nor does a function that has returned. -/
def Moves (size : Nat) (s : State) (a : Action) : Prop := step size a s ≠ some s

instance (size : Nat) (s : State) (a : Action) : Decidable (Moves size s a) :=
  inferInstanceAs (Decidable (step size a s ≠ some s))

/-! ## The bytes on their way -/

/-- All bytes in their order. -/
def State.contents (s : State) : List UInt8 := s.stored ++ s.rxFifo ++ s.line ++ s.txFifo ++ s.unsent

/-- What the two loops rely on from one statement to the next. -/
structure Kept (size : Nat) (data : List UInt8) (s : State) : Prop where
  sublist : s.contents.Sublist data
  complete : s.overrun = false → s.contents = data
  waits : s.write = .wait → s.unsent ≠ []
  puts : ∀ left, s.write = .put left → s.txFifo.length + left ≤ usartFifoSize ∧ left ≤ s.unsent.length
  level : s.read = .level → s.stored.length < size
  takes : ∀ left, s.read = .take left → left ≤ s.rxFifo.length ∧ s.stored.length + left ≤ size
  returned : s.read = .done → s.stored.length = size
  sent : s.write = .done → s.unsent = []
  length_le : s.stored.length ≤ size
  txOverflow : s.txOverflow = false
  emptyRead : s.emptyRead = false

theorem kept_start (size : Nat) (data : List UInt8) : Kept size data (State.start data) where
  sublist := List.Sublist.refl _
  complete := fun _ => rfl
  waits := nofun
  puts := nofun
  level := nofun
  takes := nofun
  returned := nofun
  sent := nofun
  length_le := Nat.zero_le _
  txOverflow := rfl
  emptyRead := rfl

theorem kept_usartWrite {size : Nat} {data : List UInt8} {s : State} (hs : Kept size data s) :
    Kept size data (usartWrite s) := by
  cases hwrite : s.write with
  | loop =>
      simp only [usartWrite, hwrite]
      split_ifs with hmore
      · exact { hs with waits := fun _ => hmore, puts := nofun, sent := nofun }
      · exact { hs with waits := nofun, puts := nofun, sent := fun _ => not_not.mp hmore }
  | wait =>
      simp only [usartWrite, hwrite]
      split_ifs with hbusy
      · exact hs
      · refine { hs with waits := nofun, sent := nofun, puts := fun left h => ?_ }
        cases h
        rw [not_not.mp hbusy, Nat.zero_add]
        exact ⟨Nat.min_le_right _ _, Nat.min_le_left _ _⟩
  | put left =>
      cases left with
      | zero =>
          simp only [usartWrite, hwrite]
          exact { hs with waits := nofun, puts := nofun, sent := nofun }
      | succ left =>
          obtain ⟨hroom, hleft⟩ := hs.puts _ hwrite
          have hcontents : s.stored ++ s.rxFifo ++ s.line ++ (s.txFifo ++ s.unsent.take 1) ++ s.unsent.drop 1
              = s.contents := by
            rw [State.contents, ← List.append_assoc _ s.txFifo, List.append_assoc _ (s.unsent.take 1),
              List.take_append_drop]
          simp only [usartWrite, hwrite]
          rw [if_pos (by omega)]
          refine { hs with waits := nofun, sent := nofun, sublist := ?_, complete := ?_, puts := fun left h => ?_ }
          · rw [State.contents, hcontents]
            exact hs.sublist
          · intro h
            rw [State.contents, hcontents]
            exact hs.complete h
          · cases h
            simp only [List.length_append, List.length_take, List.length_drop]
            omega
  | done =>
      simp only [usartWrite, hwrite]
      exact hs

theorem kept_usartRead {size : Nat} {data : List UInt8} {s : State} (hs : Kept size data s) :
    Kept size data (usartRead size s) := by
  cases hread : s.read with
  | loop =>
      simp only [usartRead, hread]
      split_ifs with hmore
      · exact { hs with level := fun _ => hmore, takes := nofun, returned := nofun }
      · refine { hs with level := nofun, takes := nofun, returned := fun _ => ?_ }
        exact Nat.le_antisymm hs.length_le (Nat.not_lt.mp hmore)
  | level =>
      have hlt := hs.level hread
      simp only [usartRead, hread]
      split_ifs with hempty
      · exact hs
      · refine { hs with level := nofun, returned := nofun, takes := fun left h => ?_ }
        cases h
        dsimp only
        omega
  | take left =>
      cases left with
      | zero =>
          simp only [usartRead, hread]
          exact { hs with level := nofun, takes := nofun, returned := nofun }
      | succ left =>
          obtain ⟨havailable, hfits⟩ := hs.takes _ hread
          cases hfifo : s.rxFifo with
          | nil =>
              rw [hfifo] at havailable
              exact absurd havailable (Nat.not_succ_le_zero _)
          | cons b rxFifo =>
              rw [hfifo, List.length_cons] at havailable
              have hcontents : s.stored ++ [b] ++ rxFifo ++ s.line ++ s.txFifo ++ s.unsent = s.contents := by
                rw [State.contents, hfifo, List.append_assoc s.stored [b]]
                rfl
              simp only [usartRead, hread, hfifo]
              refine { hs with
                level := nofun, returned := nofun, sublist := ?_, complete := ?_, takes := fun left h => ?_,
                length_le := ?_ }
              · rw [State.contents, hcontents]
                exact hs.sublist
              · intro h
                rw [State.contents, hcontents]
                exact hs.complete h
              · cases h
                simp only [List.length_append, List.length_singleton]
                omega
              · simp only [List.length_append, List.length_singleton]
                omega
  | done =>
      simp only [usartRead, hread]
      exact hs

theorem kept_step {size : Nat} {data : List UInt8} {a : Action} {s s' : State} (hs : Kept size data s)
    (h : step size a s = some s') : Kept size data s' := by
  cases a with
  | write =>
      obtain rfl := Option.some.inj h
      exact kept_usartWrite hs
  | read =>
      obtain rfl := Option.some.inj h
      exact kept_usartRead hs
  | shift =>
      cases htx : s.txFifo with
      | nil => simp [step, htx] at h
      | cons b txFifo =>
          simp only [step, htx] at h
          obtain rfl := Option.some.inj h
          have hcontents : s.stored ++ s.rxFifo ++ (s.line ++ [b]) ++ txFifo ++ s.unsent = s.contents := by
            rw [State.contents, htx, ← List.append_assoc _ s.line, List.append_assoc _ [b]]
            rfl
          refine { hs with sublist := ?_, complete := ?_, puts := fun left hput => ?_ }
          · rw [State.contents, hcontents]
            exact hs.sublist
          · intro h
            rw [State.contents, hcontents]
            exact hs.complete h
          · obtain ⟨hroom, hleft⟩ := hs.puts left hput
            rw [htx, List.length_cons] at hroom
            exact ⟨by dsimp only; omega, hleft⟩
  | arrive =>
      cases hline : s.line with
      | nil => simp [step, hline] at h
      | cons b line =>
          simp only [step, hline] at h
          split_ifs at h with hroom
          · obtain rfl := Option.some.inj h
            have hcontents : s.stored ++ (s.rxFifo ++ [b]) ++ line ++ s.txFifo ++ s.unsent = s.contents := by
              rw [State.contents, hline, ← List.append_assoc s.stored, List.append_assoc _ [b]]
              rfl
            refine { hs with sublist := ?_, complete := ?_, takes := fun left htake => ?_ }
            · rw [State.contents, hcontents]
              exact hs.sublist
            · intro h
              rw [State.contents, hcontents]
              exact hs.complete h
            · obtain ⟨havailable, hfits⟩ := hs.takes left htake
              refine ⟨?_, hfits⟩
              rw [List.length_append]
              exact Nat.le_add_right_of_le havailable
          · obtain rfl := Option.some.inj h
            refine { hs with sublist := List.Sublist.trans ?_ hs.sublist, complete := nofun }
            rw [State.contents, State.contents, hline]
            refine List.Sublist.append (List.Sublist.append (List.Sublist.append (List.Sublist.refl _) ?_)
              (List.Sublist.refl _)) (List.Sublist.refl _)
            exact List.sublist_cons_self b line

/-! ## Both functions return -/

/-- What a loop has left in its current turn. -/
def Write.work : Write → Nat
  | .loop => 3
  | .wait => 2
  | .put 0 => 4
  | .put (_ + 1) => 1
  | .done => 0

def Read.work : Read → Nat
  | .loop => 3
  | .level => 2
  | .take 0 => 4
  | .take (_ + 1) => 1
  | .done => 0

/-- Every step that does something makes it less. -/
def State.work (size : Nat) (s : State) : Nat :=
  s.write.work + 6 * s.unsent.length + 2 * s.txFifo.length + s.line.length
    + s.read.work + 4 * (size - s.stored.length)

theorem work_usartWrite {size : Nat} {data : List UInt8} {s : State} (hs : Kept size data s)
    (hmoves : usartWrite s ≠ s) : (usartWrite s).work size < s.work size := by
  cases hwrite : s.write with
  | loop =>
      simp only [usartWrite, hwrite]
      split_ifs <;> (simp only [State.work, hwrite, Write.work]; omega)
  | wait =>
      have hpos := List.length_pos_of_ne_nil (hs.waits hwrite)
      simp only [usartWrite, hwrite] at hmoves ⊢
      split_ifs at hmoves ⊢ with hbusy
      · exact absurd rfl hmoves
      · obtain ⟨left, hleft⟩ : ∃ left, min s.unsent.length usartFifoSize = left + 1 :=
          Nat.exists_eq_succ_of_ne_zero (by simp only [usartFifoSize]; omega)
        simp only [State.work, hwrite, hleft, Write.work]
        omega
  | put left =>
      cases left with
      | zero =>
          simp only [usartWrite, hwrite, State.work, Write.work]
          omega
      | succ left =>
          obtain ⟨hroom, hleft⟩ := hs.puts _ hwrite
          have hturn : (Write.put left).work ≤ 4 := by
            cases left with
            | zero => exact Nat.le_refl _
            | succ _ => exact (by decide : 1 ≤ 4)
          simp only [usartWrite, hwrite]
          rw [if_pos (by omega)]
          simp only [State.work, hwrite, List.length_append, List.length_take, List.length_drop]
          change _ < 1 + _ + _ + _ + _ + _
          omega
  | done =>
      simp only [usartWrite, hwrite] at hmoves
      exact absurd rfl hmoves

theorem work_usartRead {size : Nat} {data : List UInt8} {s : State} (hs : Kept size data s)
    (hmoves : usartRead size s ≠ s) : (usartRead size s).work size < s.work size := by
  cases hread : s.read with
  | loop =>
      simp only [usartRead, hread]
      split_ifs <;> (simp only [State.work, hread, Read.work]; omega)
  | level =>
      have hlt := hs.level hread
      simp only [usartRead, hread] at hmoves ⊢
      split_ifs at hmoves ⊢ with hempty
      · exact absurd rfl hmoves
      · obtain ⟨left, hleft⟩ : ∃ left, min (size - s.stored.length) s.rxFifo.length = left + 1 :=
          Nat.exists_eq_succ_of_ne_zero (by omega)
        simp only [State.work, hread, hleft, Read.work]
        omega
  | take left =>
      cases left with
      | zero =>
          simp only [usartRead, hread, State.work, Read.work]
          omega
      | succ left =>
          obtain ⟨havailable, hfits⟩ := hs.takes _ hread
          have hturn : (Read.take left).work ≤ 4 := by
            cases left with
            | zero => exact Nat.le_refl _
            | succ _ => exact (by decide : 1 ≤ 4)
          cases hfifo : s.rxFifo with
          | nil =>
              rw [hfifo] at havailable
              exact absurd havailable (Nat.not_succ_le_zero _)
          | cons b rxFifo =>
              simp only [usartRead, hread, hfifo, State.work, List.length_append, List.length_singleton]
              change _ < _ + _ + _ + _ + 1 + _
              omega
  | done =>
      simp only [usartRead, hread] at hmoves
      exact absurd rfl hmoves

theorem work_step {size : Nat} {data : List UInt8} {a : Action} {s s' : State} (hs : Kept size data s)
    (ha : Moves size s a) (h : step size a s = some s') : s'.work size < s.work size := by
  cases a with
  | write =>
      obtain rfl := Option.some.inj h
      exact work_usartWrite hs fun hsame => ha (congrArg some hsame)
  | read =>
      obtain rfl := Option.some.inj h
      exact work_usartRead hs fun hsame => ha (congrArg some hsame)
  | shift =>
      cases htx : s.txFifo with
      | nil => simp [step, htx] at h
      | cons b txFifo =>
          simp only [step, htx] at h
          obtain rfl := Option.some.inj h
          simp only [State.work, htx, List.length_append, List.length_cons, List.length_nil]
          omega
  | arrive =>
      cases hline : s.line with
      | nil => simp [step, hline] at h
      | cons b line =>
          simp only [step, hline] at h
          split_ifs at h
          · obtain rfl := Option.some.inj h
            simp only [State.work, hline, List.length_cons]
            omega
          · obtain rfl := Option.some.inj h
            simp only [State.work, hline, List.length_cons]
            omega

theorem work_run {size : Nat} {data : List UInt8} (actions : List Action)
    {s s' : State} (hs : Kept size data s) (h : run (guarded (step size) (Moves size)) actions s = some s') :
    actions.length + s'.work size ≤ s.work size := by
  induction actions generalizing s with
  | nil =>
      obtain rfl := Option.some.inj h
      exact Nat.le_of_eq (Nat.zero_add _)
  | cons a actions ih =>
      obtain ⟨s₁, hguarded, hrest⟩ := Option.bind_eq_some_iff.mp h
      obtain ⟨hmoves, hstep⟩ := Option.ite_none_right_eq_some.mp hguarded
      have hlt := work_step hs hmoves hstep
      have hle := ih (kept_step hs hstep) hrest
      rw [List.length_cons]
      omega

/-- Where nothing moves, nothing is on its way, and a loop that has not returned waits for a byte. -/
theorem quiet_of_stuck {size : Nat} {s : State} (hstuck : ∀ a, step size a s = none ∨ ¬ Moves size s a) :
    s.txFifo = [] ∧ s.line = [] ∧ s.write = .done ∧ (s.read = .done ∨ (s.read = .level ∧ s.rxFifo = [])) := by
  have hsame : ∀ {a s'}, step size a s = some s' → s' = s := by
    intro a s' h
    rcases hstuck a with hnone | hmoves
    · exact absurd (hnone.symm.trans h) (Option.some_ne_none _).symm
    · exact Option.some.inj (h.symm.trans (not_not.mp hmoves))
  have htx : s.txFifo = [] := by
    cases htx : s.txFifo with
    | nil => rfl
    | cons b txFifo =>
        have hshift : step size .shift s = some { s with txFifo := txFifo, line := s.line ++ [b] } := by
          simp only [step, htx]
        have hfifo := congrArg State.txFifo (hsame hshift)
        rw [htx] at hfifo
        exact absurd hfifo.symm (List.cons_ne_self b txFifo)
  have hline : s.line = [] := by
    cases hline : s.line with
    | nil => rfl
    | cons b line =>
        obtain ⟨s', harrive, hrest⟩ : ∃ s', step size .arrive s = some s' ∧ s'.line = line := by
          simp only [step, hline]
          split_ifs <;> exact ⟨_, rfl, rfl⟩
        rw [hsame harrive, hline] at hrest
        exact absurd hrest (List.cons_ne_self b line)
  have hwrites : usartWrite s = s := hsame (a := .write) rfl
  have hreads : usartRead size s = s := hsame (a := .read) rfl
  refine ⟨htx, hline, ?_, ?_⟩
  · have hpc := congrArg State.write hwrites
    cases hwrite : s.write with
    | loop =>
        simp only [usartWrite, hwrite] at hpc
        split_ifs at hpc
    | wait => simp [usartWrite, hwrite, htx] at hpc
    | put left =>
        cases left with
        | zero => simp [usartWrite, hwrite] at hpc
        | succ left =>
            simp only [usartWrite, hwrite] at hpc
            split_ifs at hpc <;> simp at hpc
    | done => rfl
  · have hpc := congrArg State.read hreads
    cases hread : s.read with
    | loop =>
        simp only [usartRead, hread] at hpc
        split_ifs at hpc
    | level =>
        simp only [usartRead, hread] at hpc
        split_ifs at hpc with hempty
        exact .inr ⟨rfl, List.eq_nil_of_length_eq_zero hempty⟩
    | take left =>
        cases left with
        | zero => simp [usartRead, hread] at hpc
        | succ left =>
            cases hfifo : s.rxFifo with
            | nil => simp [usartRead, hread, hfifo] at hpc
            | cons b rxFifo => simp [usartRead, hread, hfifo] at hpc
    | done => exact .inl rfl

/-- **Polled transfers.** Whatever the hardware does between the statements of the two loops: `usart_write` never
    writes to a full FIFO, `usart_read` never reads from an empty one, and the bytes stay in their order, none of
    them lost unless one has found the receive FIFO full. Apart from polls that find nothing a transfer takes a
    number of steps linear in its length, and where nothing moves any more both functions have returned and what
    was read is the beginning of what was written, if no more is asked for than was written and no byte has found
    the receive FIFO full. -/
theorem usart_transfers (data : List UInt8) (size : Nat) :
    (∀ s, Reachable (step size) (fun _ _ => True) (State.start data) s →
      s.txOverflow = false ∧ s.emptyRead = false ∧ s.contents.Sublist data ∧
        (s.overrun = false → s.contents = data)) ∧
    (∀ actions s, run (guarded (step size) (Moves size)) actions (State.start data) = some s →
      actions.length ≤ 6 * data.length + 4 * size + 6) ∧
    ∀ s, Reachable (step size) (fun _ _ => True) (State.start data) s →
      (∀ a, step size a s = none ∨ ¬ Moves size s a) → size ≤ data.length → s.overrun = false →
      s.write = .done ∧ s.read = .done ∧ s.stored = data.take size := by
  have hkept : ∀ {s}, Reachable (step size) (fun _ _ => True) (State.start data) s → Kept size data s :=
    fun h => h.invariant (kept_start size data) fun _ _ _ hs _ hstep => kept_step hs hstep
  refine ⟨fun s h => ?_, fun actions s hrun => ?_, fun s h hstuck hsize hoverrun => ?_⟩
  · have hs := hkept h
    exact ⟨hs.txOverflow, hs.emptyRead, hs.sublist, hs.complete⟩
  · have hwork := work_run actions (kept_start size data) hrun
    have hstart : (State.start data).work size = 6 * data.length + 4 * size + 6 := by
      simp only [State.work, State.start, Write.work, Read.work, List.length_nil]
      omega
    omega
  · have hs := hkept h
    obtain ⟨htx, hline, hwrite, hread⟩ := quiet_of_stuck hstuck
    have hcontents := hs.complete hoverrun
    rw [State.contents, htx, hline, hs.sent hwrite, List.append_nil, List.append_nil, List.append_nil] at hcontents
    rcases hread with hread | ⟨hread, hempty⟩
    · refine ⟨hwrite, hread, ?_⟩
      rw [← hcontents, ← hs.returned hread, List.take_left]
    · have hlt := hs.level hread
      rw [hempty, List.append_nil] at hcontents
      rw [hcontents] at hlt
      omega

/-- Ten bytes, two more than the FIFOs take; nine of them are read, and the last stays in the receive FIFO. -/
theorem usart_transfers_ten : ∃ actions s,
    run (guarded (step 9) (Moves 9)) actions
      (State.start [0x41, 0x42, 0x43, 0x44, 0x45, 0x46, 0x47, 0x48, 0x49, 0x4a]) = some s ∧
      actions.length ≤ 102 ∧ s.rxFifo = [0x4a] ∧
      s.stored = [0x41, 0x42, 0x43, 0x44, 0x45, 0x46, 0x47, 0x48, 0x49] := by
  let actions := List.replicate 10 Action.write ++ [.shift, .arrive] ++ List.replicate 4 .read ++
    List.replicate 7 .shift ++ List.replicate 7 .arrive ++ List.replicate 7 .write ++ [.shift, .shift, .arrive] ++
    List.replicate 12 .read ++ [.arrive]
  obtain ⟨-, hlength, htransferred⟩ :=
    usart_transfers [0x41, 0x42, 0x43, 0x44, 0x45, 0x46, 0x47, 0x48, 0x49, 0x4a] 9
  refine ⟨actions, _, rfl, hlength actions _ rfl, rfl, ?_⟩
  refine (htransferred _ (reachable_of_run actions .init rfl) (fun a => ?_) (by decide) rfl).2.2
  cases a with
  | write => exact .inr (not_not.mpr rfl)
  | read => exact .inr (not_not.mpr rfl)
  | shift => exact .inl rfl
  | arrive => exact .inl rfl

end Pmb887x.Usart.Polled
