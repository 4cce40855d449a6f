import Pmb887x.Boot.ForwardOutput
import Pmb887x.Library.Checked

set_option autoImplicit false

/-! # Host commands act on the session in one way

Host commands other than `EXPECT` do not see the reads to come, so the lines of a stream act on the session
in one way, however the stream is cut. -/

namespace Pmb887x.Boot.Output

open Library

/-! ## Commands do not see the reads -/

@[simp] theorem Port.withUnread_configuration (port : Port) (unread : List (List UInt8)) :
    (port.withUnread unread).configuration = port.configuration := rfl

@[simp] theorem Port.withUnread_written (port : Port) (unread : List (List UInt8)) :
    (port.withUnread unread).written = port.written := rfl

def OnPort.withUnread (unread : List (List UInt8)) : OnPort → OnPort
  | .ok port => .ok (port.withUnread unread)
  | .error raised => .error (raised.1, raised.2.withUnread unread)

section

variable (runtime : Runtime) (port : Port) (argument : List UInt8) (unread : List (List UInt8))

theorem sendHostData_withUnread (data : List UInt8) (command : String) :
    sendHostData runtime (port.withUnread unread) data command
      = (sendHostData runtime port data command).withUnread unread := by
  by_cases h : runtime.accepts port.configuration port.written data = data.length
  · simp [sendHostData, OnPort.withUnread, Port.withUnread, h]
  · simp [sendHostData, OnPort.withUnread, Port.withUnread, h]

theorem executeBaudrate_withUnread :
    executeBaudrate runtime (port.withUnread unread) argument
      = (executeBaudrate runtime port argument).withUnread unread := by
  unfold executeBaudrate
  split_ifs
  · rfl
  · cases runtime.int argument with
    | none => rfl
    | some baudrate =>
        dsimp only
        split_ifs
        · rfl
        · rfl

theorem executeFormat_withUnread :
    executeFormat (port.withUnread unread) argument
      = (executeFormat port argument).withUnread unread := by
  unfold executeFormat
  cases formats.lookup argument <;> rfl

theorem executeSend_withUnread :
    executeSend runtime (port.withUnread unread) argument
      = (executeSend runtime port argument).withUnread unread := by
  unfold executeSend
  split_ifs
  · rfl
  · cases runtime.loads argument with
    | none => rfl
    | some value =>
        cases value with
        | none => rfl
        | some data => exact sendHostData_withUnread runtime port unread data _

theorem executeXorshift32_withUnread :
    executeXorshift32 runtime (port.withUnread unread) argument
      = (executeXorshift32 runtime port argument).withUnread unread := by
  unfold executeXorshift32
  split
  · split
    · unfold sendXorshift32
      split_ifs
      · rfl
      · rfl
      · rfl
      · dsimp only
        split_ifs
        · rfl
        · exact sendHostData_withUnread runtime port unread _ _
    · rfl
  · rfl

theorem executeWait_withUnread :
    executeWait runtime (port.withUnread unread) argument
      = (executeWait runtime port argument).withUnread unread := by
  unfold executeWait
  split_ifs
  · rfl
  · cases runtime.int argument with
    | none => rfl
    | some delay =>
        dsimp only
        split_ifs
        · rfl
        · rfl

theorem executeRestore_withUnread (restore : Option Configuration) :
    executeRestore (port.withUnread unread) argument restore
      = (executeRestore port argument restore).withUnread unread := by
  unfold executeRestore
  cases restore with
  | none => rfl
  | some configuration =>
      dsimp only
      split_ifs
      · rfl
      · rfl

end

/-- A command other than `EXPECT` leaves the reads to come alone. -/
theorem executeHostCommand_withUnread (runtime : Runtime) (port : Port) {command : Command}
    (restore : Option Configuration) (unread : List (List UInt8)) (h : command.1 ≠ expectCommand) :
    executeHostCommand runtime (port.withUnread unread) command restore
      = (executeHostCommand runtime port command restore).withUnread unread := by
  unfold executeHostCommand
  split_ifs
  · exact executeBaudrate_withUnread runtime port _ unread
  · exact executeFormat_withUnread port _ unread
  · exact executeSend_withUnread runtime port _ unread
  · exact executeXorshift32_withUnread runtime port _ unread
  · exact executeWait_withUnread runtime port _ unread
  · exact executeRestore_withUnread port _ unread restore
  · rfl

/-! ## Lines do not see the reads -/

/-- No command that waits in a block reads the port. -/
def Session.NoExpect (s : Session) : Prop :=
  ∀ block, s.block = some block → ∀ command ∈ block.commands, command.1 ≠ expectCommand

/-- A line that does not make the host read the port itself. -/
def NoExpectLine (line : List UInt8) : Prop :=
  (parseHostCommand line).map Prod.fst ≠ some expectCommand

instance : DecidablePred NoExpectLine := fun _ => inferInstanceAs (Decidable (_ ≠ _))

theorem NoExpectLine.command {line : List UInt8} {command : Command} (h : NoExpectLine line)
    (hparse : parseHostCommand line = some command) : command.1 ≠ expectCommand := fun heq =>
  h (by rw [hparse, ← heq]; rfl)

variable {runtime : Runtime} {s s' : Session}

theorem Session.execute_withUnread {command : Command} {restore : Option Configuration}
    (hcommand : command.1 ≠ expectCommand) (unread : List (List UInt8))
    (h : s.execute runtime command restore = .ok s') :
    (s.withUnread unread).execute runtime command restore = .ok (s'.withUnread unread) := by
  have hport := executeHostCommand_withUnread runtime s.port restore unread hcommand
  unfold Session.execute at h ⊢
  dsimp only at h
  rw [show (s.withUnread unread).port = s.port.withUnread unread from rfl, hport]
  cases hrun : executeHostCommand runtime s.port command restore with
  | error raised =>
      rw [hrun] at h
      cases h
  | ok port =>
      rw [hrun] at h
      obtain rfl := Except.ok.inj h
      rfl

theorem Session.execute_block {command : Command} {restore : Option Configuration}
    (h : s.execute runtime command restore = .ok s') :
    s'.block = s.block ∧ s'.expectedReset = s.expectedReset := by
  unfold Session.execute at h
  dsimp only at h
  split at h
  · obtain rfl := Except.ok.inj h
    exact ⟨rfl, rfl⟩
  · cases h

theorem Session.executeQueued_withUnread {configuration : Configuration} {commands : List Command}
    (hcommands : ∀ command ∈ commands, command.1 ≠ expectCommand) (unread : List (List UInt8))
    (h : s.executeQueued runtime configuration commands = .ok s') :
    (s.withUnread unread).executeQueued runtime configuration commands
      = .ok (s'.withUnread unread) := by
  induction commands generalizing s with
  | nil =>
      obtain rfl := Except.ok.inj h
      rfl
  | cons command commands ih =>
      obtain ⟨hcommand, hrest⟩ := List.forall_mem_cons.mp hcommands
      obtain ⟨s₁, hfirst, h⟩ := exists_of_bind_eq_ok h
      rw [executeQueued, execute_withUnread hcommand unread hfirst]
      exact ih hrest h

theorem Session.begin_withUnread {argument : List UInt8} (unread : List (List UInt8))
    (h : s.begin argument = .ok s') :
    (s.withUnread unread).begin argument = .ok (s'.withUnread unread) := by
  unfold Session.begin at h
  split_ifs at h with hinvalid
  obtain rfl := Except.ok.inj h
  exact if_neg hinvalid

theorem Session.end_withUnread {argument : List UInt8} (hs : s.NoExpect)
    (unread : List (List UInt8)) (h : s.end runtime argument = .ok s') :
    (s.withUnread unread).end runtime argument = .ok (s'.withUnread unread) := by
  unfold Session.end at h ⊢
  rw [show (s.withUnread unread).block = s.block from rfl]
  cases hblock : s.block with
  | none =>
      rw [hblock] at h
      cases h
  | some block =>
      rw [hblock] at h
      dsimp only at h ⊢
      split_ifs at h with hinvalid
      obtain ⟨s₁, hqueued, h⟩ := exists_of_bind_eq_ok h
      obtain rfl := Except.ok.inj h
      rw [if_neg hinvalid, executeQueued_withUnread (hs block hblock) unread hqueued]
      rfl

theorem Session.expectReset_withUnread {argument : List UInt8} (unread : List (List UInt8))
    (h : s.expectReset argument = .ok s') :
    (s.withUnread unread).expectReset argument = .ok (s'.withUnread unread) := by
  unfold Session.expectReset at h
  split_ifs at h with hinvalid
  obtain rfl := Except.ok.inj h
  exact if_neg hinvalid

theorem Session.plain_withUnread {command : Command} (hcommand : command.1 ≠ expectCommand)
    (unread : List (List UInt8)) (h : s.plain runtime command = .ok s') :
    (s.withUnread unread).plain runtime command = .ok (s'.withUnread unread) := by
  unfold Session.plain at h ⊢
  rw [show (s.withUnread unread).block = s.block from rfl]
  cases hblock : s.block with
  | none =>
      rw [hblock] at h
      exact execute_withUnread hcommand unread h
  | some block =>
      rw [hblock] at h
      obtain rfl := Except.ok.inj h
      rfl

theorem Session.line_withUnread {line : List UInt8} (hs : s.NoExpect) (hline : NoExpectLine line)
    (unread : List (List UInt8)) (h : s.line runtime line = .ok s') :
    (s.withUnread unread).line runtime line = .ok (s'.withUnread unread) := by
  unfold Session.line at h ⊢
  cases hparse : parseHostCommand line with
  | none =>
      rw [hparse] at h
      obtain rfl := Except.ok.inj h
      rfl
  | some command =>
      rw [hparse] at h
      dsimp only at h ⊢
      split_ifs at h ⊢
      · exact begin_withUnread unread h
      · exact end_withUnread hs unread h
      · exact expectReset_withUnread unread h
      · exact plain_withUnread (hline.command hparse) unread h

theorem Session.executeQueued_expectedReset {configuration : Configuration}
    {commands : List Command} (h : s.executeQueued runtime configuration commands = .ok s') :
    s'.expectedReset = s.expectedReset := by
  induction commands generalizing s with
  | nil => exact congrArg Session.expectedReset (Except.ok.inj h).symm
  | cons command commands ih =>
      obtain ⟨s₁, hfirst, h⟩ := exists_of_bind_eq_ok h
      rw [ih h]
      exact (execute_block hfirst).2

/-- What a line can do: nothing to the block; open, close or extend it; or expect a reset. -/
theorem Session.line_cases {line : List UInt8} (h : s.line runtime line = .ok s') :
    (s'.block = s.block ∧ s'.expectedReset = s.expectedReset) ∨
    (∃ configuration, s'.block = some { commands := [], configuration := configuration } ∧
      s'.expectedReset = s.expectedReset) ∨
    (s'.block = none ∧ s'.expectedReset = s.expectedReset) ∨
    (∃ block command, s.block = some block ∧ parseHostCommand line = some command ∧
      s'.block = some { block with commands := block.commands ++ [command] } ∧
      s'.expectedReset = s.expectedReset) ∨
    ∃ argument, parseHostCommand line = some (expectResetCommand, argument) ∧
      s'.block = s.block ∧ s'.expectedReset = some argument := by
  unfold Session.line at h
  cases hparse : parseHostCommand line with
  | none =>
      rw [hparse] at h
      obtain rfl := Except.ok.inj h
      exact .inl ⟨rfl, rfl⟩
  | some command =>
      rw [hparse] at h
      dsimp only at h
      split_ifs at h with hbegin hend hreset
      · unfold Session.begin at h
        split_ifs at h
        obtain rfl := Except.ok.inj h
        exact .inr (.inl ⟨_, rfl, rfl⟩)
      · unfold Session.end at h
        split at h
        · cases h
        · split_ifs at h
          obtain ⟨s₁, hqueued, h⟩ := exists_of_bind_eq_ok h
          obtain rfl := Except.ok.inj h
          have hsame := executeQueued_expectedReset hqueued
          exact .inr (.inr (.inl ⟨rfl, hsame⟩))
      · unfold Session.expectReset at h
        split_ifs at h
        obtain rfl := Except.ok.inj h
        exact .inr (.inr (.inr (.inr ⟨command.2, by rw [← hreset], rfl, rfl⟩)))
      · unfold Session.plain at h
        split at h
        · exact .inl (execute_block h)
        · next block hblock =>
            obtain rfl := Except.ok.inj h
            exact .inr (.inr (.inr (.inl ⟨block, command, hblock, rfl, rfl, rfl⟩)))

theorem Session.line_noExpect {line : List UInt8} (hs : s.NoExpect) (hline : NoExpectLine line)
    (h : s.line runtime line = .ok s') : s'.NoExpect := by
  intro block' hblock' queued hqueued
  obtain ⟨hblock, -⟩ | ⟨_, hblock, -⟩ | ⟨hblock, -⟩ | ⟨block, command, hold, hparse, hblock, -⟩ |
    ⟨_, -, hblock, -⟩ := line_cases h
  · exact hs block' (hblock ▸ hblock') queued hqueued
  · obtain rfl := Option.some.inj (hblock.symm.trans hblock')
    cases hqueued
  · cases hblock.symm.trans hblock'
  · obtain rfl := Option.some.inj (hblock.symm.trans hblock')
    rcases List.mem_append.mp hqueued with hbefore | hlast
    · exact hs block hold queued hbefore
    · obtain rfl := List.mem_singleton.mp hlast
      exact hline.command hparse
  · exact hs block' (hblock ▸ hblock') queued hqueued

/-- Only an `EXPECT_RESET` line makes the host expect a reset. -/
theorem Session.exists_resetLine {lines : List (List UInt8)} {argument : List UInt8}
    (h : s.lines runtime lines = .ok s') (hs : s.expectedReset = none)
    (hs' : s'.expectedReset = some argument) :
    ∃ line ∈ lines, ∃ argument, parseHostCommand line = some (expectResetCommand, argument) := by
  induction lines generalizing s with
  | nil =>
      obtain rfl := Except.ok.inj h
      cases hs.symm.trans hs'
  | cons line lines ih =>
      obtain ⟨s₁, hfirst, h⟩ := exists_of_bind_eq_ok h
      by_cases hreset : s₁.expectedReset = none
      · obtain ⟨line', hmem, hline'⟩ := ih h hreset
        exact ⟨line', List.mem_cons_of_mem _ hmem, hline'⟩
      · obtain ⟨-, hsame⟩ | ⟨_, -, hsame⟩ | ⟨-, hsame⟩ | ⟨_, _, -, -, -, hsame⟩ |
          ⟨argument', hparse, -, -⟩ := line_cases hfirst
        · exact absurd (hsame.trans hs) hreset
        · exact absurd (hsame.trans hs) hreset
        · exact absurd (hsame.trans hs) hreset
        · exact absurd (hsame.trans hs) hreset
        · exact ⟨line, List.mem_cons_self, argument', hparse⟩

theorem Session.lines_append (runtime : Runtime) (s : Session) (lines lines' : List (List UInt8)) :
    s.lines runtime (lines ++ lines')
      = s.lines runtime lines >>= fun s => s.lines runtime lines' := by
  induction lines generalizing s with
  | nil => rfl
  | cons line lines ih =>
      rw [List.cons_append, Session.lines, Session.lines]
      cases s.line runtime line with
      | error raised => rfl
      | ok s₁ => exact ih s₁

theorem Session.lines_withUnread {lines : List (List UInt8)} (hs : s.NoExpect)
    (hlines : ∀ line ∈ lines, NoExpectLine line) (unread : List (List UInt8))
    (h : s.lines runtime lines = .ok s') :
    (s.withUnread unread).lines runtime lines = .ok (s'.withUnread unread) := by
  induction lines generalizing s with
  | nil =>
      obtain rfl := Except.ok.inj h
      rfl
  | cons line lines ih =>
      obtain ⟨hline, hrest⟩ := List.forall_mem_cons.mp hlines
      obtain ⟨s₁, hfirst, h⟩ := exists_of_bind_eq_ok h
      rw [Session.lines, line_withUnread hs hline unread hfirst]
      exact ih (line_noExpect hs hline hfirst) hrest h

/-- Such lines leave the reads to come as they are. -/
theorem Session.lines_noExpect {lines : List (List UInt8)} (hs : s.NoExpect)
    (hlines : ∀ line ∈ lines, NoExpectLine line) (h : s.lines runtime lines = .ok s') :
    s'.NoExpect ∧ s'.port.unread = s.port.unread := by
  constructor
  · induction lines generalizing s with
    | nil =>
        obtain rfl := Except.ok.inj h
        exact hs
    | cons line lines ih =>
        obtain ⟨hline, hrest⟩ := List.forall_mem_cons.mp hlines
        obtain ⟨s₁, hfirst, h⟩ := exists_of_bind_eq_ok h
        exact ih (line_noExpect hs hline hfirst) hrest h
  · have hsame := lines_withUnread hs hlines s.port.unread h
    have heq := Except.ok.inj (h.symm.trans hsame)
    rw [heq]
    rfl

/-! ## Command blocks -/

/-- A line that neither opens nor closes a block nor expects a reset. -/
def PlainLine (line : List UInt8) : Prop :=
  ∀ command, parseHostCommand line = some command →
    command.1 ≠ beginCommand ∧ command.1 ≠ endCommand ∧ command.1 ≠ expectResetCommand

/-- In a block a plain line only queues its command. -/
theorem Session.line_queued {line : List UInt8} {block : CommandBlock} (hblock : s.block = some block)
    (hline : PlainLine line) :
    s.line runtime line = .ok { s with block := some { block with
      commands := block.commands ++ (parseHostCommand line).toList } } := by
  unfold Session.line
  cases hparse : parseHostCommand line with
  | none =>
      simp only [Option.toList_none, List.append_nil, ← hblock]
  | some command =>
      obtain ⟨hbegin, hend, hreset⟩ := hline command hparse
      dsimp only
      rw [if_neg hbegin, if_neg hend, if_neg hreset, Session.plain, hblock]
      rfl

theorem Session.lines_queued {lines : List (List UInt8)} {block : CommandBlock}
    (hblock : s.block = some block) (hlines : ∀ line ∈ lines, PlainLine line) :
    s.lines runtime lines = .ok { s with block := some { block with
      commands := block.commands ++ lines.filterMap parseHostCommand } } := by
  induction lines generalizing s block with
  | nil =>
      rw [List.filterMap_nil, List.append_nil, ← hblock]
      rfl
  | cons line lines ih =>
      obtain ⟨hline, hrest⟩ := List.forall_mem_cons.mp hlines
      rw [Session.lines, line_queued hblock hline]
      show Session.lines runtime _ _ = _
      rw [ih rfl hrest]
      cases hparse : parseHostCommand line with
      | none => simp [hparse]
      | some command => simp [hparse]

theorem Session.execute_executed {command : Command} {restore : Option Configuration}
    (h : s.execute runtime command restore = .ok s') :
    s'.executed = s.executed ++ [(command, restore)] := by
  unfold Session.execute at h
  dsimp only at h
  split at h
  · obtain rfl := Except.ok.inj h
    rfl
  · cases h

theorem Session.executeQueued_executed {configuration : Configuration} {commands : List Command}
    (h : s.executeQueued runtime configuration commands = .ok s') :
    s'.executed = s.executed ++ commands.map fun command => (command, some configuration) := by
  induction commands generalizing s with
  | nil =>
      obtain rfl := Except.ok.inj h
      rw [List.map_nil, List.append_nil]
  | cons command commands ih =>
      obtain ⟨s₁, hfirst, h⟩ := exists_of_bind_eq_ok h
      rw [ih h, execute_executed hfirst, List.append_assoc]
      rfl

/-- A block: nothing is executed up to its `END`. -/
theorem Session.lines_open {opening : List UInt8} {body : List (List UInt8)} (hs : s.block = none)
    (hopening : parseHostCommand opening = some (beginCommand, []))
    (hbody : ∀ line ∈ body, PlainLine line) :
    s.lines runtime (opening :: body) = .ok
      { s with block := some ⟨body.filterMap parseHostCommand, s.port.configuration⟩ } := by
  have hbegin : s.line runtime opening
      = .ok { s with block := some ⟨[], s.port.configuration⟩ } := by
    simp [Session.line, hopening, Session.begin, hs]
  have hopen : ({ s with block := some ⟨[], s.port.configuration⟩ } : Session).block
      = some ⟨[], s.port.configuration⟩ := rfl
  rw [Session.lines, hbegin]
  exact lines_queued hopen hbody

/-- At its `END` the commands are executed, with the configuration at its `BEGIN`. -/
theorem Session.lines_closed {opening closing : List UInt8} {body : List (List UInt8)}
    (hs : s.block = none) (hopening : parseHostCommand opening = some (beginCommand, []))
    (hclosing : parseHostCommand closing = some (endCommand, []))
    (hbody : ∀ line ∈ body, PlainLine line)
    (h : s.lines runtime (opening :: body ++ [closing]) = .ok s') :
    s'.block = none ∧ s'.executed = s.executed ++ (body.filterMap parseHostCommand).map
      fun command => (command, some s.port.configuration) := by
  rw [lines_append, lines_open hs hopening hbody] at h
  obtain ⟨s₁, hline, h⟩ := exists_of_bind_eq_ok (show Session.lines runtime
    { s with block := some ⟨body.filterMap parseHostCommand, s.port.configuration⟩ } [closing]
      = .ok s' from h)
  obtain rfl := Except.ok.inj h
  have hne : endCommand ≠ beginCommand := by decide
  unfold Session.line at hline
  rw [hclosing] at hline
  dsimp only at hline
  rw [if_neg hne, if_pos rfl] at hline
  unfold Session.end at hline
  dsimp only at hline
  rw [if_neg (not_not.mpr rfl)] at hline
  obtain ⟨s₂, hqueued, hline⟩ := exists_of_bind_eq_ok hline
  have hexecuted := executeQueued_executed hqueued
  obtain rfl := Except.ok.inj hline
  exact ⟨rfl, hexecuted⟩

end Pmb887x.Boot.Output
