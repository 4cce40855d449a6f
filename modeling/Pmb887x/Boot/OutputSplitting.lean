import Pmb887x.Boot.HostLines

set_option autoImplicit false

/-! # The output does not depend on the reads

`forwarded` is what `forward_output` shows as a function of the bytes it has read. `Reading` is the state of
the loop behind some bytes of the stream; each pass keeps it, or is the last. -/

namespace Pmb887x.Boot.Output

open Library

variable {runtime : Runtime} {s s' : Session}

/-! ## What a stream does -/

inductive Status where
  | running
  | returned
  | raised (error : HostError)
  deriving DecidableEq

/-- What can be seen of `forward_output`: whether it has returned, the bytes on the output, the calls of
`execute_host_command`, and the port. -/
structure Observation where
  status : Status
  output : List UInt8
  executed : List Execution
  configuration : Configuration
  written : List UInt8
  deriving DecidableEq

def Session.observe (s : Session) (status : Status) (output : List UInt8) : Observation where
  status := status
  output := output
  executed := s.executed
  configuration := s.port.configuration
  written := s.port.written

def Outcome.observe : Outcome → Observation
  | .running f => f.session.observe .running f.output
  | .returned f => f.session.observe .returned f.output
  | .raised error f => f.session.observe (.raised error) f.output

/-- The stream up to its NUL. -/
def streamText (stream : List UInt8) : List UInt8 := stream.takeWhile (· ≠ 0)

def streamLines (stream : List UInt8) : List (List UInt8) :=
  (splitLines newline (streamText stream)).1

/-- `forward_output` as a function of the bytes it has read: the host commands of the complete lines are
executed, and the text is written; a NUL ends it, and an expected reset does with its verdict. -/
def forwarded (runtime : Runtime) (port : Port) (bytes : List UInt8) : Observation :=
  match (Session.start (port.withUnread [])).lines runtime (streamLines bytes) with
  | .error (error, s) => s.observe (.raised error) (streamText bytes)
  | .ok s =>
      if 0 ∈ bytes then
        if s.block ≠ none then s.observe (.raised .unfinishedBlock) (streamText bytes)
        else s.observe .returned (streamText bytes)
      else
        match s.expectedReset with
        | none => s.observe .running (streamText bytes)
        | some argument =>
            match completeExpectedReset runtime s.port argument with
            | .ok (port, written) =>
                { s with port := port }.observe .returned (streamText bytes ++ written)
            | .error (error, port, written) =>
                { s with port := port }.observe (.raised error) (streamText bytes ++ written)

/-- The same in all that can be seen; of a run that raises, the output is left open. -/
structure Observation.Agrees (seen expected : Observation) : Prop where
  status : seen.status = expected.status
  executed : seen.executed = expected.executed
  configuration : seen.configuration = expected.configuration
  written : seen.written = expected.written
  output : (∀ error, expected.status ≠ .raised error) → seen.output = expected.output

/-- The first NUL follows a newline, no line makes the host read the port, and nothing follows an
`EXPECT_RESET` line. -/
structure DeviceStream (stream : List UInt8) : Prop where
  newline_nul : ∀ text rest, stream = text ++ 0 :: rest → 0 ∉ text →
    text.getLast? = some newline
  noExpect : ∀ line ∈ streamLines stream, NoExpectLine line
  reset_last : ∀ before line after argument, streamLines stream = before ++ line :: after →
    parseHostCommand line = some (expectResetCommand, argument) →
    after = [] ∧ 0 ∉ stream ∧ (splitLines newline stream).2 = []

/-- No host command of the stream raises. -/
def HostCommandsSucceed (runtime : Runtime) (port : Port) (stream : List UInt8) : Prop :=
  ∃ s, (Session.start (port.withUnread [])).lines runtime (streamLines stream) = .ok s ∧
    ∀ argument, s.expectedReset = some argument →
      ∃ completed, completeExpectedReset runtime s.port argument = .ok completed

/-- The loop behind `bytes`, which have neither a NUL nor an expected reset. -/
structure Reading (runtime : Runtime) (port : Port) (bytes : List UInt8) (f : Forward) (s : Session) :
    Prop where
  no_nul : 0 ∉ bytes
  pending : f.pending = (splitLines newline bytes).2
  previousByte : f.previousByte = bytes.getLast?
  output : f.output = bytes
  lines : (Session.start (port.withUnread [])).lines runtime (splitLines newline bytes).1 = .ok s
  expectedReset : s.expectedReset = none
  session : f.session = s.withUnread f.session.port.unread

theorem streamText_append {bytes : List UInt8} (h : 0 ∉ bytes) (rest : List UInt8) :
    streamText (bytes ++ rest) = bytes ++ streamText rest := by
  unfold streamText
  refine List.takeWhile_append_of_pos fun b hb => ?_
  have hne : b ≠ 0 := fun hzero => h (hzero ▸ hb)
  simpa using hne

theorem streamText_of_not_mem {bytes : List UInt8} (h : 0 ∉ bytes) : streamText bytes = bytes := by
  have htext := streamText_append h []
  rwa [List.append_nil, show streamText [] = [] from rfl, List.append_nil] at htext

theorem streamText_nul (rest : List UInt8) : streamText (0 :: rest) = [] := rfl

/-- The lines of a stream are those of what was read, and more. -/
theorem streamLines_append {bytes : List UInt8} (h : 0 ∉ bytes) (rest : List UInt8) :
    streamLines (bytes ++ rest) = (splitLines newline bytes).1 ++
      (splitLines newline ((splitLines newline bytes).2 ++ streamText rest)).1 := by
  rw [streamLines, streamText_append h, splitLines_append]

theorem scan_clean {data : List UInt8} (h : 0 ∉ data) (previousByte : Option UInt8) (offset : Nat) :
    scan previousByte offset data = .clean (data.getLast?.or previousByte) := by
  induction data generalizing previousByte offset with
  | nil => rfl
  | cons value data ih =>
      obtain ⟨hvalue, hdata⟩ := List.ne_and_not_mem_of_not_mem_cons h
      rw [scan, if_neg (Ne.symm hvalue), ih hdata]
      cases data with
      | nil => rfl
      | cons value' data => rw [List.getLast?_cons_cons]; simp [List.getLast?_cons]

theorem scan_nul {data : List UInt8} (h : 0 ∉ data) (rest : List UInt8)
    (previousByte : Option UInt8) (offset : Nat)
    (hnewline : data.getLast?.or previousByte = some newline) :
    scan previousByte offset (data ++ 0 :: rest)
      = .terminator (offset + data.length) (some newline) := by
  induction data generalizing previousByte offset with
  | nil =>
      change previousByte = some newline at hnewline
      simp [scan, hnewline]
  | cons value data ih =>
      obtain ⟨hvalue, hdata⟩ := List.ne_and_not_mem_of_not_mem_cons h
      have hlast : data.getLast?.or (some value) = some newline := by
        cases data with
        | nil => exact hnewline
        | cons value' data =>
            rw [List.getLast?_cons_cons] at hnewline
            simpa [List.getLast?_cons] using hnewline
      rw [List.cons_append, scan, if_neg (Ne.symm hvalue), ih hdata _ _ hlast, List.length_cons]
      congr 1
      omega

/-! ## One read -/

variable {port : Port} {stream bytes data rest : List UInt8} {f : Forward}

/-- The lines of what was read act on the session as those of the whole stream begin to. -/
theorem HostCommandsSucceed.lines_of_prefix (h : HostCommandsSucceed runtime port (bytes ++ rest))
    (hbytes : 0 ∉ bytes) :
    ∃ s, (Session.start (port.withUnread [])).lines runtime (splitLines newline bytes).1 = .ok s := by
  obtain ⟨final, hfinal, -⟩ := h
  rw [streamLines_append hbytes, Session.lines_append] at hfinal
  obtain ⟨s, hs, -⟩ := exists_of_bind_eq_ok hfinal
  exact ⟨s, hs⟩

theorem DeviceStream.noExpect_of_prefix (h : DeviceStream (bytes ++ rest)) (hbytes : 0 ∉ bytes) :
    ∀ line ∈ (splitLines newline bytes).1, NoExpectLine line := by
  intro line hline
  refine h.noExpect line ?_
  rw [streamLines_append hbytes]
  exact List.mem_append_left _ hline

theorem Session.start_noExpect (port : Port) : (Session.start port).NoExpect := by
  intro block hblock
  cases hblock

/-- The lines a read completes take the session to that of the longer text. -/
theorem Reading.handle {s₁ : Session} (h : Reading runtime port bytes f s)
    (hnoExpect : ∀ line ∈ (splitLines newline (bytes ++ data)).1, NoExpectLine line)
    (hlines : (Session.start (port.withUnread [])).lines runtime
      (splitLines newline (bytes ++ data)).1 = .ok s₁)
    (unread : List (List UInt8)) (previousByte : Option UInt8) :
    { f.withUnread unread with previousByte := previousByte }.handle runtime data
      = .ok { session := s₁.withUnread unread, pending := (splitLines newline (bytes ++ data)).2,
              previousByte := previousByte, output := f.output } := by
  have hstart := Session.start_noExpect (port.withUnread [])
  have hold := h.lines
  rw [splitLines_append] at hnoExpect hlines ⊢
  have hsame : { (f.withUnread unread).session with expectedReset := none }
      = s.withUnread unread := by
    show { f.session.withUnread unread with expectedReset := none } = s.withUnread unread
    rw [h.session, Session.withUnread, Session.withUnread, ← h.expectedReset]
    rfl
  have hbefore := Session.lines_withUnread hstart
    (fun line hline => hnoExpect line (List.mem_append_left _ hline)) unread hold
  have hafter := Session.lines_withUnread hstart hnoExpect unread hlines
  rw [Session.lines_append, hbefore] at hafter
  change (s.withUnread unread).lines runtime _ = _ at hafter
  unfold Forward.handle
  dsimp only
  rw [hsame, show (f.withUnread unread).pending = _ from h.pending, hafter]
  rfl

/-- A read of text: the loop goes on behind it, or a reset is expected. -/
theorem Reading.text {s₁ : Session} (h : Reading runtime port bytes f s) (hdata : 0 ∉ data)
    (hnoExpect : ∀ line ∈ (splitLines newline (bytes ++ data)).1, NoExpectLine line)
    (hlines : (Session.start (port.withUnread [])).lines runtime
      (splitLines newline (bytes ++ data)).1 = .ok s₁)
    (unread : List (List UInt8)) :
    ∃ f₁ : Forward, f₁.session = s₁.withUnread unread ∧ f₁.output = bytes ++ data ∧
      (s₁.expectedReset = none → (f.withUnread unread).read runtime data = .running f₁ ∧
        Reading runtime port (bytes ++ data) f₁ s₁) ∧
      ∀ argument, s₁.expectedReset = some argument →
        (f.withUnread unread).read runtime data = f₁.complete runtime argument := by
  have hhandle := h.handle hnoExpect hlines unread (data.getLast?.or f.previousByte)
  have hlast : data.getLast?.or f.previousByte = (bytes ++ data).getLast? := by
    rw [h.previousByte, List.getLast?_append]
  have hread : (f.withUnread unread).read runtime data
      = { f.withUnread unread with previousByte := data.getLast?.or f.previousByte }.text runtime
          data := by
    rw [Forward.read, show (f.withUnread unread).previousByte = f.previousByte from rfl,
      scan_clean hdata]
  refine ⟨{ session := s₁.withUnread unread, pending := (splitLines newline (bytes ++ data)).2,
            previousByte := data.getLast?.or f.previousByte, output := bytes ++ data },
    rfl, rfl, fun hnone => ⟨?_, ?_⟩, fun argument hsome => ?_⟩
  · rw [hread, Forward.text, hhandle, ← h.output]
    dsimp only
    rw [show (s₁.withUnread unread).expectedReset = none from hnone]
  · exact ⟨by simp [h.no_nul, hdata], rfl, hlast, rfl, hlines, hnone, rfl⟩
  · rw [hread, Forward.text, hhandle, ← h.output]
    dsimp only
    rw [show (s₁.withUnread unread).expectedReset = some argument from hsome]

/-- A read with the NUL: the text before it is handled, and the loop ends. -/
theorem Reading.finish {s₁ : Session} (h : Reading runtime port bytes f s) (hdata : 0 ∉ data)
    (hnewline : (bytes ++ data).getLast? = some newline)
    (hnoExpect : ∀ line ∈ (splitLines newline (bytes ++ data)).1, NoExpectLine line)
    (hlines : (Session.start (port.withUnread [])).lines runtime
      (splitLines newline (bytes ++ data)).1 = .ok s₁)
    (unread : List (List UInt8)) (rest : List UInt8) :
    ((f.withUnread unread).read runtime (data ++ 0 :: rest)).observe
      = if s₁.block ≠ none then s₁.observe (.raised .unfinishedBlock) bytes
        else s₁.observe .returned (bytes ++ data) := by
  have hscan : data.getLast?.or f.previousByte = some newline := by
    rw [h.previousByte, ← List.getLast?_append, hnewline]
  have hhandle := h.handle hnoExpect hlines unread (some newline)
  rw [Forward.read, show (f.withUnread unread).previousByte = f.previousByte from rfl,
    scan_nul hdata rest _ 0 hscan]
  dsimp only
  rw [Nat.zero_add, List.take_left, Forward.finish, hhandle]
  dsimp only
  rw [show (s₁.withUnread unread).block = s₁.block from rfl, h.output]
  split_ifs
  · rfl
  · rfl

/-! ## The expected reset -/

/-- Nothing is observed on a line that is silent. -/
theorem observeReset_silent (reads : Nat) {unread : List (List UInt8)} (h : unread.flatten = []) :
    (observeReset reads [] unread).1 = none := by
  induction reads generalizing unread with
  | zero => rfl
  | succ reads ih =>
      cases unread with
      | nil => rfl
      | cons data unread =>
          rw [List.flatten_cons, List.append_eq_nil_iff] at h
          obtain ⟨rfl, hunread⟩ := h
          have hsilent : ([] ++ [] : List UInt8).tails.any continuedMarker.isPrefixOf = false := by
            decide
          rw [observeReset, hsilent]
          exact ih hunread

theorem completeExpectedReset_silent {port' : Port} {argument written : List UInt8}
    {unread : List (List UInt8)} (hunread : unread.flatten = [])
    (h : completeExpectedReset runtime (port.withUnread []) argument = .ok (port', written)) :
    ∃ left, completeExpectedReset runtime (port.withUnread unread) argument
      = .ok (port'.withUnread left, written) := by
  unfold completeExpectedReset at h ⊢
  cases hfields : resetFields argument with
  | none =>
      rw [hfields] at h
      cases h
  | some fields =>
      obtain ⟨assertion, failures, name⟩ := fields
      rw [hfields] at h
      dsimp only at h ⊢
      cases hassertion : runtime.int assertion with
      | none =>
          rw [hassertion] at h
          cases h
      | some assertion' =>
          cases hfailures : runtime.int failures with
          | none =>
              rw [hassertion, hfailures] at h
              cases h
          | some failures' =>
              rw [hassertion, hfailures] at h
              dsimp only at h ⊢
              rw [sendHostData_withUnread] at h ⊢
              by_cases hcounts : assertion' ≤ 0 ∨ failures' < 0 ∨ failures' ≥ assertion'
              · rw [if_pos hcounts] at h
                cases h
              rw [if_neg hcounts] at h ⊢
              cases hsend : sendHostData runtime port expectedResetRelease "EXPECT_RESET" with
              | error raised =>
                  rw [hsend] at h
                  cases h
              | ok released =>
                  rw [hsend] at h
                  have hobserved : ∀ {reads : List (List UInt8)}, reads.flatten = [] →
                      ∃ left, observeReset runtime.observed [] (released.withUnread reads).unread
                        = (none, left) := fun hreads =>
                    ⟨_, Prod.ext (observeReset_silent _ hreads) rfl⟩
                  obtain ⟨left, hleft⟩ := hobserved hunread
                  obtain ⟨left', hleft'⟩ := hobserved List.flatten_nil
                  simp only [OnPort.withUnread, hleft, hleft'] at h ⊢
                  obtain ⟨rfl, rfl⟩ := Prod.mk.inj (Except.ok.inj h)
                  exact ⟨left, rfl⟩

/-- Nothing follows the line of an expected reset. -/
theorem DeviceStream.rest_of_reset {argument : List UInt8} (h : DeviceStream (bytes ++ rest))
    (hbytes : 0 ∉ bytes)
    (hlines : (Session.start port).lines runtime (splitLines newline bytes).1 = .ok s)
    (hreset : s.expectedReset = some argument) : rest = [] := by
  obtain ⟨line, hline, argument', hparse⟩ := Session.exists_resetLine hlines rfl hreset
  obtain ⟨before, after, hbefore⟩ := List.append_of_mem hline
  have hall := streamLines_append hbytes rest
  rw [hbefore, List.append_assoc, List.cons_append] at hall
  obtain ⟨hafter, hnul, hpending⟩ := h.reset_last _ line _ argument' hall hparse
  have hrest : 0 ∉ rest := fun hmem => hnul (List.mem_append_right _ hmem)
  rw [splitLines_append] at hpending
  rw [streamText_of_not_mem hrest] at hafter
  have hnil := eq_nil_of_splitLines newline (List.append_eq_nil_iff.mp hafter).2 hpending
  exact (List.append_eq_nil_iff.mp hnil).2

/-! ## All reads -/

theorem forwarded_running (hbytes : 0 ∉ bytes)
    (hlines : (Session.start (port.withUnread [])).lines runtime (splitLines newline bytes).1 = .ok s)
    (hreset : s.expectedReset = none) : forwarded runtime port bytes = s.observe .running bytes := by
  have htext := streamText_of_not_mem hbytes
  rw [← htext] at hlines
  rw [forwarded, show streamLines bytes = (splitLines newline (streamText bytes)).1 from rfl, hlines]
  dsimp only
  rw [if_neg hbytes, hreset, htext]

theorem forwarded_nul (hbytes : 0 ∉ bytes) (rest : List UInt8)
    (hlines : (Session.start (port.withUnread [])).lines runtime (splitLines newline bytes).1
      = .ok s) :
    forwarded runtime port (bytes ++ 0 :: rest)
      = if s.block ≠ none then s.observe (.raised .unfinishedBlock) bytes
        else s.observe .returned bytes := by
  have htext : streamText (bytes ++ 0 :: rest) = bytes := by
    rw [streamText_append hbytes, streamText_nul, List.append_nil]
  have hmem : 0 ∈ bytes ++ 0 :: rest := by simp
  rw [forwarded, show streamLines (bytes ++ 0 :: rest) = (splitLines newline bytes).1 by
    rw [streamLines, htext], hlines]
  dsimp only
  rw [if_pos hmem, htext]

theorem forwarded_reset {argument written : List UInt8} {port' : Port} (hbytes : 0 ∉ bytes)
    (hlines : (Session.start (port.withUnread [])).lines runtime (splitLines newline bytes).1 = .ok s)
    (hreset : s.expectedReset = some argument)
    (hcomplete : completeExpectedReset runtime s.port argument = .ok (port', written)) :
    forwarded runtime port bytes
      = { s with port := port' }.observe .returned (bytes ++ written) := by
  have htext := streamText_of_not_mem hbytes
  rw [← htext] at hlines
  rw [forwarded, show streamLines bytes = (splitLines newline (streamText bytes)).1 from rfl, hlines]
  dsimp only
  rw [if_neg hbytes, hreset]
  dsimp only
  rw [hcomplete, htext]

theorem Observation.Agrees.of_eq {seen expected : Observation} (h : seen = expected) :
    seen.Agrees expected := by
  subst h
  exact ⟨rfl, rfl, rfl, rfl, fun _ => rfl⟩

theorem Reading.withUnread (h : Reading runtime port bytes f s) (unread : List (List UInt8)) :
    Reading runtime port bytes (f.withUnread unread) s :=
  ⟨h.no_nul, h.pending, h.previousByte, h.output, h.lines, h.expectedReset, by
    show f.session.withUnread unread = s.withUnread unread
    rw [h.session]
    rfl⟩

/-- A pass that does not go on is the last. -/
theorem forwardOutput_last {passes : Nat} (h : (f.pass runtime).observe.status ≠ .running) :
    forwardOutput runtime (passes + 1) f = f.pass runtime := by
  rw [Output.forwardOutput]
  cases hpass : f.pass runtime with
  | running f' =>
      rw [hpass] at h
      exact absurd rfl h
  | returned f' => rfl
  | raised error f' => rfl

/-- The read with the NUL is the last, whatever follows the NUL. -/
theorem Reading.read_nul {behind : List UInt8} (hstream : DeviceStream (bytes ++ (data ++ behind)))
    (hok : HostCommandsSucceed runtime port (bytes ++ (data ++ behind)))
    (h : Reading runtime port bytes f s) (hnul : 0 ∈ data) (unread : List (List UInt8))
    (more : List UInt8) :
    ((f.withUnread unread).read runtime data).observe.status ≠ .running ∧
      ((f.withUnread unread).read runtime data).observe.Agrees
        (forwarded runtime port (bytes ++ (data ++ more))) := by
  obtain ⟨text, rest, rfl, htext⟩ := List.eq_append_cons_of_mem hnul
  have hall : 0 ∉ bytes ++ text := by simp [h.no_nul, htext]
  have hassoc : ∀ behind : List UInt8, bytes ++ (text ++ 0 :: rest ++ behind)
      = (bytes ++ text) ++ 0 :: (rest ++ behind) := fun behind => by simp
  rw [hassoc] at hstream hok
  obtain ⟨s₁, hs₁⟩ := hok.lines_of_prefix hall
  have hlast := h.finish htext (hstream.newline_nul _ _ rfl hall) (hstream.noExpect_of_prefix hall)
    hs₁ unread rest
  rw [hassoc, forwarded_nul hall _ hs₁, hlast]
  by_cases hblock : s₁.block = none
  · rw [if_neg (not_not.mpr hblock), if_neg (not_not.mpr hblock)]
    exact ⟨fun hrunning => (by cases hrunning), .of_eq rfl⟩
  · rw [if_pos hblock, if_pos hblock]
    exact ⟨fun hrunning => (by cases hrunning), rfl, rfl, rfl, rfl, fun hreturned =>
      absurd rfl (hreturned .unfinishedBlock)⟩

/-- The read that completes the line of an expected reset is the last. -/
theorem Reading.read_reset {s₁ : Session} {argument : List UInt8} {unread : List (List UInt8)}
    (hok : HostCommandsSucceed runtime port (bytes ++ data))
    (hnoExpect : ∀ line ∈ (splitLines newline (bytes ++ data)).1, NoExpectLine line)
    (h : Reading runtime port bytes f s) (hdata : 0 ∉ data) (hsilent : unread.flatten = [])
    (hlines : (Session.start (port.withUnread [])).lines runtime
      (splitLines newline (bytes ++ data)).1 = .ok s₁)
    (hreset : s₁.expectedReset = some argument) :
    ((f.withUnread unread).read runtime data).observe.status ≠ .running ∧
      ((f.withUnread unread).read runtime data).observe
        = forwarded runtime port (bytes ++ data) := by
  obtain ⟨f₁, hsession, houtput, -, hcomplete⟩ := h.text hdata hnoExpect hlines unread
  have hall : 0 ∉ bytes ++ data := by simp [h.no_nul, hdata]
  obtain ⟨final, hfinal, hsucceeds⟩ := hok
  rw [streamLines, streamText_of_not_mem hall] at hfinal
  obtain rfl := Except.ok.inj (hlines.symm.trans hfinal)
  obtain ⟨⟨port', written⟩, hcompleted⟩ := hsucceeds argument hreset
  have hport : s₁.port = s₁.port.withUnread [] := by
    have hsame := Session.lines_withUnread (Session.start_noExpect _) hnoExpect [] hlines
    exact congrArg Session.port (Except.ok.inj (hlines.symm.trans hsame))
  obtain ⟨left, hleft⟩ := completeExpectedReset_silent hsilent (hport ▸ hcompleted)
  rw [hcomplete argument hreset, Forward.complete, hsession,
    show (s₁.withUnread unread).port = s₁.port.withUnread unread from rfl, hleft,
    forwarded_reset hall hlines hreset hcompleted, ← houtput]
  exact ⟨fun hrunning => (by cases hrunning), rfl⟩

/-- **The loop depends on the bytes it has read only.** -/
theorem Reading.forwardOutput (hstream : DeviceStream stream)
    (hok : HostCommandsSucceed runtime port stream) (h : Reading runtime port bytes f s)
    (hsplit : stream = bytes ++ f.session.port.unread.flatten) (passes : Nat) :
    (forwardOutput runtime passes f).observe.Agrees
      (forwarded runtime port (bytes ++ (f.session.port.unread.take passes).flatten)) := by
  induction passes generalizing bytes f s with
  | zero =>
      refine .of_eq ?_
      rw [List.take_zero, List.flatten_nil, List.append_nil,
        forwarded_running h.no_nul h.lines h.expectedReset]
      show f.session.observe .running f.output = _
      rw [h.session, h.output]
      rfl
  | succ passes ih =>
      cases hunread : f.session.port.unread with
      | nil =>
          have hpass : f.pass runtime = .running f := by rw [Forward.pass, hunread]
          have hrest := ih h hsplit
          rw [hunread, List.take_nil] at hrest
          rw [Output.forwardOutput, hpass, List.take_nil]
          exact hrest
      | cons data unread =>
          rw [hunread, List.flatten_cons] at hsplit
          rw [List.take_succ_cons, List.flatten_cons]
          by_cases hempty : data = []
          · subst hempty
            have hpass : f.pass runtime = .running (f.withUnread unread) := by
              rw [Forward.pass, hunread]
              exact if_pos rfl
            rw [Output.forwardOutput, hpass]
            exact ih (h.withUnread unread) hsplit
          have hpass : f.pass runtime = (f.withUnread unread).read runtime data := by
            rw [Forward.pass, hunread]
            exact if_neg hempty
          subst hsplit
          by_cases hnul : 0 ∈ data
          · obtain ⟨hlast, hagrees⟩ :=
              h.read_nul hstream hok hnul unread (unread.take passes).flatten
            rw [← hpass] at hlast hagrees
            rw [forwardOutput_last hlast]
            exact hagrees
          have hall : 0 ∉ bytes ++ data := by simp [h.no_nul, hnul]
          rw [← List.append_assoc] at hstream hok
          obtain ⟨s₁, hs₁⟩ := hok.lines_of_prefix hall
          have hnoExpect := hstream.noExpect_of_prefix hall
          cases hreset : s₁.expectedReset with
          | none =>
              obtain ⟨f₁, hsession, -, hmore, -⟩ := h.text hnul hnoExpect hs₁ unread
              obtain ⟨hread, hreading⟩ := hmore hreset
              have hleft : f₁.session.port.unread = unread := by
                rw [hsession]
                rfl
              have hrest := ih hreading (by rw [hleft, List.append_assoc])
              rw [Output.forwardOutput, hpass, hread, ← List.append_assoc, ← hleft]
              exact hrest
          | some argument =>
              have hsilent := hstream.rest_of_reset hall hs₁ hreset
              rw [hsilent, List.append_nil] at hok
              obtain ⟨hlast, hsame⟩ := h.read_reset hok hnoExpect hnul hsilent hs₁ hreset
              have htake : (unread.take passes).flatten = [] :=
                List.flatten_eq_nil_iff.mpr fun read hread =>
                  List.flatten_eq_nil_iff.mp hsilent read (List.mem_of_mem_take hread)
              rw [← hpass] at hlast hsame
              rw [forwardOutput_last hlast, htake, List.append_nil]
              exact .of_eq hsame

/-! ## Every splitting -/

/-- **`forward_output` does not depend on the reads.** However the stream is cut, after any number of passes
what can be seen is a function of the bytes read so far: whether it has returned, the output, the executed
commands and the port. Commands of a block are executed at its `END`, with the configuration at its
`BEGIN`. Where a block is open at the NUL, every splitting raises after the same commands. -/
theorem forwardOutput_splitting (runtime : Runtime) (port : Port) (stream : List UInt8)
    (hstream : DeviceStream stream) (hok : HostCommandsSucceed runtime port stream) :
    (∀ reads : List (List UInt8), reads.flatten = stream → ∀ passes,
      (forwardOutput runtime passes (Forward.start (port.withUnread reads))).observe.Agrees
        (forwarded runtime port (reads.take passes).flatten)) ∧
    ∀ (s : Session) (opening closing : List UInt8) (body : List (List UInt8)), s.block = none →
      parseHostCommand opening = some (beginCommand, []) →
      parseHostCommand closing = some (endCommand, []) → (∀ line ∈ body, PlainLine line) →
      s.lines runtime (opening :: body) = .ok
        { s with block := some ⟨body.filterMap parseHostCommand, s.port.configuration⟩ } ∧
      ∀ s', s.lines runtime (opening :: body ++ [closing]) = .ok s' →
        s'.block = none ∧ s'.executed = s.executed ++ (body.filterMap parseHostCommand).map
          fun command => (command, some s.port.configuration) := by
  refine ⟨fun reads hreads passes => ?_, fun s opening closing body hs hopening hclosing hbody =>
    ⟨Session.lines_open hs hopening hbody, fun s' => Session.lines_closed hs hopening hclosing hbody⟩⟩
  have hstart : Reading runtime port [] (Forward.start (port.withUnread reads))
      (Session.start (port.withUnread [])) :=
    ⟨List.not_mem_nil, rfl, rfl, rfl, rfl, rfl, rfl⟩
  exact hstart.forwardOutput hstream hok hreads.symm passes

/-- Bytes of a decimal number, for the example. -/
def decimal (text : List UInt8) : Option Int :=
  if !text.isEmpty && text.all (fun b => Nat.ble 48 b.toNat && Nat.ble b.toNat 57) then
    some (Int.ofNat (text.foldl (fun (value : Nat) b => 10 * value + (b.toNat - 48)) 0))
  else none

def exampleRuntime : Runtime where
  accepts := fun _ _ data => data.length
  int := decimal
  intLiteral := decimal
  loads := fun _ => none
  observed := 0

def examplePort : Port where
  configuration := { baudrate := 1625000, bytesize := 8, parity := .none, stopbits := 1 }
  written := []
  unread := []

/-- A block that changes the speed and restores it, and the end of the report. -/
def exampleStream : List UInt8 :=
  ascii "# HOST-CMD: BEGIN\n# HOST-CMD: BAUDRATE 9600\n# HOST-CMD: RESTORE\n# HOST-CMD: END\n1..0\n"
    ++ [0]

theorem forwardOutput_splitting_example :
    DeviceStream exampleStream ∧ HostCommandsSucceed exampleRuntime examplePort exampleStream ∧
    (∀ reads : List (List UInt8), reads.flatten = exampleStream → ∀ passes,
      (forwardOutput exampleRuntime passes
          (Forward.start (examplePort.withUnread reads))).observe.Agrees
        (forwarded exampleRuntime examplePort (reads.take passes).flatten)) := by
  have hstream : DeviceStream exampleStream := by
    refine ⟨fun text rest hsplit htext => ?_, by decide +kernel, ?_⟩
    · have htaken := streamText_append htext (0 :: rest)
      rw [← hsplit, streamText_nul, List.append_nil] at htaken
      rw [← htaken]
      decide +kernel
    · intro before line after argument hlines hparse
      have hnone : ∀ line ∈ streamLines exampleStream,
          (parseHostCommand line).map Prod.fst ≠ some expectResetCommand := by decide +kernel
      refine absurd ?_ (hnone line (by rw [hlines]; simp))
      rw [hparse]
      rfl
  have hok : HostCommandsSucceed exampleRuntime examplePort exampleStream := by
    refine ⟨{ port := examplePort, block := none, expectedReset := none, executed :=
      [((ascii "BAUDRATE", ascii "9600"), some examplePort.configuration),
        ((ascii "RESTORE", []), some examplePort.configuration)] }, by decide +kernel, ?_⟩
    intro argument hargument
    cases hargument
  exact ⟨hstream, hok, (forwardOutput_splitting _ _ _ hstream hok).1⟩

end Pmb887x.Boot.Output
