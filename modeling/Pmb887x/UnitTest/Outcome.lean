import Pmb887x.UnitTest.Forwarded

set_option autoImplicit false

/-! # The verdict on what the host forwards

The report reaches the filter through `forward_output`; where the test expects a reset, the host adds the
last lines. -/

namespace Pmb887x.UnitTest

open Library
open Boot.Output

variable {runtime : Runtime} {port : Port}

/-! ## An expected reset -/

theorem observeReset_seen {reads : Nat} {before : Text} {unread left : List (List UInt8)} {continued : Text}
    (h : observeReset reads before unread = (some continued, left)) :
    ∃ seen, seen <+: unread.flatten ∧ continued = (before ++ seen).filter (· ≠ 0) := by
  induction reads generalizing before unread with
  | zero => cases h
  | succ reads ih =>
      cases unread with
      | nil => cases h
      | cons data unread =>
          rw [observeReset] at h
          rw [List.flatten_cons]
          split_ifs at h
          · obtain ⟨hcontinued, -⟩ := Prod.mk.inj h
            exact ⟨data, List.prefix_append _ _, (Option.some.inj hcontinued).symm⟩
          · obtain ⟨seen, hseen, hcontinued⟩ := ih h
            refine ⟨data ++ seen, (List.prefix_append_right_inj data).mpr hseen, ?_⟩
            rw [hcontinued, List.append_assoc]

theorem sendHostData_unread {data : Text} {command : String} {port' : Port}
    (h : sendHostData runtime port data command = .ok port') : port'.unread = port.unread := by
  unfold sendHostData at h
  dsimp only at h
  split_ifs at h
  obtain rfl := Except.ok.inj h
  rfl

/-- A completed reset writes its verdict. -/
theorem completeExpectedReset_ok {argument written : Text} {port' : Port}
    (h : completeExpectedReset runtime port argument = .ok (port', written)) :
    ∃ assertion failures name a b, resetFields argument = some (assertion, failures, name) ∧
      runtime.int assertion = some a ∧ runtime.int failures = some b ∧
      written = resetVerdict a b name := by
  unfold completeExpectedReset at h
  split at h
  · cases h
  next assertion failures name hfields =>
  split at h
  · next a b ha hb =>
    split_ifs at h
    split at h
    · cases h
    · split at h
      · cases h
      · obtain ⟨-, rfl⟩ := Prod.mk.inj (Except.ok.inj h)
        exact ⟨assertion, failures, name, a, b, hfields, ha, hb, rfl⟩
  · cases h

/-- A reset that is not completed writes what was seen of the test behind it, without the NULs. -/
theorem completeExpectedReset_error {argument written : Text} {error : HostError} {port' : Port}
    (h : completeExpectedReset runtime port argument = .error (error, port', written)) :
    ∃ seen, seen <+: port.unread.flatten ∧ written = seen.filter (· ≠ 0) := by
  have hnothing : ∃ seen, seen <+: port.unread.flatten ∧ ([] : Text) = seen.filter (· ≠ 0) :=
    ⟨[], List.nil_prefix, rfl⟩
  unfold completeExpectedReset at h
  split at h
  · cases h
    exact hnothing
  split at h
  · split_ifs at h
    · cases h
      exact hnothing
    split at h
    · cases h
      exact hnothing
    · next released hsend =>
      split at h
      · next continued unread hobserved =>
        cases h
        obtain ⟨seen, hseen, hwritten⟩ := observeReset_seen hobserved
        rw [sendHostData_unread hsend] at hseen
        exact ⟨seen, hseen, hwritten⟩
      · cases h
  · cases h
    exact hnothing

theorem partitionSpace_append {field : Text} (h : space ∉ field) (rest : Text) :
    partitionSpace (field ++ space :: rest) = (field, rest) := by
  have hfield : ∀ b ∈ field, (decide (b ≠ space)) = true := fun b hb =>
    decide_eq_true fun heq => h (heq ▸ hb)
  rw [partitionSpace, List.takeWhile_append_of_pos hfield, List.dropWhile_append_of_pos hfield]
  simp

/-- The argument of the host command. -/
def resetArgument (s : State) (name : Text) : Text :=
  unsigned (wrap32 (s.assertions + 1)) ++ space :: (unsigned s.failures ++ space :: name)

theorem parseHostCommand_expectResetLine (s : State) (name : Text) :
    parseHostCommand (expectResetLine s name) = some (expectResetCommand, resetArgument s name) := by
  have hline : expectResetLine s name
      = hostCommandPrefix ++ (expectResetCommand ++ space :: resetArgument s name) := by
    have hcommand : ascii "# HOST-CMD: EXPECT_RESET "
        = hostCommandPrefix ++ (expectResetCommand ++ [space]) := by decide
    rw [expectResetLine, hcommand, resetArgument]
    simp only [List.append_assoc, List.cons_append, List.nil_append]
  have hcommand : space ∉ expectResetCommand := by decide
  have hstart : hostCommandPrefix.isPrefixOf (expectResetLine s name) = true := by
    rw [hline, List.isPrefixOf_iff_prefix]
    exact List.prefix_append _ _
  rw [parseHostCommand, if_pos hstart, hline, List.drop_left, partitionSpace_append hcommand]

theorem resetFields_resetArgument {s : State} {name : Text} {fields : Text × Text × Text}
    (h : resetFields (resetArgument s name) = some fields) :
    fields = (unsigned (wrap32 (s.assertions + 1)), unsigned s.failures, name) := by
  have hfirst : partitionSpace (resetArgument s name) = (unsigned (wrap32 (s.assertions + 1)),
      unsigned s.failures ++ space :: name) := partitionSpace_append (not_mem_unsigned (by decide) _) _
  have hsecond := partitionSpace_append (not_mem_unsigned (b := space) (by decide) s.failures) name
  rw [resetFields, hfirst, hsecond] at h
  dsimp only at h
  split_ifs at h
  exact (Option.some.inj h).symm

/-- The lines of the host are those of a report without colours. -/
theorem resetVerdict_eq (assertion failures : Nat) (name : Text) :
    resetVerdict assertion failures name
      = unlines [resetLine assertion name, planLine assertion, resultLine (colours false) failures] := by
  have hcast : ∀ n : Nat, ascii (toString (n : Int)) = unsigned n := fun n => rfl
  have hcolour : (if failures = 0 then (colours false).green else (colours false).red) = [] := by
    split_ifs
    · rfl
    · rfl
  have hword : (if (failures : Int) = 0 then "PASS" else "FAIL")
      = if failures = 0 then "PASS" else "FAIL" := by
    simp only [Int.natCast_eq_zero]
  have hreset : (colours false).reset = [] := rfl
  rw [resetVerdict, hcast, hcast, hword]
  simp only [unlines, List.flatMap_cons, List.flatMap_nil, resetLine, planLine, resultLine, hcolour,
    hreset, List.append_assoc, List.append_nil]

/-! ## The report on the output -/

/-- The reads of the host: the text of the test in any pieces, and behind it the completion byte, or what
the device sends once the host has seen the line of the expected reset. -/
def Run.Reads (run : Run) (reads : List (List UInt8)) : Prop :=
  match run.ending with
  | .finish => ∃ behind, reads.flatten = run.text ++ 0 :: behind
  | .expectReset _ => ∃ before after, reads = before ++ after ∧ before.flatten = run.text

theorem following_start (port : Port) (reads : List (List UInt8)) :
    Following [] (Forward.start (port.withUnread reads)) :=
  ⟨List.not_mem_nil, rfl, rfl, rfl, Session.start_noExpect _⟩

theorem unlines_clean {lines : List Text} (hlines : ∀ line ∈ lines, Clean line) : 0 ∉ unlines lines := by
  intro hmem
  obtain ⟨line, hline, hb⟩ := List.mem_flatMap.mp hmem
  rcases List.mem_append.mp hb with hin | hend
  · exact (hlines line hline).2 hin
  · cases List.mem_singleton.mp hend

/-- A line that begins otherwise is no host command. -/
theorem reportLine_of_beginning {beginning line : Text} (hlength : beginning.length ≤ hostCommandPrefix.length)
    (hother : ¬ beginning <+: hostCommandPrefix) : ReportLine (beginning ++ line) := by
  have hnone : parseHostCommand (beginning ++ line) = none := by
    rw [parseHostCommand, if_neg]
    rw [List.isPrefixOf_iff_prefix]
    exact fun hstart => hother
      (List.prefix_of_prefix_length_le (List.prefix_append _ _) hstart hlength)
  rw [ReportLine, NoExpectLine, hnone]
  constructor
  · intro h
    cases h
  · intro h
    cases h

theorem planLine_reportLine (n : Nat) : ReportLine (planLine n) :=
  reportLine_of_beginning (by decide) (by decide)

theorem resultLine_reportLine (testColor : Bool) (failures : Nat) :
    ReportLine (resultLine (colours testColor) failures) := by
  simp only [resultLine, List.append_assoc]
  exact reportLine_of_beginning (by decide) (by decide)

theorem Run.text_finish (run : Run) (hending : run.ending = .finish) : run.text = run.output := by
  rw [Run.text, Run.output, Run.endLines, Run.bodyLines, Run.lastLine, hending, List.append_assoc]
  rfl

/-- The lines of a test that expects a reset. -/
def Run.resetLines (run : Run) (name : Text) : List Text :=
  run.reportLines ++ [expectResetLine run.state name]

theorem Run.text_resetLines (run : Run) {name : Text} (hending : run.ending = .expectReset name) :
    run.text = unlines (run.resetLines name) := by
  rw [Run.text, Run.endLines, hending, Run.resetLines]

theorem Run.Proper.notPass_resetLines {run : Run} (h : run.Proper) {name : Text}
    (hending : run.ending = .expectReset name) : ∀ line ∈ run.resetLines name, NotPass line := by
  intro line hline
  refine h.notPass_bodyLines line ?_
  rw [Run.bodyLines, hending]
  rcases List.mem_append.mp hline with hline | hline
  · exact List.mem_append_left _ hline
  · obtain rfl := List.mem_singleton.mp hline
    exact List.mem_append_right _ List.mem_cons_self

namespace Run.Proper

variable {run : Run} (h : run.Proper) (hreport : ∀ line ∈ run.reportLines, ReportLine line)

include h hreport

/-- **A test that finishes is forwarded in full.** -/
theorem output_finish (hending : run.ending = .finish) {reads : List (List UInt8)} {behind : Text}
    (hreads : reads.flatten = run.text ++ 0 :: behind) {passes : Nat} {f : Forward}
    (hreturned : forwardOutput runtime passes (Forward.start (port.withUnread reads)) = .returned f) :
    f.output = run.output := by
  have hlines : ∀ line ∈ run.bodyLines ++ [run.lastLine], ReportLine line := by
    rw [Run.bodyLines, Run.lastLine, hending]
    intro line hline
    simp only [List.mem_append, List.mem_singleton] at hline
    rcases hline with (hline | rfl) | rfl
    · exact hreport line hline
    · exact planLine_reportLine _
    · exact resultLine_reportLine _ _
  rw [run.text_finish hending] at hreads
  refine (following_start port reads).forwardOutput_finish hreads ?_ ?_ ?_ hreturned
  · exact unlines_clean h.clean_lines
  · rw [run.output_eq, List.getLast?_append]
    rfl
  · rw [Run.output, splitLines_unlines h.newline_free]
    exact hlines

/-- How a test that expects a reset is forwarded. -/
theorem forwardOutput_reset {name : Text} (hending : run.ending = .expectReset name)
    {before after : List (List UInt8)} (hbefore : before.flatten = run.text) (passes : Nat) :
    (∃ f : Forward, forwardOutput runtime passes (Forward.start (port.withUnread (before ++ after)))
      = .running f) ∨
    (∃ error, ∃ f : Forward, forwardOutput runtime passes
      (Forward.start (port.withUnread (before ++ after))) = .raised error f ∧ f.output <+: run.text) ∨
    ∃ (f : Forward) (left : List (List UInt8)), f.output = run.text ∧ left.flatten = [] ∧
      f.session.port.unread = left ++ after ∧
      forwardOutput runtime passes (Forward.start (port.withUnread (before ++ after)))
        = f.complete runtime (resetArgument run.state name) := by
  have hclean : ∀ line ∈ run.resetLines name, Clean line := fun line hline =>
    (h.notPass_resetLines hending line hline).clean
  have hne : before.flatten ≠ [] := by
    rw [hbefore, run.text_resetLines hending, Run.resetLines, unlines_append, unlines_cons]
    simp
  rw [run.text_resetLines hending] at hbefore ⊢
  rcases (following_start port (before ++ after)).forwardOutput_reset rfl hbefore hne
    (unlines_clean hclean) (fun line hline => (hclean line hline).1) hreport
    (parseHostCommand_expectResetLine _ _) passes with hrunning | hraised | ⟨f, left, hf, hrest⟩
  · exact .inl hrunning
  · exact .inr (.inl hraised)
  · exact .inr (.inr ⟨f, left, hf.output, hrest⟩)

/-- **A test whose reset comes in time is forwarded in full, and gets its result from the host.** -/
theorem output_reset (hint : ∀ n : Nat, runtime.int (unsigned n) = some (n : Int)) {name : Text}
    (hending : run.ending = .expectReset name) {before after : List (List UInt8)}
    (hbefore : before.flatten = run.text) {passes : Nat} {f : Forward}
    (hreturned : forwardOutput runtime passes (Forward.start (port.withUnread (before ++ after)))
      = .returned f) : f.output = run.output := by
  rcases h.forwardOutput_reset hreport hending hbefore passes with
    ⟨f₁, heq⟩ | ⟨error, f₁, heq, -⟩ | ⟨f₁, left, houtput, -, -, heq⟩
  · cases heq.symm.trans hreturned
  · cases heq.symm.trans hreturned
  · rw [heq, Forward.complete] at hreturned
    split at hreturned
    · next port' written hcompleted =>
      obtain rfl := Outcome.returned.inj hreturned
      obtain ⟨assertion, failures, name', a, b, hfields, ha, hb, rfl⟩ :=
        completeExpectedReset_ok hcompleted
      have hsame := resetFields_resetArgument hfields
      simp only [Prod.mk.injEq] at hsame
      obtain ⟨rfl, rfl, rfl⟩ := hsame
      obtain rfl := Option.some.inj (ha.symm.trans (hint _))
      obtain rfl := Option.some.inj (hb.symm.trans (hint _))
      show f₁.output ++ _ = _
      rw [houtput, resetVerdict_eq, Run.text, Run.endLines, Run.output, Run.bodyLines, Run.lastLine,
        hending, ← unlines_append]
      simp only [List.append_assoc, List.cons_append, List.nil_append]
    · cases hreturned

/-- **A test whose reset is not completed is not accepted.** -/
theorem tapResult_late {name : Text} (hending : run.ending = .expectReset name)
    {before after : List (List UInt8)} (hbefore : before.flatten = run.text)
    (hafter : ∀ line ∈ records (after.flatten.filter (· ≠ 0)), ¬ passLine <+: stripColours line)
    {passes : Nat} {error : HostError} {f : Forward}
    (hraised : forwardOutput runtime passes (Forward.start (port.withUnread (before ++ after)))
      = .raised error f) : tapResult f.output = 1 := by
  have htext := run.text_resetLines hending
  have hlines := h.notPass_resetLines hending
  refine tapResult_of_records fun record hrecord hpass => ?_
  rcases h.forwardOutput_reset hreport hending hbefore passes with
    ⟨f₁, heq⟩ | ⟨error', f₁, heq, hpart⟩ | ⟨f₁, left, houtput, hleft, hunread, heq⟩
  · cases heq.symm.trans hraised
  · obtain ⟨-, rfl⟩ := Outcome.raised.inj (heq.symm.trans hraised)
    rw [htext] at hpart
    obtain ⟨line, hline, hle⟩ :=
      records_prefix (fun line hline => (hlines line hline).clean.1) hpart record hrecord
    exact (hlines line hline).other (stripColours_of_start hle hpass (by decide))
  · rw [heq, Forward.complete] at hraised
    split at hraised
    · cases hraised
    · next error' port' written hcompleted =>
      obtain ⟨-, rfl⟩ := Outcome.raised.inj hraised
      obtain ⟨seen, hseen, rfl⟩ := completeExpectedReset_error hcompleted
      rw [hunread, List.flatten_append, hleft, List.nil_append] at hseen
      change record ∈ records (f₁.output ++ _) at hrecord
      rw [houtput, htext, records_unlines_append fun line hline => (hlines line hline).clean.1]
        at hrecord
      rcases List.mem_append.mp hrecord with hline | hbehind
      · exact (hlines record hline).other (hpass ▸ List.prefix_refl _)
      · obtain ⟨line, hline, hle⟩ := records_prefix_records (hseen.filter _) record hbehind
        exact hafter line hline (stripColours_of_start hle hpass (by decide))

end Run.Proper

/-! ## The verdict -/

theorem Run.failures_eq_zero {run : Run} (hcount : run.calls.countP Call.fails < 2 ^ 32) :
    run.state.failures = 0 ↔ ∀ call ∈ run.calls, call.fails = false := by
  rw [run.state_failures, wrap32_of_lt hcount, List.countP_eq_zero]
  simp only [Bool.not_eq_true]

/-- **The verdict is that of the test.** For a test whose host commands neither read the port nor expect a
reset before its end, the filter accepts the complete output if no assertion failed; it does not accept an
output without its whole result line, nor any part of one in which an assertion failed, nor one of a test
that goes on behind an expected reset. -/
theorem tapResult_forwarded (runtime : Runtime)
    (hint : ∀ n : Nat, runtime.int (unsigned n) = some (n : Int)) (run : Run) (hproper : run.Proper)
    (hreport : ∀ line ∈ run.reportLines, ReportLine line)
    (hcount : run.calls.countP Call.fails < 2 ^ 32) :
    (∀ (port : Port) (reads : List (List UInt8)) (passes : Nat) (f : Forward), run.Reads reads →
      forwardOutput runtime passes (Forward.start (port.withUnread reads)) = .returned f →
      f.output = run.output ∧
        (tapResult f.output = 0 ↔ ∀ call ∈ run.calls, call.fails = false)) ∧
    (∀ (port : Port) (before after : List (List UInt8)) (passes : Nat) (error : HostError) (f : Forward)
      (name : Text), run.ending = .expectReset name → before.flatten = run.text →
      (∀ line ∈ records (after.flatten.filter (· ≠ 0)), ¬ passLine <+: stripColours line) →
      forwardOutput runtime passes (Forward.start (port.withUnread (before ++ after)))
        = .raised error f → tapResult f.output = 1) ∧
    (∀ part rest, part ++ rest = run.output → rest ≠ [] → rest ≠ [newline] → tapResult part = 1) ∧
    ((∃ call ∈ run.calls, call.fails = true) → ∀ part, part <+: run.output → tapResult part = 1) := by
  have hfailures := run.failures_eq_zero hcount
  refine ⟨fun port reads passes f hreads hreturned => ?_,
    fun port before after passes error f name hending hbefore hafter hraised =>
      hproper.tapResult_late hreport hending hbefore hafter hraised,
    fun part rest hsplit hrest hnewline => hproper.tapResult_part hsplit hrest hnewline,
    fun hfailed part hpart => hproper.tapResult_failed ?_ hpart⟩
  · have houtput : f.output = run.output := by
      rw [Run.Reads] at hreads
      cases hending : run.ending with
      | finish =>
          rw [hending] at hreads
          obtain ⟨behind, hbehind⟩ := hreads
          exact hproper.output_finish hreport hending hbehind hreturned
      | expectReset name =>
          rw [hending] at hreads
          obtain ⟨before, after, rfl, hbefore⟩ := hreads
          exact hproper.output_reset hreport hint hending hbefore hreturned
    rw [houtput, hproper.tapResult_output]
    exact ⟨rfl, hfailures⟩
  · obtain ⟨call, hcall, hfails⟩ := hfailed
    intro hzero
    rw [hfailures.mp hzero call hcall] at hfails
    cases hfails

/-- `int` reads a decimal number. -/
theorem decimal_unsigned (n : Nat) : decimal (unsigned n) = some (n : Int) := by
  have hdigits : (toString n).toList = Nat.toDigits 10 n := Nat.toList_repr
  have hall : ∀ ch ∈ Nat.toDigits 10 n, (UInt8.ofNat ch.toNat).toNat = ch.toNat := by
    intro ch hch
    have hrange := mem_toString (hdigits ▸ hch)
    rw [UInt8.toNat_ofNat', Nat.mod_eq_of_lt (by omega)]
  have hvalue : ∀ (chars : List Char) (value : Nat),
      (∀ ch ∈ chars, (UInt8.ofNat ch.toNat).toNat = ch.toNat) →
      (chars.map fun ch => UInt8.ofNat ch.toNat).foldl
        (fun (value : Nat) b => 10 * value + (b.toNat - 48)) value
        = Nat.ofDigitChars 10 chars value := by
    intro chars
    induction chars with
    | nil => exact fun value _ => Nat.ofDigitChars_nil.symm
    | cons ch chars ih =>
        intro value hchars
        obtain ⟨hch, hrest⟩ := List.forall_mem_cons.mp hchars
        rw [List.map_cons, List.foldl_cons, hch, Nat.ofDigitChars_cons]
        exact ih _ hrest
  have hne : (unsigned n).isEmpty = false := by
    rw [unsigned, ascii, List.isEmpty_map, hdigits, List.isEmpty_eq_false_iff]
    exact Nat.toDigits_ne_nil
  have hdecimal : (unsigned n).all (fun b => Nat.ble 48 b.toNat && Nat.ble b.toNat 57) = true := by
    rw [unsigned, ascii, hdigits, List.all_map, List.all_eq_true]
    intro ch hch
    have hrange := mem_toString (hdigits ▸ hch)
    simp only [Function.comp_apply, hall ch hch, Bool.and_eq_true, Nat.ble_eq]
    exact hrange
  rw [decimal, hne, hdecimal, Bool.not_false, Bool.and_self, if_pos rfl]
  rw [unsigned, ascii, hdigits, hvalue _ 0 hall, Nat.ofDigitChars_ten_toDigits]
  rfl

theorem exists_returned {o : Outcome} (h : o.observe.status = .returned) : ∃ f, o = .returned f := by
  cases o with
  | running f => cases h
  | returned f => exact ⟨f, rfl⟩
  | raised error f => cases h

/-- A test of the given calls. -/
def exampleRun (calls : List Call) (ending : Ending) : Run where
  testColor := true
  name := ascii "SCU watchdog reset test"
  vendor := ascii "SIEMENS"
  phone := ascii "EL71"
  cpu := ascii "PMB8876"
  revision := 0x10
  calls := calls
  ending := ending

def resetRun : Run :=
  exampleRun [.check (ascii "watchdog enters normal mode") true]
    (.expectReset (ascii "watchdog reset stops current execution"))

theorem tapResult_forwarded_reset :
    ∃ f : Forward, forwardOutput exampleRuntime 1 (Forward.start (examplePort.withUnread [resetRun.text]))
      = .returned f ∧ tapResult f.output = 0 := by
  have hclean : ∀ text ∈ resetRun.texts, Clean text := by decide
  have hlines : ∀ line ∈ resetRun.reportLines, ¬ passLine <+: stripColours line := by decide +kernel
  have hstatus : (forwardOutput exampleRuntime 1
      (Forward.start (examplePort.withUnread [resetRun.text]))).observe.status = .returned := by
    decide +kernel
  obtain ⟨f, hf⟩ := exists_returned hstatus
  have hreads : resetRun.Reads [resetRun.text] := ⟨[resetRun.text], [], rfl, List.flatten_singleton⟩
  have hverdict := (tapResult_forwarded exampleRuntime decimal_unsigned resetRun ⟨hclean, hlines⟩
    (by decide) (by decide)).1 examplePort [resetRun.text] 1 f hreads hf
  exact ⟨f, hf, hverdict.2.mpr (by decide)⟩

/-! ## Host commands in names, and a count that wraps -/

/-- The name of an assertion makes a line that the host takes for an `EXPECT_RESET`. -/
def commandRun : Run :=
  exampleRun [.check (ascii "x") false, .idU32 (ascii "HOST-CMD: EXPECT_RESET 2 0 y") 0 0] .finish

/-- A comment makes the host read the beginning of the result line itself. -/
def readingRun : Run := exampleRun [.comment (ascii "# HOST-CMD: EXPECT \"1..0\\n# \"")] .finish

/-- A test in which `n` assertions fail. -/
def failingRun (n : Nat) : Run := exampleRun (List.replicate n (.check (ascii "x") false)) .finish

theorem failingRun_proper (n : Nat) : (failingRun n).Proper where
  clean := by
    have hfixed : ∀ text ∈ (exampleRun [] .finish).texts ++ [ascii "x"], Clean text := by
      decide
    intro text htext
    refine hfixed text ?_
    rcases List.mem_append.mp htext with htext | hending
    · rcases List.mem_append.mp htext with hstart | hcalls
      · exact List.mem_append_left _ (List.mem_append_left _ (List.mem_append_left _ hstart))
      · obtain ⟨call, hcall, hname⟩ := List.mem_flatMap.mp hcalls
        rw [List.eq_of_mem_replicate hcall] at hname
        exact List.mem_append_right _ hname
    · cases hending
  lines := by
    have hfixed : ∀ line ∈ (exampleRun [] .finish).startLines, ¬ passLine <+: stripColours line := by
      decide +kernel
    intro line hline
    rcases List.mem_append.mp hline with hstart | hcalls
    · exact hfixed line hstart
    · obtain ⟨call, hcall, s, hprinted⟩ := mem_runCalls hcalls
      rw [List.eq_of_mem_replicate hcall] at hprinted
      obtain rfl := List.mem_singleton.mp hprinted
      simp only [report, List.append_assoc]
      exact not_pass_of_beginning (by decide +kernel) (by decide +kernel) (by decide +kernel)

/-- What is not so of other tests: with an `EXPECT_RESET` in a name a failed test is accepted, with an
`EXPECT` in a comment a test without failures is not, and a test with 2³² failures is accepted. -/
theorem tapResult_of_commands :
    (commandRun.Proper ∧ (∃ call ∈ commandRun.calls, call.fails = true) ∧
      ∃ reads : List (List UInt8), commandRun.Reads reads ∧
        ∃ f : Forward, forwardOutput exampleRuntime 1 (Forward.start (examplePort.withUnread reads))
          = .returned f ∧ tapResult f.output = 0) ∧
    (readingRun.Proper ∧ (∀ call ∈ readingRun.calls, call.fails = false) ∧
      ∃ reads : List (List UInt8), readingRun.Reads reads ∧
        ∃ f : Forward, forwardOutput
          { exampleRuntime with loads := fun _ => some (some (ascii "1..0\n# ")) } 2
          (Forward.start (examplePort.withUnread reads)) = .returned f ∧ tapResult f.output = 1) ∧
    ((failingRun (2 ^ 32)).Proper ∧ (∃ call ∈ (failingRun (2 ^ 32)).calls, call.fails = true) ∧
      tapResult (failingRun (2 ^ 32)).text = 0) := by
  have hcommand : commandRun.Proper := ⟨by decide +kernel, by decide +kernel⟩
  have hreading : readingRun.Proper := ⟨by decide +kernel, by decide +kernel⟩
  refine ⟨⟨hcommand, by decide, ?_⟩, ⟨hreading, by decide, ?_⟩,
    failingRun_proper _, ?_, ?_⟩
  · refine ⟨[unlines (commandRun.reportLines.take 5),
      unlines (commandRun.reportLines.drop 5 ++ commandRun.endLines) ++ [0]], ⟨[], by decide +kernel⟩, ?_⟩
    obtain ⟨f, hf⟩ := exists_returned (o := forwardOutput exampleRuntime 1 (Forward.start
      (examplePort.withUnread [unlines (commandRun.reportLines.take 5),
        unlines (commandRun.reportLines.drop 5 ++ commandRun.endLines) ++ [0]]))) (by decide +kernel)
    refine ⟨f, hf, ?_⟩
    rw [show f.output = (Outcome.returned f).observe.output from rfl, ← hf]
    decide +kernel
  · refine ⟨[unlines readingRun.reportLines, unlines readingRun.endLines ++ [0]],
      ⟨[], by decide +kernel⟩, ?_⟩
    obtain ⟨f, hf⟩ := exists_returned (o := forwardOutput
      { exampleRuntime with loads := fun _ => some (some (ascii "1..0\n# ")) } 2 (Forward.start
      (examplePort.withUnread [unlines readingRun.reportLines, unlines readingRun.endLines ++ [0]])))
      (by decide +kernel)
    refine ⟨f, hf, ?_⟩
    rw [show f.output = (Outcome.returned f).observe.output from rfl, ← hf]
    decide +kernel
  · exact ⟨_, List.mem_replicate.mpr ⟨by decide, rfl⟩, rfl⟩
  · have hfailures : (failingRun (2 ^ 32)).state.failures = 0 := by
      rw [Run.state_failures]
      show wrap32 ((List.replicate (2 ^ 32) (Call.check (ascii "x") false)).countP Call.fails) = 0
      rw [List.countP_replicate]
      decide
    rw [Run.text_finish _ rfl]
    exact (failingRun_proper _).tapResult_output.mpr hfailures

end Pmb887x.UnitTest
