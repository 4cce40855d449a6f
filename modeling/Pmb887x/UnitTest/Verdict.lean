import Pmb887x.UnitTest.TapResult

set_option autoImplicit false

/-! # The verdict on a complete report and on its beginnings

What reaches the filter is the report, the lines of its end, and after an expected reset the lines that
the host adds. Only the result line can become the one the filter looks for. -/

namespace Pmb887x.UnitTest

open Library
open Boot.Output (ascii newline space)

/-! ## Complete reports -/

/-- The line with which the host reports the reset. -/
def resetLine (assertion : Nat) (name : Text) : Text :=
  ascii "ok " ++ unsigned assertion ++ ascii " - " ++ name

/-- The lines of a test up to its result line. -/
def Run.bodyLines (run : Run) : List Text :=
  match run.ending with
  | .finish => run.reportLines ++ [planLine run.state.assertions]
  | .expectReset name =>
      run.reportLines ++ [expectResetLine run.state name,
        resetLine (wrap32 (run.state.assertions + 1)) name,
        planLine (wrap32 (run.state.assertions + 1))]

/-- The result line: that of `test_finish`, or the one of the host, which has no colours. -/
def Run.lastLine (run : Run) : Text :=
  match run.ending with
  | .finish => resultLine (colours run.testColor) run.state.failures
  | .expectReset _ => resultLine (colours false) run.state.failures

/-- The complete output of a test on the host. -/
def Run.output (run : Run) : Text := unlines (run.bodyLines ++ [run.lastLine])

theorem Run.output_eq (run : Run) :
    run.output = unlines run.bodyLines ++ run.lastLine ++ [newline] := by
  rw [Run.output, unlines_append, unlines_cons, List.append_assoc]
  rfl

/-- The texts of the test. -/
def Run.texts (run : Run) : List Text :=
  [run.name, run.vendor, run.phone, run.cpu] ++ run.calls.flatMap Call.texts ++
    match run.ending with
    | .finish => []
    | .expectReset name => [name]

/-- The test as the statement about its verdict needs it: texts without newlines, none of which makes a
line that begins like the one the filter looks for. -/
structure Run.Proper (run : Run) : Prop where
  clean : ∀ text ∈ run.texts, Clean text
  lines : ∀ line ∈ run.reportLines, ¬ passLine <+: stripColours line

/-! ## The result line -/

/-- The result line without its colours. -/
def plainResult (failures : Nat) : Text :=
  ascii "# result: " ++ (ascii (if failures = 0 then "PASS" else "FAIL") ++ (ascii " (" ++
    (unsigned failures ++ ascii " failed)")))

theorem stripColours_colour (testColor : Bool) (more : Text) :
    stripColours ((colours testColor).green ++ more) = stripColours more ∧
      stripColours ((colours testColor).red ++ more) = stripColours more ∧
      stripColours ((colours testColor).reset ++ more) = stripColours more := by
  cases testColor with
  | false => exact ⟨rfl, rfl, rfl⟩
  | true =>
      have hgreen : (colours true).green = escape :: 91 :: ([51, 50] ++ 109 :: []) := by
        decide
      have hred : (colours true).red = escape :: 91 :: ([51, 49] ++ 109 :: []) := by decide
      have hreset : (colours true).reset = escape :: 91 :: ([48] ++ 109 :: []) := by decide
      refine ⟨?_, ?_, ?_⟩
      · rw [hgreen]
        exact stripColours_code (matchColour_append more (matchColour_of_eq (by decide +kernel) []))
      · rw [hred]
        exact stripColours_code (matchColour_append more (matchColour_of_eq (by decide +kernel) []))
      · rw [hreset]
        exact stripColours_code (matchColour_append more (matchColour_of_eq (by decide +kernel) []))

theorem stripColours_resultLine (testColor : Bool) (failures : Nat) :
    stripColours (resultLine (colours testColor) failures) = plainResult failures := by
  have hcolours := stripColours_colour testColor
  have hresult : escape ∉ ascii "# result: " := by decide +kernel
  have hopen : escape ∉ ascii " (" := by decide
  have hfailed : escape ∉ ascii " failed)" := by decide
  have hword : escape ∉ ascii (if failures = 0 then "PASS" else "FAIL") := by
    split_ifs
    · decide
    · decide
  have hcolour : ∀ more, stripColours ((if failures = 0 then (colours testColor).green
      else (colours testColor).red) ++ more) = stripColours more := by
    intro more
    split_ifs
    · exact (hcolours more).1
    · exact (hcolours more).2.1
  simp only [resultLine, List.append_assoc]
  rw [stripColours_plain_append hresult, hcolour, stripColours_plain_append hword,
    (hcolours _).2.2, stripColours_plain_append hopen,
    stripColours_plain_append (not_mem_unsigned (by decide) _), stripColours_plain hfailed]
  rfl

theorem plainResult_zero : plainResult 0 = passLine := by decide

/-- A line that begins with other characters than the one the filter looks for. -/
theorem not_pass_of_beginning {beginning text : Text} (hbeginning : escape ∉ beginning)
    (hlength : beginning.length ≤ passLine.length) (hother : ¬ beginning <+: passLine) :
    ¬ passLine <+: stripColours (beginning ++ text) := by
  intro hpass
  rw [stripColours_plain_append hbeginning] at hpass
  exact hother (List.prefix_of_prefix_length_le (List.prefix_append _ _) hpass hlength)

theorem not_pass_of_failures {failures : Nat} (h : failures ≠ 0) :
    ¬ passLine <+: plainResult failures := by
  intro hpass
  have hother : ¬ (ascii "# result: " ++ ascii "FAIL") <+: passLine := by decide
  rw [plainResult, if_neg h, ← List.append_assoc] at hpass
  exact hother (List.prefix_of_prefix_length_le (List.prefix_append _ _) hpass (by decide))

/-- A part of the result line does not become the whole. -/
theorem stripColours_result_part (testColor : Bool) : ∀ k < (resultLine (colours testColor) 0).length,
    stripColours ((resultLine (colours testColor) 0).take k) ≠ passLine := by
  cases testColor with
  | false => decide +kernel
  | true => decide +kernel

/-! ## The lines around it -/

/-- Every line of the calls is one of a call. -/
theorem mem_runCalls {c : Colours} {calls : List Call} {s : State} {line : Text}
    (h : line ∈ (runCalls c calls s).2) : ∃ call ∈ calls, ∃ s', line ∈ (call.run c s').2 := by
  have hfold : ∀ (printed : Printed), line ∈ (calls.foldl (fun (printed : Printed) call =>
      ((call.run c printed.1).1, printed.2 ++ (call.run c printed.1).2)) printed).2 →
      line ∈ printed.2 ∨ ∃ call ∈ calls, ∃ s', line ∈ (call.run c s').2 := by
    clear h
    induction calls with
    | nil => exact fun printed hline => .inl hline
    | cons call calls ih =>
        intro printed hline
        rcases ih _ hline with hbefore | ⟨later, hlater, hrest⟩
        · rcases List.mem_append.mp hbefore with hold | hnew
          · exact .inl hold
          · exact .inr ⟨call, List.mem_cons_self, printed.1, hnew⟩
        · exact .inr ⟨later, List.mem_cons_of_mem _ hlater, hrest⟩
  rcases hfold (s, []) h with hnil | hcall
  · cases hnil
  · exact hcall

namespace Run

variable {run : Run} (h : ∀ text ∈ run.texts, Clean text)

include h

theorem clean_start {text : Text} (htext : text ∈ [run.name, run.vendor, run.phone, run.cpu]) :
    Clean text :=
  h text (List.mem_append_left _ (List.mem_append_left _ htext))

theorem clean_startLines : ∀ line ∈ run.startLines, Clean line := by
  have hname : Clean run.name := clean_start h (by simp)
  have hvendor : Clean run.vendor := clean_start h (by simp)
  have hphone : Clean run.phone := clean_start h (by simp)
  have hcpu : Clean run.cpu := clean_start h (by simp)
  have hcolours := colours_clean run.testColor
  intro line hline
  simp only [Run.startLines, List.mem_cons, List.not_mem_nil, or_false] at hline
  rcases hline with rfl | rfl | rfl
  · exact clean_ascii (by decide)
  · exact coloured_clean hcolours hcolours.cyan hname
  · have hhardware : Clean (ascii "# Hardware: vendor=") := clean_ascii (by decide)
    have hphones : Clean (ascii ", phone=") := clean_ascii (by decide)
    have hcpus : Clean (ascii ", CPU=") := clean_ascii (by decide)
    have hrev : Clean (ascii " rev=") := clean_ascii (by decide)
    simp only [clean_append, hhardware, hphones, hcpus, hrev, hvendor, hphone, hcpu, clean_hex,
      and_self]

/-- The lines of the report have no newlines in them. -/
theorem clean_reportLines : ∀ line ∈ run.reportLines, Clean line := by
  intro line hline
  rcases List.mem_append.mp hline with hstart | hcalls
  · exact clean_startLines h line hstart
  · obtain ⟨call, hcall, s, hprinted⟩ := mem_runCalls hcalls
    refine call.run_clean (colours_clean _) (fun text htext => h text ?_) s line hprinted
    exact List.mem_append_left _ (List.mem_append_right _ (List.mem_flatMap.mpr ⟨call, hcall, htext⟩))

end Run

theorem Run.Proper.clean_reportLines {run : Run} (h : run.Proper) :
    ∀ line ∈ run.reportLines, Clean line := Run.clean_reportLines h.clean

theorem planLine_clean (n : Nat) : Clean (planLine n) :=
  clean_append.mpr ⟨clean_ascii (by decide), clean_unsigned n⟩

theorem resultLine_clean (testColor : Bool) (failures : Nat) :
    Clean (resultLine (colours testColor) failures) := by
  have hcolours := colours_clean testColor
  have hresult : Clean (ascii "# result: ") := clean_ascii (by decide)
  have hopen : Clean (ascii " (") := clean_ascii (by decide)
  have hfailed : Clean (ascii " failed)") := clean_ascii (by decide)
  have hcolour : Clean (if failures = 0 then (colours testColor).green else (colours testColor).red) := by
    split_ifs
    · exact hcolours.green
    · exact hcolours.red
  have hword : Clean (ascii (if failures = 0 then "PASS" else "FAIL")) := by
    split_ifs
    · exact clean_ascii (by decide)
    · exact clean_ascii (by decide)
  simp only [resultLine, clean_append, hresult, hcolour, hword, hcolours.reset, hopen,
    clean_unsigned, hfailed, and_self]

theorem expectResetLine_clean (s : State) {name : Text} (hname : Clean name) :
    Clean (expectResetLine s name) := by
  have hcommand : Clean (ascii "# HOST-CMD: EXPECT_RESET ") := clean_ascii (by decide)
  simp only [expectResetLine, clean_append, hcommand, clean_unsigned, clean_space, hname, and_self]

theorem resetLine_clean (assertion : Nat) {name : Text} (hname : Clean name) :
    Clean (resetLine assertion name) := by
  have hok : Clean (ascii "ok ") := clean_ascii (by decide)
  have hdash : Clean (ascii " - ") := clean_ascii (by decide)
  simp only [resetLine, clean_append, hok, hdash, clean_unsigned, hname, and_self]

/-- None of these lines has a newline, and none becomes the line the filter looks for. -/
structure NotPass (line : Text) : Prop where
  clean : Clean line
  other : ¬ passLine <+: stripColours line

theorem planLine_notPass (n : Nat) : NotPass (planLine n) where
  clean := planLine_clean n
  other := not_pass_of_beginning (by decide) (by decide) (by decide)

theorem expectResetLine_notPass (s : State) {name : Text} (hname : Clean name) :
    NotPass (expectResetLine s name) where
  clean := expectResetLine_clean s hname
  other := by
    have hcommand : ascii "# HOST-CMD: EXPECT_RESET "
        = ascii "# HOST-CMD: " ++ ascii "EXPECT_RESET " := by decide
    simp only [expectResetLine, hcommand, List.append_assoc]
    exact not_pass_of_beginning (by decide) (by decide) (by decide)

theorem resetLine_notPass (assertion : Nat) {name : Text} (hname : Clean name) :
    NotPass (resetLine assertion name) where
  clean := resetLine_clean assertion hname
  other := by
    simp only [resetLine, List.append_assoc]
    exact not_pass_of_beginning (by decide) (by decide) (by decide)

/-- Every line but the result line is no result line. -/
theorem Run.Proper.notPass_bodyLines {run : Run} (h : run.Proper) :
    ∀ line ∈ run.bodyLines, NotPass line := by
  have hreport : ∀ line ∈ run.reportLines, NotPass line := fun line hline =>
    ⟨h.clean_reportLines line hline, h.lines line hline⟩
  intro line hline
  rw [Run.bodyLines] at hline
  cases hending : run.ending with
  | finish =>
      rw [hending] at hline
      rcases List.mem_append.mp hline with hline | hline
      · exact hreport line hline
      · obtain rfl := List.mem_singleton.mp hline
        exact planLine_notPass _
  | expectReset name =>
      have hname : Clean name := by
        refine h.clean name (List.mem_append_right _ ?_)
        rw [hending]
        exact List.mem_singleton_self name
      rw [hending] at hline
      rcases List.mem_append.mp hline with hline | hline
      · exact hreport line hline
      · simp only [List.mem_cons, List.not_mem_nil, or_false] at hline
        rcases hline with rfl | rfl | rfl
        · exact expectResetLine_notPass _ hname
        · exact resetLine_notPass _ hname
        · exact planLine_notPass _

/-- The result line is that of the count of the failures, in some colours. -/
theorem Run.lastLine_eq (run : Run) :
    ∃ testColor, run.lastLine = resultLine (colours testColor) run.state.failures := by
  rw [Run.lastLine]
  cases run.ending with
  | finish => exact ⟨run.testColor, rfl⟩
  | expectReset name => exact ⟨false, rfl⟩

/-! ## The verdict -/

namespace Run.Proper

variable {run : Run} (h : run.Proper)

include h

theorem clean_lines : ∀ line ∈ run.bodyLines ++ [run.lastLine], Clean line := by
  intro line hline
  rcases List.mem_append.mp hline with hbody | hlast
  · exact (h.notPass_bodyLines line hbody).clean
  · obtain ⟨testColor, heq⟩ := run.lastLine_eq
    obtain rfl := List.mem_singleton.mp hlast
    exact heq ▸ resultLine_clean testColor _

theorem newline_free : ∀ line ∈ run.bodyLines ++ [run.lastLine], newline ∉ line :=
  fun line hline => (h.clean_lines line hline).1

/-- A record of a beginning of the output that becomes the line the filter looks for is of the result
line. -/
theorem record_of_pass {input record : Text} (hinput : input <+: run.output)
    (hrecord : record ∈ records input) (hpass : stripColours record = passLine) :
    record <+: run.lastLine := by
  obtain ⟨line, hline, hle⟩ := records_prefix h.newline_free hinput record hrecord
  rcases List.mem_append.mp hline with hbody | hlast
  · have hstrip := stripColours_of_start hle hpass (by decide)
    exact absurd hstrip (h.notPass_bodyLines line hbody).other
  · obtain rfl := List.mem_singleton.mp hlast
    exact hle

/-- **The filter accepts a complete report if its result is that of no failures.** -/
theorem tapResult_output : tapResult run.output = 0 ↔ run.state.failures = 0 := by
  obtain ⟨testColor, heq⟩ := run.lastLine_eq
  have hstrip : stripColours run.lastLine = plainResult run.state.failures := by
    rw [heq, stripColours_resultLine]
  have hrecords : records run.output = run.bodyLines ++ [run.lastLine] := by
    have hall := @records_unlines _ h.newline_free [] List.not_mem_nil
    rwa [List.append_nil, if_pos rfl, List.append_nil] at hall
  have hne : stripColours run.lastLine ≠ [] := by
    rw [hstrip, plainResult]
    simp [ascii]
  have hlast := lastLine_of_records hrecords hne
  rw [tapResult, hlast, hstrip]
  by_cases hfailures : run.state.failures = 0
  · rw [hfailures, plainResult_zero]
    simp
  · have hother : plainResult run.state.failures ≠ passLine := fun hpass =>
      not_pass_of_failures hfailures (hpass ▸ List.prefix_refl _)
    simp [hother, hfailures]

/-- **A failed report is not accepted at any point at which it is cut.** -/
theorem tapResult_failed (hfailures : run.state.failures ≠ 0) {input : Text}
    (hinput : input <+: run.output) : tapResult input = 1 := by
  refine tapResult_of_records fun record hrecord hpass => not_pass_of_failures hfailures ?_
  obtain ⟨testColor, heq⟩ := run.lastLine_eq
  rw [← stripColours_resultLine testColor, ← heq]
  exact stripColours_of_start (h.record_of_pass hinput hrecord hpass) hpass (by decide)

omit h in
/-- A part of the result line is not accepted. -/
theorem stripColours_lastLine_part {part rest : Text} (hpart : part ++ rest = run.lastLine)
    (hrest : rest ≠ []) (hfailures : run.state.failures = 0) : stripColours part ≠ passLine := by
  obtain ⟨testColor, heq⟩ := run.lastLine_eq
  rw [heq, hfailures] at hpart
  have hlength : part.length < (resultLine (colours testColor) 0).length := by
    rw [← hpart, List.length_append]
    exact Nat.lt_add_of_pos_right (List.length_pos_iff.mpr hrest)
  have htake : part = (resultLine (colours testColor) 0).take part.length := by
    rw [← hpart, List.take_left]
  rw [htake]
  exact stripColours_result_part testColor _ hlength

/-- **A report that lacks a part of its result line is not accepted.** -/
theorem tapResult_part {input rest : Text} (hsplit : input ++ rest = run.output) (hrest : rest ≠ [])
    (hnewline : rest ≠ [newline]) : tapResult input = 1 := by
  by_cases hfailures : run.state.failures ≠ 0
  · exact h.tapResult_failed hfailures ⟨rest, hsplit⟩
  rw [not_not] at hfailures
  have hbody : ∀ line ∈ run.bodyLines, newline ∉ line := fun line hline =>
    (h.notPass_bodyLines line hline).clean.1
  -- the rest ends with the newline of the result line, and has a piece of the line before it
  rcases List.eq_nil_or_concat' rest with rfl | ⟨piece, b, rfl⟩
  · exact absurd rfl hrest
  rw [run.output_eq, ← List.append_assoc] at hsplit
  obtain ⟨hcut, hb⟩ := List.append_inj' hsplit rfl
  have hpiece : piece ≠ [] := by
    intro hnil
    rw [hnil, hb] at hnewline
    exact hnewline rfl
  refine tapResult_of_records fun record hrecord hpass => ?_
  rcases List.append_eq_append_iff.mp hcut with ⟨missing, hlines, -⟩ | ⟨part, rfl, hpart⟩
  · -- the cut is before the result line
    obtain ⟨line, hline, hle⟩ := records_prefix hbody ⟨missing, hlines.symm⟩ record hrecord
    exact (h.notPass_bodyLines line hline).other (stripColours_of_start hle hpass (by decide))
  · have hnl : newline ∉ part := fun hmem =>
      h.newline_free run.lastLine (List.mem_append_right _ List.mem_cons_self)
        (hpart ▸ List.mem_append_left _ hmem)
    rw [records_unlines hbody hnl] at hrecord
    rcases List.mem_append.mp hrecord with hline | hlast
    · exact (h.notPass_bodyLines record hline).other (hpass ▸ List.prefix_refl _)
    · split_ifs at hlast
      · cases hlast
      · obtain rfl := List.mem_singleton.mp hlast
        exact stripColours_lastLine_part hpart.symm hpiece hfailures hpass

end Run.Proper

end Pmb887x.UnitTest
