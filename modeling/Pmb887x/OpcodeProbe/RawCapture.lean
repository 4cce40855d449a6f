import Pmb887x.OpcodeProbe.RawMap

set_option autoImplicit false

/-! # The capture of a raw probe

What `read_capture` of `merge_probe.pl` makes of the lines of a complete run: it finds the record of each
opcode, but the summary line of the device ends with a count that its pattern does not have. -/

namespace Pmb887x.OpcodeProbe.Raw

open Library UnitTest
open Boot.Output (ascii newline space)

/-- What the lines of the probe begin with. -/
def mark : Text := ascii "# DSPPROBE"

theorem mark_isMark : Mark mark where
  length := by decide
  start := by decide

/-- The record that `read_capture` makes of the line of an opcode. -/
def printedRecord (opcode : Nat) (o : Observation) : Text :=
  joinFields (hex 4 opcode :: o.outcome.name :: o.kept.words.map word)

/-! ## Lines that say nothing -/

variable {line : Text} {r : Reading}

theorem scan_foreign {pieces : List (Piece UInt8)} {text : Text} (htext : mark <+: text)
    (h : ¬ mark <+: line) : scan (.literal text :: pieces) line = none :=
  scan_literal_of_not fun hline => h (htext.trans hline)

theorem readPassed_newline (line : Text) (r : Reading) :
    readPassed (line ++ [newline]) r = if line = passLine then { r with passed := true } else r := by
  rw [readPassed, matchLine_newline, passPattern, scan_fixed]
  by_cases hline : line = passLine
  · rw [if_pos hline, if_pos rfl, if_pos hline]
  · have hnone : (none : Option (List Text)) ≠ some [] := by simp
    rw [if_neg hline, if_neg hnone, if_neg hline]

theorem readSummary_none (h : scan summaryPattern line = none) (r : Reading) :
    readSummary (line ++ [newline]) r = r := by
  rw [readSummary, matchLine_newline, h]

theorem readRecord_none (h : scan recordPattern line = none) (r : Reading) :
    readRecord (line ++ [newline]) r = .ok r := by
  rw [readRecord, matchLine_newline, h]

/-- A line that fits neither of the patterns. -/
theorem readLine_other (hpass : line ≠ passLine) (hsummary : scan summaryPattern line = none)
    (hrecord : scan recordPattern line = none) (r : Reading) :
    readLine r (line ++ [newline]) = .ok r := by
  rw [readLine, readPassed_newline, if_neg hpass, readSummary_none hsummary, readRecord_none hrecord]

theorem passive_ne_passLine {mark : Text} (h : Passive mark line) : line ≠ passLine := by
  rintro rfl
  exact h.noResult (by decide)

theorem readLine_passive (h : Passive mark line) (r : Reading) :
    readLine r (line ++ [newline]) = .ok r :=
  readLine_other (passive_ne_passLine h) (scan_foreign (by decide) h.foreign)
    (scan_foreign (by decide) h.foreign) r

theorem readLines_passive {lines : List Text} (h : ∀ line ∈ lines, Passive mark line) (r : Reading) :
    (lines.map fun line => line ++ [newline]).foldlM readLine r = .ok r := by
  induction lines with
  | nil => rfl
  | cons line lines ih =>
      obtain ⟨hline, hlines⟩ := List.forall_mem_cons.mp h
      rw [List.map_cons, List.foldlM_cons, readLine_passive hline]
      exact ih hlines

/-! ## The lines of an opcode -/

/-- A line of the probe that begins like none of those that are read. -/
theorem readLine_own {start : Text} (hpass : ¬ passLine <+: start ∧ ¬ start <+: passLine)
    (hsummary : ¬ ascii "# DSPPROBE-SUMMARY " <+: start ∧ ¬ start <+: ascii "# DSPPROBE-SUMMARY ")
    (hrecord : ¬ ascii "# DSPPROBE " <+: start ∧ ¬ start <+: ascii "# DSPPROBE ") (behind : Text)
    (r : Reading) : readLine r (start ++ behind ++ [newline]) = .ok r := by
  have hline : start ++ behind ≠ passLine := by
    intro h
    exact not_prefix_append hpass.1 hpass.2 behind (h ▸ List.prefix_refl _)
  exact readLine_other hline
    (scan_literal_of_not (not_prefix_append hsummary.1 hsummary.2 behind))
    (scan_literal_of_not (not_prefix_append hrecord.1 hrecord.2 behind)) r

/-- Words with a blank in front of each are read back. -/
theorem scan_spaced (w : UInt16) (words : List UInt16) :
    scan (.literal [space] :: hexWords (words.length + 1)) (spaced (w :: words))
      = some ((w :: words).map word) := by
  induction words generalizing w with
  | nil =>
      rw [spaced_cons, scan_literal, List.length_nil, Nat.zero_add, hexWords, scan_hexWord]
      rfl
  | cons w' words ih =>
      rw [spaced_cons, scan_literal, List.length_cons, hexWords, scan_hexWord, ih w']
      rfl

/-- The outcomes of the pattern. -/
theorem outcome_mem (o : Observation) : o.outcome.name ∈
    [ascii "complete", ascii "trap-complete", ascii "timeout", ascii "trap-timeout"] := by
  rw [Observation.outcome]
  split_ifs
  · decide
  · decide
  · decide
  · decide

theorem outcome_distinct : ∀ name ∈ [ascii "complete", ascii "trap-complete", ascii "timeout",
    ascii "trap-timeout"], ∀ word ∈ [ascii "complete", ascii "trap-complete", ascii "timeout",
    ascii "trap-timeout"], word ≠ name → ¬ word <+: name ∧ ¬ name <+: word := by
  decide +kernel

/-- The line of an opcode is read back. -/
theorem scan_recordLine {opcode : Nat} (h : opcode < 0x10000) (o : Observation) :
    scan recordPattern (recordLine opcode o)
      = some (hex 4 opcode :: o.outcome.name :: o.kept.words.map word) := by
  have hopcode := length_hex (k := 4) (by decide) h
  have hwords := scan_spaced o.kept.entered [o.kept.trap, o.kept.post, o.kept.done]
  have hline : recordLine opcode o = ascii "# DSPPROBE " ++ (hex 4 opcode ++ ([space] ++
      (o.outcome.name ++ spaced o.kept.words))) := by
    simp only [recordLine, List.append_assoc]
  have hpattern : recordPattern = .literal (ascii "# DSPPROBE ") :: hexWord :: .literal [space] ::
      .oneOf [ascii "complete", ascii "trap-complete", ascii "timeout", ascii "trap-timeout"] ::
        .literal [space] :: hexWords 4 := rfl
  rw [hline, hpattern, scan_literal, hexWord, scan_exactly hopcode (isHex_hex 4 opcode), scan_literal,
    scan_oneOf (outcome_mem o) (outcome_distinct _ (outcome_mem o))]
  exact congrArg (Option.map _) (congrArg (Option.map _) hwords)

theorem endsInTimeout_name (o : Observation) : endsInTimeout o.outcome.name = !o.done := by
  rw [Observation.outcome]
  cases o.done with
  | false =>
      simp only [Bool.false_and, Bool.false_eq_true, if_false]
      split_ifs
      · decide
      · decide
  | true =>
      simp only [Bool.true_and, if_true]
      split_ifs
      · decide
      · decide

/-- The words of a timeout are printed as the script would set them. -/
theorem recordOf_printed (opcode : Nat) (o : Observation) :
    recordOf opcode o.outcome.name (o.kept.words.map word) = printedRecord opcode o := by
  rw [recordOf, printedRecord, endsInTimeout_name, Observation.kept]
  cases o.done with
  | false =>
      have hwords : noMarkers.words.map word = List.replicate 4 (ascii "FFFF") :=
        congrArg (List.replicate 4) word_max
      rw [Bool.not_false, if_pos rfl, if_neg Bool.false_ne_true, hwords]
  | true => rfl

/-- **The line of an opcode** makes its record. -/
theorem readLine_recordLine {opcode : Nat} (h : opcode < 0x10000) (o : Observation)
    (hnew : r.records opcode = none) :
    readLine r (recordLine opcode o ++ [newline])
      = .ok { r with records := Function.update r.records opcode (some (printedRecord opcode o)) } := by
  have hline : recordLine opcode o = ascii "# DSPPROBE " ++ (hex 4 opcode ++ ([space] ++
      (o.outcome.name ++ spaced o.kept.words))) := by
    simp only [recordLine, List.append_assoc]
  have hpass : recordLine opcode o ≠ passLine := by
    intro hpass
    have hprefix : ¬ passLine <+: recordLine opcode o :=
      hline ▸ not_prefix_append (by decide) (by decide) _
    exact hprefix (hpass ▸ List.prefix_refl _)
  have hsummary : scan summaryPattern (recordLine opcode o) = none :=
    scan_literal_of_not (hline ▸ not_prefix_append (by decide) (by decide) _)
  have hopcode : hexOf (hex 4 opcode) = opcode := hexOf_hex (by decide) h
  rw [readLine, readPassed_newline, if_neg hpass, readSummary_none hsummary, readRecord,
    matchLine_newline, scan_recordLine h]
  simp only [hopcode, recordOf_printed, hnew, Option.any_none, Bool.false_eq_true, if_false]

theorem readLine_transient (opcode : Nat) (o : Observation) (r : Reading) :
    readLine r (transientLine opcode o ++ [newline]) = .ok r := by
  rw [transientLine, List.append_assoc (ascii "# DSPPROBE-TRANSIENT ")]
  exact readLine_own (by decide) (by decide) (by decide) _ r

theorem readLine_mismatch (opcode : Nat) (expected actual : OpcodeOutcome) (r : Reading) :
    readLine r (mismatchLine opcode expected actual ++ [newline]) = .ok r := by
  have hline : mismatchLine opcode expected actual = ascii "# DSPPROBE-MISMATCH " ++ (hex 4 opcode ++
      (ascii " expected=" ++ (expected.name ++ (ascii " actual=" ++ actual.name)))) := by
    simp only [mismatchLine, List.append_assoc]
  rw [hline]
  exact readLine_own (by decide) (by decide) (by decide) _ r

theorem readLine_progress (opcode : Nat) (r : Reading) :
    readLine r (progressLine opcode ++ [newline]) = .ok r := by
  rw [progressLine]
  exact readLine_own (by decide) (by decide) (by decide) _ r

/-- A line that is printed on a condition. -/
theorem readLines_if (condition : Prop) [Decidable condition] {line : Text}
    (h : ∀ r, readLine r (line ++ [newline]) = .ok r) (r : Reading) :
    ((if condition then [] else [line]).map fun line => line ++ [newline]).foldlM readLine r
      = .ok r := by
  split_ifs
  · rfl
  · rw [List.map_singleton, List.foldlM_cons, h]
    rfl

/-- The lines of a new opcode add its record and do nothing else. -/
theorem readLines_opcode (classes : List UInt8) {opcode : Nat} (h : opcode < 0x10000)
    (o : Observation) (hnew : r.records opcode = none) :
    ((opcodeLines classes opcode o).map fun line => line ++ [newline]).foldlM readLine r
      = .ok { r with records := Function.update r.records opcode (some (printedRecord opcode o)) } := by
  have htransient := readLines_if (o.done = true) (readLine_transient opcode o) r
  have hrecord := readLine_recordLine h o hnew
  have hmismatch := readLines_if (o.classified = hardwareOutcome classes opcode)
    (readLine_mismatch opcode (hardwareOutcome classes opcode) o.classified)
  rw [opcodeLines, List.map_append, List.map_append, List.map_append, List.append_assoc,
    List.append_assoc, foldlM_append_of_ok htransient, List.map_singleton, List.singleton_append,
    foldlM_cons_of_ok hrecord, foldlM_append_of_ok (hmismatch _)]
  split_ifs
  · rw [List.map_singleton, foldlM_cons_of_ok (readLine_progress opcode _)]
    rfl
  · rfl

/-! ## The whole log -/

/-- What is read when the lines of the opcodes below `n` have gone by. -/
def readUpTo (observed : Nat → Observation) (n : Nat) : Reading where
  records opcode := if opcode < n then some (printedRecord opcode (observed opcode)) else none
  passed := false
  summary := []
  summaryCount := 0

theorem readLines_opcodes (classes : List UInt8) (observed : Nat → Observation) {n : Nat}
    (hn : n ≤ 0x10000) :
    (((List.range n).flatMap fun opcode => opcodeLines classes opcode (observed opcode)).map
      fun line => line ++ [newline]).foldlM readLine ⟨fun _ => none, false, [], 0⟩
      = .ok (readUpTo observed n) := by
  induction n with
  | zero => rfl
  | succ n ih =>
      have hnew : (readUpTo observed n).records n = none := if_neg (Nat.lt_irrefl n)
      have hupdate : Function.update (readUpTo observed n).records n
          (some (printedRecord n (observed n))) = (readUpTo observed (n + 1)).records := by
        funext opcode
        by_cases hopcode : opcode = n
        · subst hopcode
          rw [Function.update_self]
          exact (if_pos (Nat.lt_succ_self opcode)).symm
        · have hlt : opcode < n + 1 ↔ opcode < n := by omega
          rw [Function.update_of_ne hopcode]
          simp only [readUpTo, hlt]
      rw [List.range_succ, List.flatMap_append, List.map_append, List.foldlM_append,
        ih (Nat.le_of_succ_le hn), List.flatMap_singleton]
      exact (readLines_opcode classes hn (observed n) hnew).trans
        (congrArg (fun records => Except.ok (Reading.mk records false [] 0)) hupdate)

/-- **The summary line does not fit the pattern of the script**: it goes on where the pattern ends. -/
theorem scan_summaryLine (st : RawState) : scan summaryPattern (summaryLine 0 0xFFFF st) = none := by
  have hline : summaryLine 0 0xFFFF st = ascii "# DSPPROBE-SUMMARY " ++ (hex 4 0 ++ ([space] ++
      (hex 4 0xFFFF ++ (ascii " complete=" ++ (unsigned st.completed ++ (ascii " trap=" ++
        (unsigned st.trapped ++ (ascii " timeout=" ++ (unsigned st.timedOut ++
          (ascii " mismatched=" ++ unsigned st.mismatches)))))))))) := by
    simp only [summaryLine, List.append_assoc]
  have hfirst := length_hex (k := 4) (n := 0) (by decide) (by decide)
  have hlast := length_hex (k := 4) (n := 0xFFFF) (by decide) (by decide)
  rw [hline, summaryPattern, scan_literal, hexWord, scan_exactly hfirst (isHex_hex 4 _), scan_literal,
    scan_exactly hlast (isHex_hex 4 _), scan_literal, decimals,
    scan_many_before (unsigned_ne_nil _) (isDecimal_unsigned _) (by decide), scan_literal,
    scan_many_before (unsigned_ne_nil _) (isDecimal_unsigned _) (by decide), scan_literal,
    scan_many_before (unsigned_ne_nil _) (isDecimal_unsigned _) (by decide),
    scan_nil_of_ne (by simp [ascii])]
  rfl

theorem readLine_summaryLine (st : RawState) (r : Reading) :
    readLine r (summaryLine 0 0xFFFF st ++ [newline]) = .ok r := by
  have hbegin : ∀ text : Text, ¬ text <+: ascii "# DSPPROBE-SUMMARY " →
      ¬ ascii "# DSPPROBE-SUMMARY " <+: text → ¬ text <+: summaryLine 0 0xFFFF st := by
    intro text htext hsummary
    simp only [summaryLine, List.append_assoc]
    exact not_prefix_append htext hsummary _
  have hpass : summaryLine 0 0xFFFF st ≠ passLine := fun h =>
    hbegin passLine (by decide) (by decide) (h ▸ List.prefix_refl _)
  exact readLine_other hpass (scan_summaryLine st)
    (scan_literal_of_not (hbegin (ascii "# DSPPROBE ") (by decide) (by decide))) r

theorem passive_rawName (d : Device) :
    Passive mark (coloured (colours d.testColor) (colours d.testColor).cyan rawName) := by
  cases d.testColor with
  | false =>
      have hline : coloured (colours false) (colours false).cyan rawName
          = ascii "# DSP TeakLite" ++ ascii " I raw opcode probe" := by decide +kernel
      rw [hline]
      exact @passive_of_start mark (ascii "# DSP TeakLite") 6 (by decide) (by decide) (by decide)
        (by decide) (by decide) _
  | true =>
      have hline : coloured (colours true) (colours true).cyan rawName
          = (ascii "# " ++ [escape]) ++ (ascii "[36m" ++ rawName ++ (colours true).reset) := by
        decide +kernel
      rw [hline]
      exact mark_isMark.passive _ (by decide) (by decide) (by decide) _

theorem passive_rawAssertion (d : Device) (st : RawState) :
    ∀ line ∈ (runCalls (colours d.testColor) [rawAssertion d.board st] ⟨0, 0⟩).2,
      Passive mark line := by
  intro line hline
  rw [runCalls_cons] at hline
  have hcall : line ∈ ((rawAssertion d.board st).run (colours d.testColor) ⟨0, 0⟩).2 := by
    simpa [runCalls] using hline
  cases hboard : d.board with
  | pmb8875 =>
      rw [hboard] at hcall
      exact d.passive_testSkip mark_isMark _ _ _ line hcall
  | pmb8876 =>
      rw [hboard] at hcall
      exact d.passive_testEqU32 mark_isMark _ _ _ _ line hcall

section

variable (d : Device) (classes : List UInt8) (observed : Nat → Observation)

/-- The last line of a run. -/
def lastLine : Text :=
  resultLine (colours d.testColor) (rawRun d classes observed).state.failures

theorem readLine_lastLine (r : Reading) :
    readLine r (lastLine d classes observed ++ [newline])
      = .ok (if lastLine d classes observed = passLine then { r with passed := true } else r) := by
  have hforeign : ¬ mark <+: lastLine d classes observed := by
    simp only [lastLine, resultLine, List.append_assoc]
    exact not_prefix_append (by decide) (by decide) _
  have hsummary : scan summaryPattern (lastLine d classes observed) = none :=
    scan_foreign (by decide) hforeign
  have hrecord : scan recordPattern (lastLine d classes observed) = none :=
    scan_foreign (by decide) hforeign
  rw [readLine, readPassed_newline, readSummary_none hsummary, readRecord_none hrecord]

theorem passive_start : ∀ line ∈ (rawRun d classes observed).startLines, Passive mark line :=
  d.passive_startLines mark_isMark (passive_rawName d)

/-- The lines of the log. -/
theorem inputLines_rawRun :
    inputLines (rawRun d classes observed).text
      = ((rawRun d classes observed).startLines ++ rawLines classes observed ++
          (runCalls (colours d.testColor) [rawAssertion d.board (rawEnd classes observed)] ⟨0, 0⟩).2 ++
          [planLine (rawRun d classes observed).state.assertions, lastLine d classes observed]).map
            fun line => line ++ [newline] := by
  have hname : Clean rawName := clean_ascii (by decide)
  rw [lastLine, rawRun_eq, d.inputLines_run hname (clean_rawCalls d.board classes observed),
    d.reportLines_run]
  rfl

/-- The variables of `read_capture` behind its loop. -/
def readRun : Reading :=
  { readUpTo observed 0x10000 with passed := decide (lastLine d classes observed = passLine) }

/-- **What the loop of `read_capture` reads** of a complete run: all of its records, and no summary. -/
theorem readLines_rawRun :
    (inputLines (rawRun d classes observed).text).foldlM readLine ⟨fun _ => none, false, [], 0⟩
      = .ok (readRun d classes observed) := by
  have hopcodes := readLines_opcodes classes observed (Nat.le_refl 0x10000)
  have hassertion := readLines_passive (passive_rawAssertion d (rawEnd classes observed))
  have hplan := readLine_passive (Device.passive_planLine mark_isMark
    (rawRun d classes observed).state.assertions)
  have hlast := readLine_lastLine d classes observed (readUpTo observed 0x10000)
  rw [inputLines_rawRun, List.map_append, List.map_append, List.map_append, rawLines, List.map_append,
    List.append_assoc, List.append_assoc, List.append_assoc,
    foldlM_append_of_ok (readLines_passive (passive_start d classes observed) _),
    foldlM_append_of_ok hopcodes, List.map_singleton, List.singleton_append,
    foldlM_cons_of_ok (readLine_summaryLine _ _), foldlM_append_of_ok (hassertion _), List.map_cons,
    foldlM_cons_of_ok (hplan _), List.map_singleton, foldlM_cons_of_ok hlast, readRun]
  by_cases hpass : lastLine d classes observed = passLine
  · rw [if_pos hpass, decide_eq_true hpass]
    rfl
  · rw [if_neg hpass, decide_eq_false hpass]
    rfl

omit d classes observed in
theorem readCapture_of_ok {input : Text}
    (h : (inputLines input).foldlM readLine ⟨fun _ => none, false, [], 0⟩ = .ok r) :
    readCapture input = checkReading r := by
  rw [readCapture, h]
  rfl

/-- **The capture is refused**: a run that passes has no summary that the script knows. -/
theorem readCapture_rawRun :
    readCapture (rawRun d classes observed).text
      = .error (if lastLine d classes observed = passLine then .summaries else .notPassed) := by
  have hread := readCapture_of_ok (readLines_rawRun d classes observed)
  have hcount : (readRun d classes observed).summaryCount ≠ 1 := Nat.zero_ne_one
  rw [hread, checkReading, if_pos hcount]
  by_cases hpass : lastLine d classes observed = passLine
  · have hpassed : (!(readRun d classes observed).passed) = false := by
      simp [readRun, hpass]
    rw [hpassed, if_neg Bool.false_ne_true, if_pos hpass]
  · have hpassed : (!(readRun d classes observed).passed) = true := by
      simp [readRun, hpass]
    rw [hpassed, if_pos rfl, if_neg hpass]

end

end Pmb887x.OpcodeProbe.Raw
