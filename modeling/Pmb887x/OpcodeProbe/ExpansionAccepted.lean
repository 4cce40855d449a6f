import Pmb887x.OpcodeProbe.ExpansionCapture

set_option autoImplicit false

/-! # A run that passes is accepted

The log of a complete run of one family as a whole: `read_capture` refuses it if the run did not pass, and
otherwise returns the record of every expansion word. -/

namespace Pmb887x.OpcodeProbe.Expansion

open Library UnitTest
open Boot.Output (ascii newline space)

/-! ## Its lines are lines -/

theorem clean_familyNames (index : FamilyIndex) : Clean (ascii (families.get index).name) := by
  have hall : ∀ family ∈ families,
      (family.name.toList.all fun ch => 32 ≤ ch.toNat && ch.toNat < 256) = true := by
    decide +kernel
  exact clean_ascii (hall _ (families.get_mem index))

theorem clean_familyLine (index : FamilyIndex) : Clean (familyLine index (families.get index)) := by
  have htext : Clean (ascii "# DSPEXP-FAMILY ") := clean_ascii (by decide)
  have hopen : Clean (ascii " \"") := clean_ascii (by decide)
  have hclose : Clean (ascii "\"") := clean_ascii (by decide)
  simp only [familyLine, clean_append, htext, hopen, hclose, clean_unsigned, clean_space, word,
    clean_hex, clean_familyNames, and_self]

theorem clean_turn (index expansion : Nat) (r : Option Result) :
    (∀ line ∈ linesBefore index expansion r, Clean line) ∧
      Clean (recordLine index expansion (recordOf r)) ∧ Clean (mismatchLine index expansion) ∧
      Clean (progressLine index expansion) := by
  have htransient : Clean (ascii "# DSPEXP-TRANSIENT ") := clean_ascii (by decide)
  have hrecord : Clean (ascii "# DSPEXP ") := clean_ascii (by decide)
  have hmismatch : Clean (ascii "# DSPEXP-MISMATCH ") := clean_ascii (by decide)
  have hprogress : Clean (ascii "# DSPEXP-PROGRESS ") := clean_ascii (by decide)
  have hdash : Clean (ascii "-") := clean_ascii (by decide)
  refine ⟨fun line hline => ?_, ?_, ?_, ?_⟩
  · cases r with
    | none => cases hline
    | some result =>
        rw [linesBefore] at hline
        split_ifs at hline
        · cases hline
        · rw [List.mem_singleton.mp hline]
          simp only [transientLine, clean_append, htransient, clean_unsigned, clean_space, clean_hex,
            clean_spaced, and_self]
  · simp only [recordLine, clean_append, hrecord, clean_unsigned, clean_space, clean_hex, clean_name,
      clean_spaced, and_self]
  · simp only [mismatchLine, clean_append, hmismatch, clean_unsigned, clean_space, clean_hex, hdash,
      and_self]
  · simp only [progressLine, clean_append, hprogress, clean_unsigned, clean_space, clean_hex, and_self]

theorem clean_summaryLine (index : Nat) (st : State) : Clean (summaryLine index index 0 0xFFFF st) := by
  have hfamilies : Clean (ascii "# DSPEXP-SUMMARY families=") := clean_ascii (by decide)
  have hdash : Clean (ascii "-") := clean_ascii (by decide)
  have hwords : Clean (ascii " words=") := clean_ascii (by decide)
  have hexecuted : Clean (ascii " executed=") := clean_ascii (by decide)
  have hskipped : Clean (ascii " skipped=") := clean_ascii (by decide)
  have hcomplete : Clean (ascii " complete=") := clean_ascii (by decide)
  have htrap : Clean (ascii " trap=") := clean_ascii (by decide)
  have htimeout : Clean (ascii " timeout=") := clean_ascii (by decide)
  simp only [summaryLine, clean_append, hfamilies, hdash, hwords, hexecuted, hskipped, hcomplete,
    htrap, htimeout, clean_unsigned, clean_hex, and_self]

theorem clean_comparedLine (st : State) : Clean (comparedLine st) := by
  have hblocks : Clean (ascii "# DSPEXP-COMPARED blocks=") := clean_ascii (by decide)
  have hmismatched : Clean (ascii " mismatched=") := clean_ascii (by decide)
  simp only [comparedLine, clean_append, hblocks, hmismatched, clean_unsigned, and_self]

theorem clean_assertion (board : Board) (hashes : HardwareHashes) (st : State) :
    ∀ text ∈ (assertion board hashes st).texts, Clean text := by
  have hmatch : Clean (ascii "expansion results match the hardware map") := clean_ascii (by decide)
  have himported : Clean (ascii "the hardware map has not been imported") := clean_ascii (by decide)
  have hcaptured : Clean (ascii "the hardware map was captured on PMB8876 only") :=
    clean_ascii (by decide)
  have hdiffer : Clean (ascii "expansion blocks that differ from the PMB8876 hardware map") :=
    clean_ascii (by decide)
  intro text htext
  cases board with
  | pmb8875 =>
      simp only [assertion, Call.texts, List.mem_cons, List.not_mem_nil, or_false] at htext
      rcases htext with rfl | rfl
      · exact hmatch
      · exact hcaptured
  | pmb8876 =>
      rw [assertion] at htext
      split_ifs at htext
      · simp only [Call.texts, List.mem_cons, List.not_mem_nil, or_false] at htext
        rcases htext with rfl | rfl
        · exact hmatch
        · exact himported
      · exact List.mem_singleton.mp htext ▸ hdiffer

section

variable (hashes : HardwareHashes) (board : Board) (index : FamilyIndex) (observed : Nat → Result)

theorem clean_stateUpTo (n : Nat) :
    ∀ line ∈ (stateUpTo hashes board index observed n).lines, Clean line := by
  induction n with
  | zero =>
      intro line hline
      exact List.mem_singleton.mp hline ▸ clean_familyLine index
  | succ n ih =>
      obtain ⟨behind, hbehind, hlines⟩ := lines_probeExpansion hashes 0 index n
        (taken board index observed n) (stateUpTo hashes board index observed n)
      obtain ⟨hbefore, hrecord, hmismatch, hprogress⟩ :=
        clean_turn index n (taken board index observed n)
      intro line hline
      rw [stateUpTo, hlines, List.mem_append, List.mem_append, List.mem_cons] at hline
      rcases hline with hline | hline | rfl | hline
      · exact ih line hline
      · exact hbefore line hline
      · exact hrecord
      · rcases hbehind line hline with rfl | rfl
        · exact hmismatch
        · exact hprogress

theorem clean_runCalls :
    ∀ call ∈ (runLines hashes board index observed).map .comment ++
        [assertion board hashes (runEnd hashes board index observed)],
      ∀ text ∈ call.texts, Clean text := by
  intro call hcall
  rcases List.mem_append.mp hcall with hcall | hcall
  · obtain ⟨line, hline, rfl⟩ := List.mem_map.mp hcall
    intro text htext
    obtain rfl := List.mem_singleton.mp htext
    rcases List.mem_append.mp hline with hline | hline
    · exact clean_stateUpTo hashes board index observed _ text hline
    · simp only [List.mem_cons, List.not_mem_nil, or_false] at hline
      rcases hline with rfl | rfl
      · exact clean_summaryLine _ _
      · exact clean_comparedLine _
  · exact List.mem_singleton.mp hcall ▸ clean_assertion _ _ _

end

/-! ## The whole log -/

theorem passive_probeName (d : Device) :
    Passive mark (coloured (colours d.testColor) (colours d.testColor).cyan probeName) := by
  cases d.testColor with
  | false =>
      have hline : coloured (colours false) (colours false).cyan probeName
          = ascii "# DSP TeakLite" ++ ascii " I expansion-word probe" := by decide +kernel
      rw [hline]
      exact @passive_of_start mark (ascii "# DSP TeakLite") 6 (by decide) (by decide) (by decide)
        (by decide) (by decide) _
  | true =>
      have hline : coloured (colours true) (colours true).cyan probeName
          = (ascii "# " ++ [escape]) ++ (ascii "[36m" ++ probeName ++ (colours true).reset) := by
        decide +kernel
      rw [hline]
      exact mark_isMark.passive _ (by decide) (by decide) (by decide) _

theorem passive_assertion (d : Device) (hashes : HardwareHashes) (st : State) :
    ∀ line ∈ (runCalls (colours d.testColor) [assertion d.board hashes st] ⟨0, 0⟩).2,
      Passive mark line := by
  intro line hline
  rw [runCalls_cons] at hline
  have hcall : line ∈ ((assertion d.board hashes st).run (colours d.testColor) ⟨0, 0⟩).2 := by
    simpa [runCalls] using hline
  cases hboard : d.board with
  | pmb8875 =>
      rw [hboard] at hcall
      exact d.passive_testSkip mark_isMark _ _ _ line hcall
  | pmb8876 =>
      rw [hboard, assertion] at hcall
      split_ifs at hcall
      · exact d.passive_testSkip mark_isMark _ _ _ line hcall
      · exact d.passive_testEqU32 mark_isMark _ _ _ _ line hcall

section

variable (d : Device) (hashes : HardwareHashes) (index : FamilyIndex) (observed : Nat → Result)

/-- The last line of a run. -/
def lastLine : Text :=
  resultLine (colours d.testColor) (familyRun d hashes index observed).state.failures

theorem readLine_lastLine (r : Reading) :
    readLine r (lastLine d hashes index observed ++ [newline])
      = .ok (if lastLine d hashes index observed = passLine then { r with passed := true } else r) := by
  refine readLine_foreign ?_ r
  simp only [lastLine, resultLine, List.append_assoc]
  exact not_prefix_append (by decide) (by decide) _

theorem inputLines_familyRun :
    inputLines (familyRun d hashes index observed).text
      = ((familyRun d hashes index observed).startLines ++ runLines hashes d.board index observed ++
          (runCalls (colours d.testColor)
            [assertion d.board hashes (runEnd hashes d.board index observed)] ⟨0, 0⟩).2 ++
          [planLine (familyRun d hashes index observed).state.assertions,
            lastLine d hashes index observed]).map fun line => line ++ [newline] := by
  have hname : Clean probeName := clean_ascii (by decide)
  rw [lastLine, familyRun_eq,
    d.inputLines_run hname (clean_runCalls hashes d.board index observed), d.reportLines_run]
  rfl

/-- The variables of `read_capture` behind its loop. -/
def readRun : Reading where
  families := [(unsigned index, description (families.get index))]
  records := runRecords d.board index observed
  summary := some (runSummary hashes d.board index observed)
  summaryCount := 1
  passed := decide (lastLine d hashes index observed = passLine)

/-- **What the loop of `read_capture` reads** of a complete run. -/
theorem readLines_familyRun :
    (inputLines (familyRun d hashes index observed).text).foldlM readLine Reading.start
      = .ok (readRun d hashes index observed) := by
  have hstart : ∀ line ∈ (familyRun d hashes index observed).startLines, Passive mark line :=
    d.passive_startLines mark_isMark (passive_probeName d)
  have hwords : ((runEnd hashes d.board index observed).lines.map fun line => line ++ [newline]).foldlM
      readLine Reading.start = .ok (readUpTo d.board index observed 0x10000) :=
    readLines_stateUpTo hashes d.board index observed (Nat.le_refl 0x10000)
  have hassertion := readLines_passive
    (passive_assertion d hashes (runEnd hashes d.board index observed))
  have hplan := readLine_passive (Device.passive_planLine mark_isMark
    (familyRun d hashes index observed).state.assertions)
  rw [inputLines_familyRun, List.map_append, List.map_append, List.map_append, runLines,
    List.map_append, List.append_assoc, List.append_assoc, List.append_assoc,
    foldlM_append_of_ok (readLines_passive hstart _), foldlM_append_of_ok hwords,
    List.map_cons, List.cons_append, foldlM_cons_of_ok (readLine_summaryLine index _ _),
    List.map_singleton, List.singleton_append, foldlM_cons_of_ok (readLine_compared _ _),
    foldlM_append_of_ok (hassertion _), List.map_cons, foldlM_cons_of_ok (hplan _), List.map_singleton,
    foldlM_cons_of_ok (readLine_lastLine d hashes index observed _), List.foldlM_nil]
  by_cases hpass : lastLine d hashes index observed = passLine
  · simp only [hpass, if_true, decide_true, readRun, readUpTo, runSummary, runRecords, pure,
      Except.pure, Nat.zero_add]
  · simp only [hpass, if_false, decide_false, readRun, readUpTo, runSummary, runRecords, pure,
      Except.pure, Nat.zero_add]

end

/-! ## The checks behind the loop -/

theorem countUpTo_or (outcomes : Nat → Outcome) {a b : Outcome} (hab : a ≠ b) (n : Nat) :
    countUpTo outcomes (fun o => o = a ∨ o = b) n
      = countUpTo outcomes (· = a) n + countUpTo outcomes (· = b) n := by
  induction n with
  | zero => rfl
  | succ n ih =>
      rw [countUpTo_succ, countUpTo_succ, countUpTo_succ, ih]
      by_cases ha : outcomes n = a
      · have hb : outcomes n ≠ b := ha ▸ hab
        simp [ha, hab]
        omega
      · by_cases hb : outcomes n = b
        · simp [hb, hab.symm]
          omega
        · simp [ha, hb]

theorem countUpTo_ne (outcomes : Nat → Outcome) (a : Outcome) (n : Nat) :
    countUpTo outcomes (· ≠ a) n + countUpTo outcomes (· = a) n = n := by
  induction n with
  | zero => rfl
  | succ n ih =>
      have hone : (if decide (outcomes n ≠ a) = true then 1 else 0)
          + (if decide (outcomes n = a) = true then 1 else 0) = 1 := by
        by_cases ha : outcomes n = a
        · simp [ha]
        · simp [ha]
      rw [countUpTo_succ, countUpTo_succ, Nat.add_add_add_comm, ih, hone]

/-- The fields of a record. -/
def recordFields (index expansion : Nat) (record : Record) : List Text :=
  unsigned index :: hex 4 expansion :: record.outcome.name :: record.words.map word

theorem not_mem_unsigned_comma (n : Nat) : comma ∉ unsigned n := not_mem_unsigned (by decide) n

theorem comma_not_mem_recordFields (index expansion : Nat) (record : Record) :
    ∀ field ∈ recordFields index expansion record, comma ∉ field := by
  intro field hfield
  simp only [recordFields, List.mem_cons] at hfield
  rcases hfield with rfl | rfl | rfl | hfield
  · exact not_mem_unsigned_comma index
  · exact comma_not_mem_hex 4 expansion
  · exact comma_not_mem_name _
  · obtain ⟨w, -, rfl⟩ := List.mem_map.mp hfield
    exact comma_not_mem_hex 4 _

theorem recordFields_ne_nil (index : Nat) {expansion : Nat} (h : expansion < 0x10000) (record : Record) :
    ∀ field ∈ recordFields index expansion record, field ≠ [] := by
  intro field hfield
  simp only [recordFields, List.mem_cons] at hfield
  rcases hfield with rfl | rfl | rfl | hfield
  · exact unsigned_ne_nil index
  · exact List.ne_nil_of_length_pos (by rw [length_hex (by decide) h]; decide)
  · cases record.outcome <;> decide
  · obtain ⟨w, -, rfl⟩ := List.mem_map.mp hfield
    exact word_ne_nil w

theorem recordText_ne_nil (index expansion : Nat) (record : Record) :
    joinFields (recordFields index expansion record) ≠ [] := by
  rw [recordFields, joinFields_cons]
  simp

/-- The fields of the text of a record. -/
theorem splitAll_recordText (index expansion : Nat) (record : Record) :
    splitAll (recordText index expansion record) = recordFields index expansion record :=
  splitAll_joinFields (recordText_ne_nil index expansion record) (List.cons_ne_nil _ _)
    (comma_not_mem_recordFields index expansion record)

theorem splitFields_recordText (index : Nat) {expansion : Nat} (h : expansion < 0x10000)
    (record : Record) :
    splitFields (recordText index expansion record) = recordFields index expansion record :=
  splitFields_joinFields (recordText_ne_nil index expansion record) (List.cons_ne_nil _ _)
    (comma_not_mem_recordFields index expansion record) (recordFields_ne_nil index h record)

theorem outcomeCount_records (index : Nat) (records : Nat → Record) (outcome : Outcome) {n : Nat}
    (hn : n ≤ 0x10000) :
    outcomeCount (recordsUpTo index records n) outcome.name
      = countUpTo (fun e => (records e).outcome) (· = outcome) n := by
  rw [outcomeCount, recordsUpTo, List.countP_map, countUpTo]
  refine List.countP_congr fun e he => ?_
  have hlt : e < 0x10000 := Nat.lt_of_lt_of_le (List.mem_range.mp he) hn
  have hfields := splitFields_recordText index hlt (records e)
  have hname : (splitFields (recordText index e (records e))).getD 2 [] = (records e).outcome.name := by
    rw [hfields]
    rfl
  simp only [Function.comp_apply, hname, decide_eq_true_eq]
  exact ⟨name_injective, congrArg Outcome.name⟩

section

variable (d : Device) (hashes : HardwareHashes) (index : FamilyIndex) (observed : Nat → Result)

theorem length_runRecords (board : Board) : (runRecords board index observed).length = 0x10000 := by
  rw [runRecords, recordsUpTo, List.length_map, List.length_range]

theorem expectedCount_runSummary (board : Board) :
    expectedCount (runSummary hashes board index observed) = 0x10000 := by
  have hfamilies : number (runSummary hashes board index observed).familyFirst = index :=
    number_unsigned index
  have hlast : number (runSummary hashes board index observed).familyLast = index :=
    number_unsigned index
  have hfirstWord : (runSummary hashes board index observed).wordFirst = 0 := rfl
  have hlastWord : (runSummary hashes board index observed).wordLast = 0xFFFF := rfl
  rw [expectedCount, hfamilies, hlast, hfirstWord, hlastWord, Nat.add_sub_cancel_left]

theorem missingKey_runRecords (board : Board) :
    missingKey (runRecords board index observed) index 0 0xFFFF = none := by
  rw [missingKey, List.find?_eq_none]
  intro key hkey
  obtain ⟨expansion, hexpansion, rfl⟩ := List.mem_map.mp hkey
  have hlt : expansion < 0x10000 := by
    have := List.mem_range'_1.mp hexpansion
    omega
  have hlookup : (runRecords board index observed).lookup (keyOf index (hex 4 expansion))
      = some (recordText index expansion (runRecord board index observed expansion)) :=
    (lookup_recordsUpTo index _ (Nat.le_refl _) hlt).trans (if_pos hlt)
  rw [hlookup]
  exact Bool.false_ne_true

theorem records_readRun :
    (readRun d hashes index observed).records = runRecords d.board index observed := by rw [readRun]

theorem checkRange_readRun :
    checkRange (readRun d hashes index observed) (runSummary hashes d.board index observed)
      = .ok () := by
  have hfamilies : number (runSummary hashes d.board index observed).familyFirst = index :=
    number_unsigned index
  have hlast : number (runSummary hashes d.board index observed).familyLast = index :=
    number_unsigned index
  have hlookup : (readRun d hashes index observed).families.lookup (unsigned index)
      = some (description (families.get index)) := by
    rw [readRun, List.lookup_singleton, if_pos (beq_self_eq_true _)]
  have hmissing : missingKey (readRun d hashes index observed).records index
      (runSummary hashes d.board index observed).wordFirst
      (runSummary hashes d.board index observed).wordLast = none := by
    rw [records_readRun]
    exact missingKey_runRecords index observed d.board
  rw [checkRange, hfamilies, hlast, Nat.add_sub_cancel_left, List.range'_one, List.forM_cons, hlookup,
    hmissing]
  simp only [Option.isNone_some, Bool.false_eq_true, if_false, List.forM_nil, bind, Except.bind, pure,
    Except.pure]

/-- The counts of the summary are those of the records. -/
theorem countsMatch_readRun :
    countsMatch (readRun d hashes index observed) (runSummary hashes d.board index observed)
      = true := by
  have hcounts := counts_stateUpTo hashes d.board index observed 0x10000
  have hrecords : ∀ outcome : Outcome,
      outcomeCount (readRun d hashes index observed).records outcome.name
        = countUpTo (fun e => (runRecord d.board index observed e).outcome) (· = outcome) 0x10000 := by
    intro outcome
    rw [records_readRun, runRecords, outcomeCount_records index _ outcome (Nat.le_refl _)]
  have hskipped := countUpTo_ne (fun e => (runRecord d.board index observed e).outcome) .unsafeSkip 0x10000
  rw [countUpTo_or _ (by decide), countUpTo_or _ (by decide), countUpTo_or _ (by decide)] at hcounts
  have hsummary : [(runSummary hashes d.board index observed).executed,
      (runSummary hashes d.board index observed).skipped,
      (runSummary hashes d.board index observed).completed,
      (runSummary hashes d.board index observed).trapped,
      (runSummary hashes d.board index observed).timedOut]
      = (stateUpTo hashes d.board index observed 0x10000).counts := by
    simp only [runSummary, runEnd, State.counts]
  have hexecuted : countUpTo (fun e => (runRecord d.board index observed e).outcome)
      (· ≠ .unsafeSkip) 0x10000
      = 0x10000 - countUpTo (fun e => (runRecord d.board index observed e).outcome)
          (· = .unsafeSkip) 0x10000 := by omega
  have hcomplete := hrecords .complete
  have htrapComplete := hrecords .trapComplete
  have htimeout := hrecords .timeout
  have htrapTimeout := hrecords .trapTimeout
  have hskip := hrecords .unsafeSkip
  simp only [Outcome.name] at hcomplete htrapComplete htimeout htrapTimeout hskip
  rw [countsMatch]
  simp only [hsummary, hcounts, expectedCount_runSummary, hcomplete, htrapComplete, htimeout,
    htrapTimeout, hskip, hexecuted, beq_self_eq_true]

/-- What `read_capture` returns of a run that passed. -/
def runCapture : Capture where
  families := [(unsigned index, description (families.get index))]
  records := runRecords d.board index observed
  summary := runSummary hashes d.board index observed

omit d hashes index observed in
theorem readCapture_of_ok {input : Text} {r : Reading}
    (h : (inputLines input).foldlM readLine Reading.start = .ok r) :
    readCapture input = checkReading r := by
  rw [readCapture, h]
  rfl

/-- **A complete run is accepted just when it passed**, and then all that it printed is read. -/
theorem readCapture_familyRun :
    readCapture (familyRun d hashes index observed).text
      = if lastLine d hashes index observed = passLine then .ok (runCapture d hashes index observed)
        else .error .notPassed := by
  rw [readCapture_of_ok (readLines_familyRun d hashes index observed), checkReading]
  by_cases hpass : lastLine d hashes index observed = passLine
  · have hpassed : (!(readRun d hashes index observed).passed) = false := by simp [readRun, hpass]
    have hsummary : (readRun d hashes index observed).summary
        = some (runSummary hashes d.board index observed) := rfl
    have hcount : ¬ (readRun d hashes index observed).summaryCount ≠ 1 := by simp [readRun]
    have hrange : ¬ (number (runSummary hashes d.board index observed).familyLast
        < number (runSummary hashes d.board index observed).familyFirst ∨
        (runSummary hashes d.board index observed).wordLast
          < (runSummary hashes d.board index observed).wordFirst) := by simp [runSummary]
    have hrecords : ¬ (readRun d hashes index observed).records.length
        ≠ expectedCount (runSummary hashes d.board index observed) := by
      rw [expectedCount_runSummary, records_readRun, length_runRecords]
      exact fun h => h rfl
    rw [if_pos hpass, hpassed, if_neg Bool.false_ne_true, hsummary]
    simp only [if_neg hcount, if_neg hrange, if_neg hrecords, checkRange_readRun, Except.bind,
      countsMatch_readRun, if_true]
    simp only [readRun, runCapture]
  · have hpassed : (!(readRun d hashes index observed).passed) = true := by simp [readRun, hpass]
    rw [if_neg hpass, hpassed, if_pos rfl]

end

end Pmb887x.OpcodeProbe.Expansion
