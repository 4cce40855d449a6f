import Pmb887x.OpcodeProbe.Expansion
import Pmb887x.OpcodeProbe.ExpansionMap

set_option autoImplicit false

/-! # A complete run of one family

What `main` of the expansion probe prints and counts when the transport never fails, and what
`merge_expansion_probe.pl` reads of its lines. -/

namespace Pmb887x.OpcodeProbe.Expansion

open Library UnitTest
open Boot.Output (ascii newline space splitWhitespace)

section

variable (hashes : HardwareHashes) (board : Board) (index : FamilyIndex) (observed : Nat → Result)

/-- What is seen of an expansion word. -/
def taken (expansion : Nat) : Option Result :=
  if expansionIsSafe board (families.get index) expansion then some (observed expansion) else none

/-- The record of an expansion word. -/
def runRecord (expansion : Nat) : Record := recordOf (taken board index observed expansion)

/-- The variables when the words below `n` have been probed. -/
def stateUpTo : Nat → State
  | 0 => State.start.print [familyLine index (families.get index)]
  | n + 1 => probeExpansion hashes 0 index n (taken board index observed n) (stateUpTo n)

theorem wordStep_ok (st : State) (expansion : Nat) :
    wordStep board hashes 0 index (families.get index) (fun e => .ok (observed e)) st expansion
      = .ok (probeExpansion hashes 0 index expansion (taken board index observed expansion) st) := by
  have hattempt : attempt board (families.get index) (fun e => .ok (observed e)) expansion
      = .ok (taken board index observed expansion) := by
    rw [attempt, taken]
    split_ifs
    · rfl
    · rfl
  rw [wordStep, hattempt]

theorem wordSteps_ok (n : Nat) :
    (List.range n).foldlM
      (wordStep board hashes 0 index (families.get index) fun e => .ok (observed e))
      (State.start.print [familyLine index (families.get index)])
      = .ok (stateUpTo hashes board index observed n) := by
  induction n with
  | zero => rfl
  | succ n ih =>
      rw [List.range_succ, List.foldlM_append, ih]
      simp only [bind, Except.bind, List.foldlM_cons, List.foldlM_nil, wordStep_ok, pure, Except.pure,
        stateUpTo]

/-- The variables at the end of a run. -/
def runEnd : State := stateUpTo hashes board index observed 0x10000

/-- The lines that a run prints itself. -/
def runLines : List Text :=
  (runEnd hashes board index observed).lines ++
    [summaryLine index index 0 0xFFFF (runEnd hashes board index observed),
      comparedLine (runEnd hashes board index observed)]

theorem filter_finRange : ∀ index : FamilyIndex,
    ((List.finRange families.length).filter fun i => index ≤ i ∧ i ≤ index) = [index] := by
  decide +kernel

theorem familyRun_eq (d : Device) :
    familyRun d hashes index observed
      = d.run probeName ((runLines hashes d.board index observed).map .comment ++
          [assertion d.board hashes (runEnd hashes d.board index observed)]) := by
  have hrange : List.range' 0 (0xFFFF + 1 - 0) = List.range 0x10000 := List.range_eq_range'.symm
  have hfamily : familyStep d.board hashes 0 0xFFFF (fun _ e => .ok (observed e)) State.start index
      = .ok (runEnd hashes d.board index observed) := by
    rw [familyStep, hrange, wordSteps_ok, runEnd]
  have hcalls : probeCalls d.board hashes index index 0 0xFFFF (fun _ e => .ok (observed e))
      = (runLines hashes d.board index observed).map .comment ++
          [assertion d.board hashes (runEnd hashes d.board index observed)] := by
    rw [probeCalls, filter_finRange, List.foldlM_cons, hfamily]
    rfl
  rw [familyRun, expansionProbe, hcalls]

end

/-! ## What a turn of the loop prints -/

theorem lines_compareBlock (hashes : HardwareHashes) (first index expansion : Nat) (st : State) :
    (compareBlock hashes first index expansion st).lines = st.lines ∨
      (compareBlock hashes first index expansion st).lines
        = st.lines ++ [mismatchLine index expansion] := by
  rw [compareBlock]
  split_ifs
  · exact .inl rfl
  · exact .inr rfl
  · exact .inl rfl

theorem lines_printProgress (index expansion : Nat) (st : State) :
    (printProgress index expansion st).lines = st.lines ∨
      (printProgress index expansion st).lines = st.lines ++ [progressLine index expansion] := by
  rw [printProgress]
  split_ifs
  · exact .inr rfl
  · exact .inl rfl

/-- The lines of a turn: what comes in front of the record, the record, and what the comparison of a block
prints. -/
theorem lines_probeExpansion (hashes : HardwareHashes) (first index expansion : Nat)
    (r : Option Result) (st : State) :
    ∃ behind, (∀ line ∈ behind, line = mismatchLine index expansion ∨
        line = progressLine index expansion) ∧
      (probeExpansion hashes first index expansion r st).lines
        = st.lines ++ (linesBefore index expansion r ++
            recordLine index expansion (recordOf r) :: behind) := by
  have hbegin : (beginBlock expansion st).lines = st.lines := by
    rw [beginBlock]
    split_ifs
    · rfl
    · rfl
  have hrecord : (addRecord index expansion (recordOf r)
      ((beginBlock expansion st).print (linesBefore index expansion r))).lines
      = st.lines ++ linesBefore index expansion r ++ [recordLine index expansion (recordOf r)] := by
    rw [addRecord, State.print, hbegin]
  rw [probeExpansion]
  rcases lines_compareBlock hashes first index expansion (addRecord index expansion (recordOf r)
      ((beginBlock expansion st).print (linesBefore index expansion r))) with hcompare | hcompare
  · rcases lines_printProgress index expansion (compareBlock hashes first index expansion
        (addRecord index expansion (recordOf r)
          ((beginBlock expansion st).print (linesBefore index expansion r)))) with hprogress | hprogress
    · refine ⟨[], by simp, ?_⟩
      rw [hprogress, hcompare, hrecord, List.append_assoc]
    · refine ⟨[progressLine index expansion], by simp, ?_⟩
      rw [hprogress, hcompare, hrecord]
      simp only [List.append_assoc, List.cons_append, List.nil_append]
  · rcases lines_printProgress index expansion (compareBlock hashes first index expansion
        (addRecord index expansion (recordOf r)
          ((beginBlock expansion st).print (linesBefore index expansion r)))) with hprogress | hprogress
    · refine ⟨[mismatchLine index expansion], by simp, ?_⟩
      rw [hprogress, hcompare, hrecord]
      simp only [List.append_assoc, List.cons_append, List.nil_append]
    · refine ⟨[mismatchLine index expansion, progressLine index expansion], by simp, ?_⟩
      rw [hprogress, hcompare, hrecord]
      simp only [List.append_assoc, List.cons_append, List.nil_append]

/-! ## What it counts -/

/-- The counters of the summary. -/
def State.counts (st : State) : List Nat :=
  [st.executed, st.skipped, st.completed, st.trapped, st.timedOut]

/-- The records below `n` of which something holds. -/
def countUpTo (outcomes : Nat → Outcome) (p : Outcome → Bool) (n : Nat) : Nat :=
  (List.range n).countP fun e => p (outcomes e)

theorem countUpTo_succ (outcomes : Nat → Outcome) (p : Outcome → Bool) (n : Nat) :
    countUpTo outcomes p (n + 1) = countUpTo outcomes p n + if p (outcomes n) then 1 else 0 := by
  rw [countUpTo, List.range_succ, List.countP_append, List.countP_singleton]
  rfl

theorem counts_probeExpansion (hashes : HardwareHashes) (first index expansion : Nat)
    (r : Option Result) (st : State) :
    (probeExpansion hashes first index expansion r st).counts
      = (addRecord index expansion (recordOf r) st).counts := by
  have hprogress : ∀ st : State, (printProgress index expansion st).counts = st.counts := by
    intro st
    rw [printProgress]
    split_ifs
    · rfl
    · rfl
  have hcompare : ∀ st : State, (compareBlock hashes first index expansion st).counts = st.counts := by
    intro st
    rw [compareBlock]
    split_ifs
    · rfl
    · rfl
    · rfl
  rw [probeExpansion, hprogress, hcompare, beginBlock]
  split_ifs
  · simp only [State.counts, addRecord, State.print]
  · simp only [State.counts, addRecord, State.print]

section

variable (hashes : HardwareHashes) (board : Board) (index : FamilyIndex) (observed : Nat → Result)

/-- The counters of a run are those of its records. -/
theorem counts_stateUpTo (n : Nat) :
    (stateUpTo hashes board index observed n).counts
      = [countUpTo (fun e => (runRecord board index observed e).outcome) (· ≠ .unsafeSkip) n,
        countUpTo (fun e => (runRecord board index observed e).outcome) (· = .unsafeSkip) n,
        countUpTo (fun e => (runRecord board index observed e).outcome)
          (fun o => o = .complete ∨ o = .trapComplete) n,
        countUpTo (fun e => (runRecord board index observed e).outcome)
          (fun o => o = .trapComplete ∨ o = .trapTimeout) n,
        countUpTo (fun e => (runRecord board index observed e).outcome)
          (fun o => o = .timeout ∨ o = .trapTimeout) n] := by
  induction n with
  | zero => rfl
  | succ n ih =>
      rw [State.counts] at ih
      simp only [List.cons.injEq] at ih
      obtain ⟨hexecuted, hskipped, hcompleted, htrapped, htimedOut, -⟩ := ih
      rw [stateUpTo, counts_probeExpansion, State.counts, addRecord]
      simp only [countUpTo_succ, hexecuted, hskipped, hcompleted, htrapped, htimedOut, runRecord,
        decide_eq_true_eq, ne_eq, ite_not]

end

end Pmb887x.OpcodeProbe.Expansion
