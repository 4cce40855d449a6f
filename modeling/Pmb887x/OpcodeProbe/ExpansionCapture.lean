import Pmb887x.OpcodeProbe.ExpansionRun

set_option autoImplicit false

/-! # The capture of a run of one family

`read_capture` of `merge_expansion_probe.pl` finds in the lines of a complete run the family, the record of
each word and the summary, and the counts of the summary are those of the records. -/

namespace Pmb887x.OpcodeProbe.Expansion

open Library UnitTest
open Boot.Output (ascii newline space splitWhitespace)

/-- What the lines of the probe begin with. -/
def mark : Text := ascii "# DSPEXP"

theorem mark_isMark : Mark mark where
  length := by decide
  start := by decide

variable {line : Text} {r : Reading}

/-! ## Lines that say nothing -/

theorem scan_foreign {pieces : List (Piece UInt8)} {text : Text} (htext : mark <+: text)
    (h : ¬ mark <+: line) : scan (.literal text :: pieces) line = none :=
  scan_literal_of_not fun hline => h (htext.trans hline)

theorem readPassed_newline (line : Text) (r : Reading) :
    readPassed (line ++ [newline]) r = if line = passLine then { r with passed := true } else r := by
  rw [readPassed, matchLine_newline, passPattern, scan_fixed]
  by_cases hline : line = passLine
  · rw [if_pos hline, if_pos rfl, if_pos hline]
  · have hnone : (none : Option (List Text)) ≠ some [] := by simp
    rw [if_neg hline, if_neg hnone, if_neg hline]

theorem readFamily_none (h : scan familyPattern line = none) (r : Reading) :
    readFamily (line ++ [newline]) r = .ok r := by
  rw [readFamily, matchLine_newline, h]

theorem readSummary_none (h : scan summaryPattern line = none) (r : Reading) :
    readSummary (line ++ [newline]) r = r := by
  rw [readSummary, matchLine_newline, h]

theorem readRecord_none (h : scan recordPattern line = none) (r : Reading) :
    readRecord (line ++ [newline]) r = .ok r := by
  rw [readRecord, matchLine_newline, h]

theorem readLine_of_family {r' : Reading} (h : readFamily line (readPassed line r) = .ok r') :
    readLine r line = readRecord line (readSummary line r') := by
  rw [readLine, h]
  rfl

/-- A line that fits none of the three patterns. -/
theorem readLine_other (hfamily : scan familyPattern line = none)
    (hsummary : scan summaryPattern line = none) (hrecord : scan recordPattern line = none)
    (r : Reading) :
    readLine r (line ++ [newline])
      = .ok (if line = passLine then { r with passed := true } else r) := by
  have hread := readFamily_none hfamily (readPassed (line ++ [newline]) r)
  rw [readLine_of_family hread, readSummary_none hsummary, readRecord_none hrecord, readPassed_newline]

/-- A line that does not begin like those of the probe. -/
theorem readLine_foreign (h : ¬ mark <+: line) (r : Reading) :
    readLine r (line ++ [newline])
      = .ok (if line = passLine then { r with passed := true } else r) :=
  readLine_other (scan_foreign (by decide) h) (scan_foreign (by decide) h)
    (scan_foreign (by decide) h) r

theorem readLine_passive (h : Passive mark line) (r : Reading) :
    readLine r (line ++ [newline]) = .ok r := by
  have hpass : line ≠ passLine := by
    rintro rfl
    exact h.noResult (by decide)
  rw [readLine_foreign h.foreign, if_neg hpass]

theorem readLines_passive {lines : List Text} (h : ∀ line ∈ lines, Passive mark line) (r : Reading) :
    (lines.map fun line => line ++ [newline]).foldlM readLine r = .ok r := by
  induction lines with
  | nil => rfl
  | cons line lines ih =>
      obtain ⟨hline, hlines⟩ := List.forall_mem_cons.mp h
      rw [List.map_cons, foldlM_cons_of_ok (readLine_passive hline r)]
      exact ih hlines

/-- Neither of two texts begins the other. -/
def Apart (a b : Text) : Prop := ¬ a <+: b ∧ ¬ b <+: a

instance (a b : Text) : Decidable (Apart a b) := inferInstanceAs (Decidable (_ ∧ _))

theorem ne_passLine {start : Text} (h : Apart passLine start) (behind : Text) :
    start ++ behind ≠ passLine :=
  fun heq => not_prefix_append h.1 h.2 behind (heq ▸ List.prefix_refl _)

/-- What the lines that are read begin with. -/
def readStarts : List Text :=
  [passLine, ascii "# DSPEXP-FAMILY ", ascii "# DSPEXP-SUMMARY families=", ascii "# DSPEXP "]

/-- A line of the probe that begins like none of those that are read. -/
theorem readLine_own {start : Text} (h : ∀ text ∈ readStarts, Apart text start) (behind : Text)
    (r : Reading) : readLine r (start ++ behind ++ [newline]) = .ok r := by
  obtain ⟨hpass, hfamily, hsummary, hrecord, -⟩ :=
    (List.forall_mem_cons.mp h).imp id fun h => (List.forall_mem_cons.mp h).imp id fun h =>
      (List.forall_mem_cons.mp h).imp id fun h => List.forall_mem_cons.mp h
  have hnone : ∀ {text : Text} {pieces : List (Piece UInt8)}, Apart text start →
      scan (.literal text :: pieces) (start ++ behind) = none := fun happart =>
    scan_literal_of_not (not_prefix_append happart.1 happart.2 behind)
  rw [readLine_other (hnone hfamily) (hnone hsummary) (hnone hrecord),
    if_neg (ne_passLine hpass behind)]

theorem readLine_transient (index expansion : Nat) (o : Observation) (r : Reading) :
    readLine r (transientLine index expansion o ++ [newline]) = .ok r := by
  have hline : transientLine index expansion o = ascii "# DSPEXP-TRANSIENT " ++ (unsigned index ++
      ([space] ++ (hex 4 expansion ++ spaced o.markers.words))) := by
    simp only [transientLine, List.append_assoc]
  rw [hline]
  exact readLine_own (by decide) _ r

theorem readLine_mismatch (index expansion : Nat) (r : Reading) :
    readLine r (mismatchLine index expansion ++ [newline]) = .ok r := by
  have hline : mismatchLine index expansion = ascii "# DSPEXP-MISMATCH " ++ (unsigned index ++
      ([space] ++ (hex 4 (expansion + 1 - 256) ++ (ascii "-" ++ hex 4 expansion)))) := by
    simp only [mismatchLine, List.append_assoc]
  rw [hline]
  exact readLine_own (by decide) _ r

theorem readLine_progress (index expansion : Nat) (r : Reading) :
    readLine r (progressLine index expansion ++ [newline]) = .ok r := by
  have hline : progressLine index expansion = ascii "# DSPEXP-PROGRESS " ++ (unsigned index ++
      ([space] ++ hex 4 expansion)) := by
    simp only [progressLine, List.append_assoc]
  rw [hline]
  exact readLine_own (by decide) _ r

theorem readLine_compared (st : State) (r : Reading) :
    readLine r (comparedLine st ++ [newline]) = .ok r := by
  have hline : comparedLine st = ascii "# DSPEXP-COMPARED blocks=" ++ (unsigned st.comparedBlocks ++
      (ascii " mismatched=" ++ unsigned st.mismatchedBlocks)) := by
    simp only [comparedLine, List.append_assoc]
  rw [hline]
  exact readLine_own (by decide) _ r

/-! ## The family -/

/-- `join ',', $first_word, $name` -/
def description (family : Family) : Text := joinFields [word family.firstWord, ascii family.name]

/-- A name that the pattern of a family takes. -/
structure Named (family : Family) : Prop where
  ne_nil : ascii family.name ≠ []
  quote_free : (ascii family.name).all (fun b => decide (b ≠ quote)) = true

theorem families_named (index : FamilyIndex) : Named (families.get index) := by
  have hall : ∀ family ∈ families, ascii family.name ≠ [] ∧
      (ascii family.name).all (fun b => decide (b ≠ quote)) = true := by decide +kernel
  obtain ⟨hname, hquote⟩ := hall _ (families.get_mem index)
  exact ⟨hname, hquote⟩

section

variable (index : Nat) {family : Family}

theorem familyLine_eq : familyLine index family = ascii "# DSPEXP-FAMILY " ++ (unsigned index ++
    ([space] ++ (word family.firstWord ++ (ascii " \"" ++ (ascii family.name ++ ([quote] ++ [])))))) := by
  simp only [familyLine, List.append_assoc, List.append_nil]
  rfl

theorem scan_familyLine (h : Named family) :
    scan familyPattern (familyLine index family)
      = some [unsigned index, word family.firstWord, ascii family.name] := by
  rw [familyLine_eq, familyPattern, scan_literal, decimals,
    scan_many_before (unsigned_ne_nil _) (isDecimal_unsigned _) (by decide), scan_literal,
    scan_hexWord, scan_literal, scan_many_before h.ne_nil h.quote_free (by decide), scan_literal]
  rfl

/-- **The line of the family.** -/
theorem readLine_familyLine (h : Named family) (hnew : r.families = []) :
    readLine r (familyLine index family ++ [newline])
      = .ok { r with families := [(unsigned index, description family)] } := by
  have hline := @familyLine_eq index family
  have hpass : familyLine index family ≠ passLine := by
    rw [hline]
    exact ne_passLine (by decide) _
  have hsummary : scan summaryPattern (familyLine index family) = none := by
    rw [hline]
    exact scan_literal_of_not (not_prefix_append (by decide) (by decide) _)
  have hrecord : scan recordPattern (familyLine index family) = none := by
    rw [hline]
    exact scan_literal_of_not (not_prefix_append (by decide) (by decide) _)
  have hfamily : readFamily (familyLine index family ++ [newline])
      (readPassed (familyLine index family ++ [newline]) r)
      = .ok { r with families := [(unsigned index, description family)] } := by
    rw [readPassed_newline, if_neg hpass, readFamily, matchLine_newline, scan_familyLine index h]
    simp only [insert, hnew, List.lookup_nil, List.nil_append, description]
  rw [readLine_of_family hfamily, readSummary_none hsummary, readRecord_none hrecord]

/-! ## Records -/

theorem word_ne_nil (w : UInt16) : word w ≠ [] := by
  have hlength : (word w).length = 4 := length_hex (by decide) w.toNat_lt
  exact List.ne_nil_of_length_pos (by omega)

/-- Blanks between words are taken away again. -/
theorem splitWhitespace_spaced (w : UInt16) (words : List UInt16) :
    splitWhitespace (word w ++ spaced words) = (w :: words).map word := by
  have hword : ∀ w : UInt16, ∀ b ∈ word w, decide (b ∈ [32, 9, 10, 11, 12, 13]) = false := by
    intro w b hb
    have hhex := List.all_eq_true.mp (isHex_hex 4 w.toNat) b hb
    refine decide_eq_false fun hmem => ?_
    simp only [List.mem_cons, List.not_mem_nil, or_false] at hmem
    rcases hmem with rfl | rfl | rfl | rfl | rfl | rfl
    · exact absurd hhex (by decide)
    · exact absurd hhex (by decide)
    · exact absurd hhex (by decide)
    · exact absurd hhex (by decide)
    · exact absurd hhex (by decide)
    · exact absurd hhex (by decide)
  induction words generalizing w with
  | nil =>
      have hline : word w ++ spaced [] = word w := List.append_nil _
      rw [hline, splitWhitespace, List.splitOnP_eq_singleton (hword w)]
      simp [word_ne_nil]
  | cons w' words ih =>
      have hrest := ih w'
      rw [splitWhitespace] at hrest ⊢
      rw [spaced_cons, List.singleton_append,
        List.splitOnP_append_cons_of_forall_mem (hword w) space (by decide),
        List.filter_cons_of_pos (by simpa using word_ne_nil w), hrest]
      rfl

/-- The text of a record. -/
def recordText (expansion : Nat) (record : Record) : Text :=
  joinFields (unsigned index :: hex 4 expansion :: record.outcome.name :: record.words.map word)

def recordKey (expansion : Nat) : Text := keyOf index (hex 4 expansion)

/-- The names of the pattern of a record. -/
def outcomeNames : List Text :=
  [ascii "complete", ascii "trap-complete", ascii "timeout", ascii "trap-timeout", ascii "unsafe-skip"]

theorem name_mem (outcome : Outcome) : outcome.name ∈ outcomeNames := by
  cases outcome with
  | complete => decide
  | trapComplete => decide
  | timeout => decide
  | trapTimeout => decide
  | unsafeSkip => decide

theorem names_apart : ∀ name ∈ outcomeNames, ∀ other ∈ outcomeNames, other ≠ name →
    ¬ other <+: name ∧ ¬ name <+: other := by
  decide +kernel

theorem exists_words (record : Record) : ∃ w words, record.words = w :: words ∧ words.length = 23 := by
  have hlength := record.length
  cases hwords : record.words with
  | nil =>
      rw [hwords] at hlength
      cases hlength
  | cons w words =>
      rw [hwords] at hlength
      exact ⟨w, words, rfl, Nat.succ.inj hlength⟩

theorem recordLine_eq (expansion : Nat) (record : Record) {w : UInt16} {words : List UInt16}
    (h : record.words = w :: words) :
    recordLine index expansion record = ascii "# DSPEXP " ++ (unsigned index ++ ([space] ++
      (hex 4 expansion ++ ([space] ++ (record.outcome.name ++ ([space] ++
        (word w ++ spaced words))))))) := by
  rw [← spaced_cons, ← h]
  simp only [recordLine, List.append_assoc]

theorem scan_recordLine {expansion : Nat} (hexpansion : expansion < 0x10000) (record : Record)
    {w : UInt16} {words : List UInt16} (h : record.words = w :: words) :
    scan recordPattern (recordLine index expansion record)
      = some [unsigned index, hex 4 expansion, record.outcome.name, word w ++ spaced words] := by
  have hword := length_hex (k := 4) (by decide) hexpansion
  have hpattern : recordPattern = .literal (ascii "# DSPEXP ") :: decimals :: .literal [space] ::
      hexWord :: .literal [space] :: .oneOf outcomeNames :: .literal [space] :: [.remainder] := rfl
  rw [recordLine_eq index expansion record h, hpattern, scan_literal, decimals,
    scan_many_before (unsigned_ne_nil _) (isDecimal_unsigned _) (by decide), scan_literal, hexWord,
    scan_exactly hword (isHex_hex 4 expansion), scan_literal,
    scan_oneOf (name_mem _) (names_apart _ (name_mem _)), scan_literal, scan_remainder]
  rfl

theorem endsInTimeout_iff (outcome : Outcome) :
    endsInTimeout outcome.name = true ↔ outcome = .timeout ∨ outcome = .trapTimeout := by
  cases outcome with
  | complete => decide
  | trapComplete => decide
  | timeout => decide
  | trapTimeout => decide
  | unsafeSkip => decide

theorem noWords_printed : noWords.map word = List.replicate 24 (ascii "FFFF") := by
  rw [noWords, List.map_replicate, word_max]

/-- The words of a timeout are printed as the script would set them. -/
theorem keptWords (record : Record) :
    (if endsInTimeout record.outcome.name then List.replicate 24 (ascii "FFFF")
      else record.words.map word) = record.words.map word := by
  by_cases hlate : endsInTimeout record.outcome.name = true
  · rw [if_pos hlate, record.late ((endsInTimeout_iff _).mp hlate), noWords_printed]
  · rw [if_neg hlate]

theorem scan_word (w : UInt16) : (scan [hexWord] (word w)).isNone = false := by
  have hword := scan_hexWord w [] []
  rw [List.append_nil] at hword
  rw [hword]
  rfl

/-- **The line of a record.** -/
theorem readLine_recordLine {expansion : Nat} (hexpansion : expansion < 0x10000) (record : Record)
    (hnew : r.records.lookup (recordKey index expansion) = none) :
    readLine r (recordLine index expansion record ++ [newline])
      = .ok { r with records := r.records ++
          [(recordKey index expansion, recordText index expansion record)] } := by
  obtain ⟨w, words, hwords, hcount⟩ := exists_words record
  have hline := recordLine_eq index expansion record hwords
  have hpass : recordLine index expansion record ≠ passLine := by
    rw [hline]
    exact ne_passLine (by decide) _
  have hfamily : scan familyPattern (recordLine index expansion record) = none := by
    rw [hline]
    exact scan_literal_of_not (not_prefix_append (by decide) (by decide) _)
  have hsummary : scan summaryPattern (recordLine index expansion record) = none := by
    rw [hline]
    exact scan_literal_of_not (not_prefix_append (by decide) (by decide) _)
  have hread := readFamily_none hfamily
    (readPassed (recordLine index expansion record ++ [newline]) r)
  have hlength : ¬ ((w :: words).map word).length ≠ 24 := by simp [hcount]
  have hmalformed : ((w :: words).map word).any (fun w => (scan [hexWord] w).isNone) = false := by
    rw [List.any_map, List.any_eq_false]
    intro w _
    simp [scan_word]
  have hkept := keptWords record
  rw [hwords] at hkept
  rw [readLine_of_family hread, readSummary_none hsummary, readPassed_newline, if_neg hpass, readRecord,
    matchLine_newline, scan_recordLine index hexpansion record hwords]
  simp only [splitWhitespace_spaced, if_neg hlength, hmalformed, hkept, number_unsigned,
    Bool.false_eq_true, if_false]
  rw [← recordKey, insert, hnew, recordText, hwords]

/-! ## All the lines -/

theorem recordKey_injective {m n : Nat} (hm : m < 0x10000) (hn : n < 0x10000)
    (h : recordKey index m = recordKey index n) : m = n := by
  have hhex : hex 4 m = hex 4 n := List.append_cancel_left h
  have hvalue := congrArg hexOf hhex
  rwa [hexOf_hex (by decide) hm, hexOf_hex (by decide) hn] at hvalue

/-- Records by their keys, in the order of their words. -/
def recordsUpTo (records : Nat → Record) (n : Nat) : Hash :=
  (List.range n).map fun e => (recordKey index e, recordText index e (records e))

theorem lookup_recordsUpTo (records : Nat → Record) {n expansion : Nat} (hn : n ≤ 0x10000)
    (hexpansion : expansion < 0x10000) :
    (recordsUpTo index records n).lookup (recordKey index expansion)
      = if expansion < n then some (recordText index expansion (records expansion)) else none := by
  induction n with
  | zero => rfl
  | succ n ih =>
      have hsplit : recordsUpTo index records (n + 1)
          = recordsUpTo index records n ++ [(recordKey index n, recordText index n (records n))] := by
        rw [recordsUpTo, List.range_succ, List.map_append]
        rfl
      rw [hsplit, List.lookup_append, ih (Nat.le_of_succ_le hn), List.lookup_singleton]
      rcases Nat.lt_trichotomy expansion n with hlt | rfl | hgt
      · rw [if_pos hlt, if_pos (Nat.lt_succ_of_lt hlt), Option.some_or]
      · rw [if_neg (Nat.lt_irrefl _), if_pos (beq_self_eq_true _), if_pos (Nat.lt_succ_self _),
          Option.none_or]
      · have hother : ¬ (recordKey index expansion == recordKey index n) = true := by
          rw [beq_iff_eq]
          exact fun h => absurd (recordKey_injective index hexpansion hn h) (Nat.ne_of_gt hgt)
        rw [if_neg (Nat.not_lt.mpr (Nat.le_of_lt hgt)), if_neg hother,
          if_neg (Nat.not_lt.mpr hgt), Option.none_or]

/-- The lines of a turn add the record of a new word and do nothing else. -/
theorem readLines_turn {expansion : Nat} (hexpansion : expansion < 0x10000) (taken : Option Result)
    {behind : List Text} (hbehind : ∀ line ∈ behind, line = mismatchLine index expansion ∨
      line = progressLine index expansion)
    (hnew : r.records.lookup (recordKey index expansion) = none) :
    ((linesBefore index expansion taken ++
        recordLine index expansion (recordOf taken) :: behind).map
      fun line => line ++ [newline]).foldlM readLine r
      = .ok { r with records := r.records ++
          [(recordKey index expansion, recordText index expansion (recordOf taken))] } := by
  have hbefore : ((linesBefore index expansion taken).map fun line => line ++ [newline]).foldlM
      readLine r = .ok r := by
    cases taken with
    | none => rfl
    | some result =>
        rw [linesBefore]
        split_ifs
        · rfl
        · rw [List.map_singleton, foldlM_cons_of_ok (readLine_transient index expansion _ r)]
          rfl
  have hothers : ∀ r : Reading, (behind.map fun line => line ++ [newline]).foldlM readLine r
      = .ok r := by
    intro r
    induction behind with
    | nil => rfl
    | cons line lines ih =>
        obtain ⟨hline, hlines⟩ := List.forall_mem_cons.mp hbehind
        have hread : readLine r (line ++ [newline]) = .ok r := by
          rcases hline with rfl | rfl
          · exact readLine_mismatch index expansion r
          · exact readLine_progress index expansion r
        rw [List.map_cons, foldlM_cons_of_ok hread]
        exact ih hlines
  rw [List.map_append, foldlM_append_of_ok hbefore, List.map_cons,
    foldlM_cons_of_ok (readLine_recordLine index hexpansion _ hnew), hothers]

end

section

variable (hashes : HardwareHashes) (board : Board) (index : FamilyIndex) (observed : Nat → Result)

/-- The records of a run. -/
def runRecords : Hash := recordsUpTo index (runRecord board index observed) 0x10000

/-- What is read when the lines of the words below `n` have gone by. -/
def readUpTo (n : Nat) : Reading where
  families := [(unsigned index, description (families.get index))]
  records := recordsUpTo index (runRecord board index observed) n
  summary := none
  summaryCount := 0
  passed := false

theorem readLines_stateUpTo {n : Nat} (hn : n ≤ 0x10000) :
    ((stateUpTo hashes board index observed n).lines.map fun line => line ++ [newline]).foldlM
      readLine Reading.start = .ok (readUpTo board index observed n) := by
  induction n with
  | zero =>
      have hfamily := @readLine_familyLine Reading.start index _ (families_named index) rfl
      rw [stateUpTo, State.print]
      exact (foldlM_cons_of_ok hfamily).trans rfl
  | succ n ih =>
      obtain ⟨behind, hbehind, hlines⟩ := lines_probeExpansion hashes 0 index n
        (taken board index observed n) (stateUpTo hashes board index observed n)
      have hnew : (readUpTo board index observed n).records.lookup (recordKey index n) = none :=
        (lookup_recordsUpTo index _ (Nat.le_of_succ_le hn) hn).trans (if_neg (Nat.lt_irrefl n))
      have hrecords : (readUpTo board index observed n).records ++
          [(recordKey index n, recordText index n (runRecord board index observed n))]
          = (readUpTo board index observed (n + 1)).records := by
        simp only [readUpTo, recordsUpTo, List.range_succ, List.map_append, List.map_singleton]
      rw [stateUpTo, hlines, List.map_append, foldlM_append_of_ok (ih (Nat.le_of_succ_le hn)),
        readLines_turn index hn _ hbehind hnew]
      exact congrArg (fun records => Except.ok (Reading.mk _ records none 0 false)) hrecords

/-- The summary of a run. -/
def runSummary : Summary where
  familyFirst := unsigned index
  familyLast := unsigned index
  wordFirst := 0
  wordLast := 0xFFFF
  executed := (runEnd hashes board index observed).executed
  skipped := (runEnd hashes board index observed).skipped
  completed := (runEnd hashes board index observed).completed
  trapped := (runEnd hashes board index observed).trapped
  timedOut := (runEnd hashes board index observed).timedOut

end

theorem summaryLine_eq (index : Nat) (st : State) :
    summaryLine index index 0 0xFFFF st = ascii "# DSPEXP-SUMMARY families=" ++ (unsigned index ++
      (ascii "-" ++ (unsigned index ++ (ascii " words=" ++ (hex 4 0 ++ (ascii "-" ++ (hex 4 0xFFFF ++
        (ascii " executed=" ++ (unsigned st.executed ++ (ascii " skipped=" ++
          (unsigned st.skipped ++ (ascii " complete=" ++ (unsigned st.completed ++
            (ascii " trap=" ++ (unsigned st.trapped ++ (ascii " timeout=" ++
              unsigned st.timedOut)))))))))))))))) := by
  simp only [summaryLine, List.append_assoc]

theorem scan_summaryLine (index : Nat) (st : State) :
    scan summaryPattern (summaryLine index index 0 0xFFFF st)
      = some [unsigned index, unsigned index, hex 4 0, hex 4 0xFFFF, unsigned st.executed,
          unsigned st.skipped, unsigned st.completed, unsigned st.trapped, unsigned st.timedOut] := by
  have hfirst := length_hex (k := 4) (n := 0) (by decide) (by decide)
  have hlast := length_hex (k := 4) (n := 0xFFFF) (by decide) (by decide)
  have hnumber := fun n => scan_many_end (unsigned_ne_nil n) (isDecimal_unsigned n)
  rw [summaryLine_eq, summaryPattern, scan_literal, decimals,
    scan_many_before (unsigned_ne_nil _) (isDecimal_unsigned _) (by decide), scan_literal,
    scan_many_before (unsigned_ne_nil _) (isDecimal_unsigned _) (by decide), scan_literal, hexWord,
    scan_exactly hfirst (isHex_hex 4 _), scan_literal, scan_exactly hlast (isHex_hex 4 _), scan_literal,
    scan_many_before (unsigned_ne_nil _) (isDecimal_unsigned _) (by decide), scan_literal,
    scan_many_before (unsigned_ne_nil _) (isDecimal_unsigned _) (by decide), scan_literal,
    scan_many_before (unsigned_ne_nil _) (isDecimal_unsigned _) (by decide), scan_literal,
    scan_many_before (unsigned_ne_nil _) (isDecimal_unsigned _) (by decide), scan_literal, hnumber]
  rfl

/-- **The line of the summary.** -/
theorem readLine_summaryLine (index : Nat) (st : State) (r : Reading) :
    readLine r (summaryLine index index 0 0xFFFF st ++ [newline])
      = .ok { r with
          summary := some ⟨unsigned index, unsigned index, 0, 0xFFFF, st.executed, st.skipped,
            st.completed, st.trapped, st.timedOut⟩
          summaryCount := r.summaryCount + 1 } := by
  have hpass : summaryLine index index 0 0xFFFF st ≠ passLine := by
    rw [summaryLine_eq]
    exact ne_passLine (by decide) _
  have hfamily : scan familyPattern (summaryLine index index 0 0xFFFF st) = none := by
    rw [summaryLine_eq]
    exact scan_literal_of_not (not_prefix_append (by decide) (by decide) _)
  have hrecord : scan recordPattern (summaryLine index index 0 0xFFFF st) = none := by
    rw [summaryLine_eq]
    exact scan_literal_of_not (not_prefix_append (by decide) (by decide) _)
  have hread := readFamily_none hfamily
    (readPassed (summaryLine index index 0 0xFFFF st ++ [newline]) r)
  have hfirst : hexOf (hex 4 0) = 0 := hexOf_hex (by decide) (by decide)
  have hlast : hexOf (hex 4 0xFFFF) = 0xFFFF := hexOf_hex (by decide) (by decide)
  rw [readLine_of_family hread, readRecord_none hrecord, readPassed_newline, if_neg hpass, readSummary,
    matchLine_newline, scan_summaryLine]
  simp only [number_unsigned, hfirst, hlast]

end Pmb887x.OpcodeProbe.Expansion
