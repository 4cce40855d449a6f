import Pmb887x.OpcodeProbe.ExpansionAccepted

set_option autoImplicit false

/-! # The merged map of a family

Whatever the second capture is, a map that `merge_expansion_probe.pl` makes with the log of a run as its
first capture has the records of the run, with a trap before a timeout taken away, in the order of their
expansion words. -/

namespace Pmb887x.OpcodeProbe.Expansion

open Library UnitTest
open Boot.Output (ascii newline space)

/-! ## The order of the keys -/

theorem lt_append_of_lt {a b : Text} (hlength : a.length = b.length) (h : a < b) (x y : Text) :
    a ++ x < b ++ y := by
  induction a generalizing b with
  | nil =>
      cases b with
      | nil => exact absurd h (by simp)
      | cons _ _ => cases hlength
  | cons c a ih =>
      cases b with
      | nil => cases hlength
      | cons c' b =>
          rw [List.cons_append, List.cons_append, List.cons_lt_cons_iff]
          rcases List.cons_lt_cons_iff.mp h with hlt | ⟨heq, hlt⟩
          · exact .inl hlt
          · exact .inr ⟨heq, ih (Nat.succ.inj hlength) hlt⟩

/-- Digits in upper case are in the order of their values. -/
theorem hexDigit_lt : ∀ m < 16, ∀ n < 16, m < n →
    UInt8.ofNat (hexDigit m).toNat < UInt8.ofNat (hexDigit n).toNat := by
  decide +kernel

/-- Numbers of one width are in the order of their digits. -/
theorem hexFixed_lt {k m n : Nat} (h : m < n) (hn : n < 16 ^ k) :
    (hexFixed k m).map (fun c => UInt8.ofNat c.toNat)
      < (hexFixed k n).map fun c => UInt8.ofNat c.toNat := by
  induction k generalizing m n with
  | zero =>
      rw [Nat.pow_zero] at hn
      omega
  | succ k ih =>
      have hdiv : n / 16 < 16 ^ k := by
        rw [Nat.div_lt_iff_lt_mul (by decide), ← Nat.pow_succ]
        exact hn
      rw [hexFixed, hexFixed, List.map_append, List.map_append, List.map_singleton, List.map_singleton]
      rcases Nat.lt_or_ge (m / 16) (n / 16) with hlt | hge
      · refine lt_append_of_lt ?_ (ih hlt hdiv) _ _
        rw [List.length_map, List.length_map, hexFixed_length, hexFixed_length]
      · have hsame : m / 16 = n / 16 := Nat.le_antisymm (Nat.div_le_div_right (Nat.le_of_lt h)) hge
        have hdigit : m % 16 < n % 16 := by omega
        rw [hsame]
        refine List.append_left_lt (List.cons_lt_cons_iff.mpr (.inl ?_))
        exact hexDigit_lt _ (Nat.mod_lt _ (by decide)) _ (Nat.mod_lt _ (by decide)) hdigit

theorem recordKey_lt (index : Nat) {m n : Nat} (h : m < n) (hn : n < 0x10000) :
    recordKey index m < recordKey index n := by
  rw [recordKey, recordKey, keyOf, keyOf, hex, hex,
    hexPadded_of_lt (by decide) (Nat.lt_trans h hn), hexPadded_of_lt (by decide) hn]
  exact List.append_left_lt (hexFixed_lt h hn)

/-- The keys of a run are sorted as they are. -/
theorem sortedKeys_recordsUpTo (index : Nat) (records : Nat → Record) :
    sortedKeys (recordsUpTo index records 0x10000)
      = (List.range 0x10000).map (recordKey index) := by
  have hkeys : (recordsUpTo index records 0x10000).map Prod.fst
      = (List.range 0x10000).map (recordKey index) := by
    rw [recordsUpTo, List.map_map]
    rfl
  rw [sortedKeys, hkeys]
  refine List.mergeSort_of_pairwise (List.pairwise_map.mpr ?_)
  refine (List.pairwise_lt_range.imp_of_mem fun hm hn hlt => ?_)
  exact decide_eq_true (List.le_of_lt (recordKey_lt index hlt (List.mem_range.mp hn)))

/-! ## Normalised records -/

/-- A trap before a timeout is no difference. -/
def normalOutcome (outcome : Outcome) : Outcome :=
  if outcome = .trapTimeout then .timeout else outcome

theorem normalOutcome_late {outcome : Outcome}
    (h : normalOutcome outcome = .timeout ∨ normalOutcome outcome = .trapTimeout) :
    outcome = .timeout ∨ outcome = .trapTimeout := by
  revert h
  cases outcome <;> decide

/-- The record that the map has of a word. -/
def Record.normal (record : Record) : Record where
  outcome := normalOutcome record.outcome
  words := record.words
  length := record.length
  late h := record.late (normalOutcome_late h)

theorem joinFields_of_ne_nil {field : Text} {fields : List Text} (h : fields ≠ []) :
    joinFields (field :: fields) = field ++ comma :: joinFields fields := by
  cases fields with
  | nil => exact absurd rfl h
  | cons next fields => exact joinFields_cons field next fields

theorem words_ne_nil (record : Record) : record.words.map word ≠ [] := by
  obtain ⟨w, words, hwords, -⟩ := exists_words record
  rw [hwords]
  exact List.cons_ne_nil _ _

theorem recordText_eq (index expansion : Nat) (record : Record) :
    recordText index expansion record = unsigned index ++ ([comma] ++ (hex 4 expansion ++
      (([comma] ++ record.outcome.name ++ [comma]) ++ joinFields (record.words.map word)))) := by
  rw [recordText, joinFields_cons, joinFields_cons, joinFields_of_ne_nil (words_ne_nil record)]
  simp

/-- **Normalising a record** gives the text of its normal form. -/
theorem normalizeRecord_recordText (index : Nat) {expansion : Nat} (h : expansion < 0x10000)
    (record : Record) :
    normalizeRecord (recordText index expansion record)
      = recordText index expansion record.normal := by
  have hword := length_hex (k := 4) (by decide) h
  have hscan : ∀ pieces behind, scan (decimals :: .literal [comma] :: hexWord :: pieces)
      (unsigned index ++ ([comma] ++ (hex 4 expansion ++ behind)))
      = (scan pieces behind).map fun more => unsigned index :: hex 4 expansion :: more := by
    intro pieces behind
    rw [decimals, scan_many_before (unsigned_ne_nil _) (isDecimal_unsigned _) (by decide), scan_literal,
      hexWord, scan_exactly hword (isHex_hex 4 _), Option.map_map]
    rfl
  rw [normalizeRecord, recordText_eq, hscan]
  by_cases htrap : record.outcome = .trapTimeout
  · have hname : [comma] ++ record.outcome.name ++ [comma] = ascii ",trap-timeout," := by
      rw [htrap]
      decide
    have houtcome : record.normal.outcome = .timeout := if_pos htrap
    have hnormal : [comma] ++ record.normal.outcome.name ++ [comma] = ascii ",timeout," := by
      rw [houtcome]
      decide
    rw [hname, scan_literal, scan_remainder, recordText_eq, hnormal]
    simp only [Option.map_some, List.append_assoc]
    rfl
  · have hapart : ¬ ascii ",trap-timeout," <+: [comma] ++ record.outcome.name ++ [comma] ∧
        ¬ [comma] ++ record.outcome.name ++ [comma] <+: ascii ",trap-timeout," := by
      revert htrap
      cases record.outcome <;> decide
    have hnormal : record.normal.outcome = record.outcome := if_neg htrap
    rw [scan_literal_of_not (not_prefix_append hapart.1 hapart.2 _), recordText_eq, hnormal]
    rfl

/-! ## The map -/

section

variable (d : Device) (hashes : HardwareHashes) (index : FamilyIndex) (observed : Nat → Result)

/-- The records of the map of a run. -/
def mapRecords (index : Nat) (records : Nat → Record) : List Text :=
  (List.range 0x10000).map fun e => recordText index e (records e).normal

/-- The line of the family in its map. -/
def metadataLine (index : FamilyIndex) : Text :=
  ascii "# family," ++ unsigned index ++ [comma] ++ description (families.get index)

/-- The map of a run. -/
def runMap (board : Board) : Text :=
  unlines (metadataLine index :: mapHeader :: mapRecords index (runRecord board index observed))

theorem valueOf_runRecords (board : Board) {expansion : Nat} (h : expansion < 0x10000) :
    valueOf (runRecords board index observed) (recordKey index expansion)
      = recordText index expansion (runRecord board index observed expansion) := by
  rw [valueOf, runRecords, lookup_recordsUpTo index _ (Nat.le_refl _) h, if_pos h]
  rfl

theorem mapLines_runCapture :
    mapLines (runCapture d hashes index observed)
      = metadataLine index :: mapHeader :: mapRecords index (runRecord d.board index observed) := by
  have hfamilies : sortedFamilies (runCapture d hashes index observed).families
      = [unsigned index] := by
    rw [runCapture, sortedFamilies, List.map_singleton, List.mergeSort_singleton]
  have hdescription : valueOf (runCapture d hashes index observed).families (unsigned index)
      = description (families.get index) := by
    rw [runCapture, valueOf, List.lookup_singleton, if_pos (beq_self_eq_true _)]
    rfl
  have hrecords : (runCapture d hashes index observed).records
      = runRecords d.board index observed := by rw [runCapture]
  have hkeys : sortedKeys (runRecords d.board index observed)
      = (List.range 0x10000).map (recordKey index) := by
    rw [runRecords, sortedKeys_recordsUpTo]
  have hvalues : ((List.range 0x10000).map (recordKey index)).map (fun key =>
      normalizeRecord (valueOf (runRecords d.board index observed) key))
      = mapRecords index (runRecord d.board index observed) := by
    rw [List.map_map, mapRecords]
    refine List.map_congr_left fun e he => ?_
    have hlt := List.mem_range.mp he
    rw [Function.comp_apply, valueOf_runRecords index observed d.board hlt,
      normalizeRecord_recordText index hlt]
  rw [mapLines, hfamilies, hrecords, hkeys, hvalues, List.map_singleton, hdescription,
    List.singleton_append, metadataLine]

/-- **A map made of two captures** is that of the first. -/
theorem mergeCaptures_ok {first second : Capture} {map : Text}
    (h : mergeCaptures first second = .ok map) :
    map = List.intercalate [newline] (mapLines first) ++ [newline] := by
  rw [mergeCaptures] at h
  split_ifs at h
  split at h
  · cases h
  · split at h
    · cases h
    · exact (Except.ok.inj h).symm

theorem map_of_mergeCaptures {second : Capture} {map : Text}
    (h : mergeCaptures (runCapture d hashes index observed) second = .ok map) :
    map = runMap index observed d.board := by
  rw [mergeCaptures_ok h, mapLines_runCapture, joinLines_eq_unlines, runMap]

theorem map_of_mergeExpansionProbe {second map : Text}
    (h : mergeExpansionProbe (familyRun d hashes index observed).text second = .ok map) :
    map = runMap index observed d.board := by
  rw [mergeExpansionProbe, readCapture_familyRun] at h
  by_cases hpass : lastLine d hashes index observed = passLine
  · rw [if_pos hpass] at h
    cases hsecond : readCapture second with
    | error error =>
        rw [hsecond] at h
        cases h
    | ok capture =>
        rw [hsecond] at h
        exact map_of_mergeCaptures d hashes index observed h
  · rw [if_neg hpass] at h
    cases h

/-- A run that passes can be merged with itself. -/
theorem mergeExpansionProbe_self (hpass : lastLine d hashes index observed = passLine) :
    mergeExpansionProbe (familyRun d hashes index observed).text
      (familyRun d hashes index observed).text = .ok (runMap index observed d.board) := by
  have hself : mergeCaptures (runCapture d hashes index observed)
      (runCapture d hashes index observed) = .ok (runMap index observed d.board) := by
    have hfamilies : (sortedFamilies (runCapture d hashes index observed).families).find? (fun family =>
        valueOf (runCapture d hashes index observed).families family
          ≠ valueOf (runCapture d hashes index observed).families family) = none := by
      rw [List.find?_eq_none]
      simp
    have hrecords : (sortedKeys (runCapture d hashes index observed).records).find? (fun key =>
        normalizeRecord (valueOf (runCapture d hashes index observed).records key)
          ≠ normalizeRecord (valueOf (runCapture d hashes index observed).records key)) = none := by
      rw [List.find?_eq_none]
      simp
    rw [mergeCaptures, if_neg (fun hne => hne rfl), hfamilies, hrecords, mapLines_runCapture,
      joinLines_eq_unlines]
    rfl
  rw [mergeExpansionProbe, readCapture_familyRun, if_pos hpass]
  exact hself

end

end Pmb887x.OpcodeProbe.Expansion
