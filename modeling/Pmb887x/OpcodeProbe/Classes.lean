import Pmb887x.OpcodeProbe.RawCapture
import Pmb887x.Library.BitFields

set_option autoImplicit false

/-! # The packed classes of the opcodes

`pack_classes.pl` packs the classes of four opcodes into a byte. A map whose records all have a class gives
the device a table that expects of each opcode what the probe has seen of it. -/

namespace Pmb887x.OpcodeProbe.Raw

open Library UnitTest
open Boot.Output (ascii newline space)

/-! ## The table -/

variable {bytes table : List UInt8} {lines : List Text}

theorem classOf_lt {outcome : Text} {code : Nat} (h : classOf outcome = some code) : code < 4 := by
  rw [classOf] at h
  split_ifs at h
  · cases h
    decide
  · cases h
    decide
  · cases h
    decide
  · cases h
    decide

theorem length_addClass (bytes : List UInt8) (opcode code : Nat) :
    (addClass bytes opcode code).length = bytes.length := List.length_modify _ _ _

/-- Packing the class of an opcode is seen by this opcode only. -/
theorem classCode_addClass {opcode code : Nat} (hopcode : opcode >>> 2 < bytes.length)
    (hcode : code < 4) (other : Nat) :
    classCode (addClass bytes opcode code) other
      = classCode bytes other ||| if opcode = other then code else 0 := by
  have hbyte : (UInt8.ofNat (code <<< ((opcode &&& 3) * 2))).toNat = code <<< ((opcode &&& 3) * 2) := by
    have hshift : opcode &&& 3 ≤ 3 := Nat.and_le_right
    have hpow : 2 ^ ((opcode &&& 3) * 2) ≤ 2 ^ 6 := Nat.pow_le_pow_right (by decide) (by omega)
    have hle : code * 2 ^ ((opcode &&& 3) * 2) ≤ 3 * 2 ^ 6 := Nat.mul_le_mul (by omega) hpow
    rw [UInt8.toNat_ofNat', Nat.shiftLeft_eq, Nat.mod_eq_of_lt (by omega)]
  rw [classCode, classCode, addClass, List.getD_eq_getElem?_getD, List.getD_eq_getElem?_getD,
    List.getElem?_modify]
  by_cases hsame : opcode >>> 2 = other >>> 2
  · have hget : bytes[other >>> 2]? = some bytes[opcode >>> 2] := by
      rw [← hsame, List.getElem?_eq_getElem hopcode]
    have hiff : (opcode &&& 3 = other &&& 3) ↔ opcode = other := by
      rw [Nat.shiftRight_eq_div_pow, Nat.shiftRight_eq_div_pow] at hsame
      rw [show 3 = 2 ^ 2 - 1 from rfl, Nat.and_two_pow_sub_one_eq_mod, Nat.and_two_pow_sub_one_eq_mod]
      omega
    have hslot := slot_or bytes[opcode >>> 2].toNat (k := 2) hcode (opcode &&& 3) (other &&& 3)
    simp only [if_pos hsame, hget, Option.map_eq_map, Option.map_some, Option.getD_some,
      UInt8.toNat_or, hbyte]
    simp only [hiff] at hslot
    exact hslot
  · have hother : opcode ≠ other := fun h => hsame (congrArg (· >>> 2) h)
    simp only [if_neg hsame, if_neg hother, Nat.or_zero]
    simp

/-- One turn of the loop. -/
theorem packClass_ok {opcode : Nat} (h : packClass lines bytes opcode = .ok table) :
    ∃ code, classOf (splitFirst (lines.getD opcode [])).2 = some code ∧
      table = addClass bytes opcode code := by
  rw [packClass] at h
  cases hclass : classOf (splitFirst (lines.getD opcode [])).2 with
  | none =>
      simp only [hclass] at h
      split_ifs at h
  | some code =>
      simp only [hclass] at h
      split_ifs at h
      exact ⟨code, rfl, (Except.ok.inj h).symm⟩

/-- The classes of the opcodes below `n` are in the table, and the others are still zero. -/
structure Packed (lines : List Text) (n : Nat) (table : List UInt8) : Prop where
  length : table.length = 0x4000
  done : ∀ opcode < n, classOf (splitFirst (lines.getD opcode [])).2 = some (classCode table opcode)
  rest : ∀ opcode, n ≤ opcode → classCode table opcode = 0

theorem packed_zero (lines : List Text) : Packed lines 0 (List.replicate 0x4000 0) where
  length := List.length_replicate
  done opcode h := absurd h (Nat.not_lt_zero opcode)
  rest opcode _ := by
    have hbyte : (List.replicate 0x4000 (0 : UInt8)).getD (opcode >>> 2) 0 = 0 := by
      rw [List.getD_eq_getElem?_getD, List.getElem?_replicate]
      split_ifs
      · rfl
      · rfl
    rw [classCode, hbyte]
    simp

theorem Packed.step {n : Nat} (h : Packed lines n bytes) (hn : n < 0x10000)
    (hstep : packClass lines bytes n = .ok table) : Packed lines (n + 1) table := by
  obtain ⟨code, hclass, rfl⟩ := packClass_ok hstep
  have hopcode : n >>> 2 < bytes.length := by
    rw [h.length, Nat.shiftRight_eq_div_pow]
    omega
  have hcode := classCode_addClass hopcode (classOf_lt hclass)
  constructor
  · rw [length_addClass, h.length]
  · intro opcode hlt
    rw [hcode]
    by_cases hsame : n = opcode
    · rw [if_pos hsame, ← hsame, h.rest n (Nat.le_refl n), Nat.zero_or, hclass]
    · rw [if_neg hsame, Nat.or_zero]
      exact h.done opcode (by omega)
  · intro opcode hle
    have hother : n ≠ opcode := Nat.ne_of_lt hle
    rw [hcode, h.rest opcode (Nat.le_of_succ_le hle), if_neg hother]
    rfl

/-- The loop of `pack_classes.pl`. -/
theorem packed_range {n : Nat} (hn : n ≤ 0x10000)
    (h : (List.range n).foldlM (packClass lines) (List.replicate 0x4000 0) = .ok table) :
    Packed lines n table := by
  induction n generalizing table with
  | zero =>
      cases h
      exact packed_zero lines
  | succ n ih =>
      rw [List.range_succ, List.foldlM_append] at h
      cases hbefore : (List.range n).foldlM (packClass lines) (List.replicate 0x4000 0) with
      | error error =>
          rw [hbefore] at h
          cases h
      | ok bytes =>
          rw [hbefore] at h
          have hstep : packClass lines bytes n = .ok table := by
            cases hpack : packClass lines bytes n with
            | error error => simp [bind, Except.bind, hpack] at h
            | ok packed => simpa [bind, Except.bind, pure, Except.pure, hpack] using h
          exact (ih (Nat.le_of_succ_le hn) hbefore).step hn hstep

/-! ## The records -/

/-- The fields behind the opcode in the record of an observation. -/
def observedFields (o : Observation) : List Text := o.outcome.name :: o.kept.words.map word

theorem printedRecord_eq (opcode : Nat) (o : Observation) :
    printedRecord opcode o = hex 4 opcode ++ comma :: joinFields (observedFields o) := by
  rw [printedRecord, observedFields, joinFields_cons]

theorem splitFirst_printedRecord (opcode : Nat) (o : Observation) :
    splitFirst (printedRecord opcode o) = (hex 4 opcode, joinFields (observedFields o)) := by
  have hfield : (hex 4 opcode).all (fun b => decide (b ≠ comma)) = true := by
    rw [List.all_eq_true]
    intro b hb
    exact decide_eq_true fun h => comma_not_mem_hex 4 opcode (h ▸ hb)
  have hsplit := @takeWhile_append_stop _ (hex 4 opcode) (comma :: joinFields (observedFields o))
    (fun b => decide (b ≠ comma)) hfield (by simp)
  rw [splitFirst, printedRecord_eq, hsplit.1, hsplit.2, List.tail_cons]

theorem comma_not_mem_observedFields (o : Observation) :
    ∀ field ∈ observedFields o, comma ∉ field := by
  intro field hfield
  rcases List.mem_cons.mp hfield with rfl | hfield
  · exact comma_not_mem_name _
  · obtain ⟨w, -, rfl⟩ := List.mem_map.mp hfield
    exact comma_not_mem_hex 4 _

/-- The fields of a record that reads like `outcome` and `words`. -/
theorem observed_of_fields {o : Observation} {outcome : Outcome} {words : List UInt16}
    (h : joinFields (observedFields o) = joinFields (outcome.name :: words.map word)) :
    o.outcome = outcome ∧ o.kept.words = words := by
  have hwords : ∀ field ∈ outcome.name :: words.map word, comma ∉ field := by
    intro field hfield
    rcases List.mem_cons.mp hfield with rfl | hfield
    · exact comma_not_mem_name _
    · obtain ⟨w, -, rfl⟩ := List.mem_map.mp hfield
      exact comma_not_mem_hex 4 _
  have hsplit := congrArg (List.splitOn comma) h
  rw [joinFields, joinFields, List.splitOn_intercalate comma (comma_not_mem_observedFields o)
    (List.cons_ne_nil _ _), List.splitOn_intercalate comma hwords (List.cons_ne_nil _ _)] at hsplit
  obtain ⟨hname, hmarkers⟩ := List.cons.inj hsplit
  exact ⟨name_injective hname, List.map_injective_iff.mpr (fun _ _ => word_injective) hmarkers⟩

/-- What an outcome says about the wait and the trap marker. -/
theorem outcome_cases (o : Observation) :
    (o.done = true ∧ o.markers.trap = markerTrap ∧ o.outcome = .trapComplete) ∨
      (o.done = true ∧ o.markers.trap ≠ markerTrap ∧ o.outcome = .complete) ∨
      (o.done = false ∧ o.markers.trap = markerTrap ∧ o.outcome = .trapTimeout) ∨
      (o.done = false ∧ o.markers.trap ≠ markerTrap ∧ o.outcome = .timeout) := by
  rw [Observation.outcome]
  cases o.done with
  | false => by_cases htrap : o.markers.trap = markerTrap <;> simp [htrap]
  | true => by_cases htrap : o.markers.trap = markerTrap <;> simp [htrap]

theorem classified_of_timeout {o : Observation} (h : o.done = false) : o.classified = .timeout := by
  rw [Observation.classified, classifyOutcome, h]
  rfl

theorem classified_of_words {o : Observation} (hdone : o.done = true)
    {entered trap post done : UInt16} (hwords : o.kept.words = [entered, trap, post, done]) :
    o.classified = classifyOutcome true entered trap post := by
  simp only [Markers.words, List.cons.injEq] at hwords
  obtain ⟨hentered, htrap, hpost, -⟩ := hwords
  rw [Observation.classified, hdone, hentered, htrap, hpost]

/-- `0x…` markers of a class, as they are printed. -/
theorem words_printed : [0x0051, 0x0000, 0x0052, 0x0053].map word
      = [ascii "0051", ascii "0000", ascii "0052", ascii "0053"] ∧
    [0x0051, 0x0000, 0x0000, 0x0053].map word
      = [ascii "0051", ascii "0000", ascii "0000", ascii "0053"] ∧
    [0x0051, 0x0054, 0x0052, 0x0053].map word
      = [ascii "0051", ascii "0054", ascii "0052", ascii "0053"] := by
  have hword : ∀ w : UInt16, word w = (hexFixed 4 w.toNat).map fun c => UInt8.ofNat c.toNat :=
    fun w => by rw [word, hex, hexPadded_of_lt (by decide) w.toNat_lt]
  have hwords : ∀ words : List UInt16, words.map word
      = words.map fun w => (hexFixed 4 w.toNat).map fun c => UInt8.ofNat c.toNat :=
    fun words => List.map_congr_left fun w _ => hword w
  rw [hwords, hwords, hwords]
  decide +kernel

/-- **The class of a record** is that of the observation it was printed of. -/
theorem classified_of_classOf {o : Observation} {code : Nat}
    (h : classOf (joinFields (observedFields o)) = some code) :
    o.classified = OpcodeOutcome.ofCode code := by
  obtain ⟨hcomplete, hwithoutPost, htrapped⟩ := words_printed
  have hdone : o.outcome = .complete ∨ o.outcome = .trapComplete → o.done = true := by
    rcases outcome_cases o with ⟨hd, -, -⟩ | ⟨hd, -, -⟩ | ⟨-, -, ho⟩ | ⟨-, -, ho⟩
    · exact fun _ => hd
    · exact fun _ => hd
    · simp [ho]
    · simp [ho]
  rw [classOf] at h
  split_ifs at h with h0 h1 h2 h3
  · cases h
    have hfields : joinFields (observedFields o)
        = joinFields (Outcome.complete.name :: [0x0051, 0x0000, 0x0052, 0x0053].map word) := by
      rw [h0, hcomplete]
      decide
    obtain ⟨houtcome, hwords⟩ := observed_of_fields hfields
    rw [classified_of_words (hdone (.inl houtcome)) hwords]
    decide
  · cases h
    have hfields : joinFields (observedFields o)
        = joinFields (Outcome.complete.name :: [0x0051, 0x0000, 0x0000, 0x0053].map word) := by
      rw [h1, hwithoutPost]
      decide
    obtain ⟨houtcome, hwords⟩ := observed_of_fields hfields
    rw [classified_of_words (hdone (.inl houtcome)) hwords]
    decide
  · cases h
    have hfields : joinFields (observedFields o)
        = joinFields (Outcome.trapComplete.name :: [0x0051, 0x0054, 0x0052, 0x0053].map word) := by
      rw [h2, htrapped]
      decide
    obtain ⟨houtcome, hwords⟩ := observed_of_fields hfields
    rw [classified_of_words (hdone (.inr houtcome)) hwords]
    decide
  · cases h
    have hfields : joinFields (observedFields o)
        = joinFields (Outcome.timeout.name :: noMarkers.words.map word) := by
      have hmax : noMarkers.words.map word = List.replicate 4 (ascii "FFFF") :=
        congrArg (List.replicate 4) word_max
      rw [h3, hmax]
      decide
    obtain ⟨houtcome, -⟩ := observed_of_fields hfields
    have htimeout : o.done = false := by
      rcases outcome_cases o with ⟨-, -, ho⟩ | ⟨-, -, ho⟩ | ⟨hd, -, -⟩ | ⟨hd, -, -⟩
      · simp [ho] at houtcome
      · simp [ho] at houtcome
      · exact hd
      · exact hd
    exact classified_of_timeout htimeout

/-! ## The map -/

theorem newline_not_mem_printedRecord (opcode : Nat) (o : Observation) :
    newline ∉ printedRecord opcode o := by
  refine not_mem_joinFields (by decide) fun field hfield => ?_
  rcases List.mem_cons.mp hfield with rfl | hfield
  · exact (clean_hex 4 opcode).1
  · rcases List.mem_cons.mp hfield with rfl | hfield
    · exact (clean_name _).1
    · obtain ⟨w, -, rfl⟩ := List.mem_map.mp hfield
      exact (clean_hex 4 w.toNat).1

/-- The records of a run. -/
def printedRecords (observed : Nat → Observation) : List Text :=
  (List.range 0x10000).map fun opcode => printedRecord opcode (observed opcode)

theorem mapOf_eq_unlines {records : List Text} (hne : records ≠ []) :
    mapOf records = unlines (mapHeader :: records) := by
  cases records with
  | nil => exact absurd rfl hne
  | cons record records =>
      rw [mapOf, List.append_assoc, joinLines_eq_unlines, unlines_cons mapHeader, List.append_assoc]
      rfl

/-- A map is read back line by line. -/
theorem splitRecords_printed (observed : Nat → Observation) :
    splitRecords (mapOf (printedRecords observed)) = mapHeader :: printedRecords observed := by
  have hne : printedRecords observed ≠ [] := by
    rw [printedRecords, Ne, List.map_eq_nil_iff, List.range_eq_nil]
    decide
  rw [mapOf_eq_unlines hne]
  refine splitRecords_unlines (List.forall_mem_cons.mpr ⟨by decide, fun record hrecord => ?_⟩)
    (List.forall_mem_cons.mpr ⟨by decide, fun record hrecord => ?_⟩)
  · obtain ⟨opcode, -, rfl⟩ := List.mem_map.mp hrecord
    exact newline_not_mem_printedRecord opcode _
  · obtain ⟨opcode, -, rfl⟩ := List.mem_map.mp hrecord
    rw [printedRecord_eq]
    simp

/-- A map with the right header is packed by the loop. -/
theorem packClasses_loop {file : Text} {records : List Text}
    (hfile : splitRecords file = mapHeader :: records) (h : packClasses file = .ok table) :
    (List.range 0x10000).foldlM (packClass records) (List.replicate 0x4000 0) = .ok table := by
  rw [packClasses, hfile] at h
  by_cases hsize : records.length ≠ 0x10000
  · have hheader : ¬ (mapHeader :: records).headD [] ≠ mapHeader := by simp
    rw [if_neg hheader, List.tail_cons, if_pos hsize] at h
    cases h
  · have hheader : ¬ (mapHeader :: records).headD [] ≠ mapHeader := by simp
    rw [if_neg hheader, List.tail_cons, if_neg hsize] at h
    exact h

/-- **The packed table expects what was seen**: if a map of the records of a run can be packed, the class
of each observation is the one that its opcode has in the table. -/
theorem classified_eq_hardwareOutcome {observed : Nat → Observation} {table : List UInt8}
    (h : packClasses (mapOf (printedRecords observed)) = .ok table) {opcode : Nat}
    (hopcode : opcode < 0x10000) : (observed opcode).classified = hardwareOutcome table opcode := by
  have hloop := packClasses_loop (splitRecords_printed observed) h
  have hrecord : (printedRecords observed).getD opcode [] = printedRecord opcode (observed opcode) := by
    rw [printedRecords, List.getD_eq_getElem?_getD, List.getElem?_map,
      List.getElem?_range hopcode]
    rfl
  have hclass := (packed_range (Nat.le_refl _) hloop).done opcode hopcode
  rw [hrecord, splitFirst_printedRecord] at hclass
  exact classified_of_classOf hclass

/-! ## From the device to the table -/

/-- A map says of each opcode what the device printed, it can be archived, and the table packed from it
expects what was seen. -/
structure MapAgrees (observed : Nat → Observation) (records : List Text) : Prop where
  exact : ∀ opcode < 0x10000, records[opcode]? = some (printedRecord opcode (observed opcode))
  valid : validateRawMap (mapOf records) = .ok ()
  classes : ∀ table, packClasses (mapOf records) = .ok table → ∀ opcode < 0x10000,
    (observed opcode).classified = hardwareOutcome table opcode

/-- The log of a complete run becomes a map. -/
def Captured (d : Device) (classes : List UInt8) (observed : Nat → Observation) : Prop :=
  ∃ records, readCapture (rawRun d classes observed).text = .ok records ∧ MapAgrees observed records

/-- **No run becomes a map**: the count of the mismatches that the device prints at the end of its summary
is not in the pattern of `merge_probe.pl`. -/
theorem rawRun_not_captured (d : Device) (classes : List UInt8) (observed : Nat → Observation) :
    ¬ Captured d classes observed := by
  rintro ⟨records, hread, -⟩
  rw [readCapture_rawRun] at hread
  cases hread

/-- A phone whose flash has no strings. -/
def plainDevice : Device where
  board := .pmb8875
  testColor := false
  vendor := ascii "unknown"
  phone := ascii "unknown"
  cpu := ascii "PMB8875"
  revision := 0x10
  printable := by decide +kernel

/-- A program that comes to its end. -/
def completed : Observation := ⟨true, ⟨markerEntered, 0, markerPost, markerDone⟩⟩

/-- Every opcode completes and the run passes, and still its log has no map. -/
theorem rawRun_completed_not_captured :
    (∀ classes, lastLine plainDevice classes (fun _ => completed) = passLine) ∧
      ∀ classes, ¬ Captured plainDevice classes fun _ => completed := by
  constructor
  · intro classes
    have hcalls : (rawRun plainDevice classes fun _ => completed).calls.countP Call.fails = 0 := by
      rw [rawRun_eq, List.countP_eq_zero]
      intro call hcall
      rcases List.mem_append.mp hcall with hcall | hcall
      · obtain ⟨line, -, rfl⟩ := List.mem_map.mp hcall
        exact Bool.false_ne_true
      · exact List.mem_singleton.mp hcall ▸ Bool.false_ne_true
    rw [lastLine, Run.state_failures, hcalls]
    decide +kernel
  · rintro classes ⟨records, hread, -⟩
    rw [readCapture_rawRun] at hread
    cases hread

end Pmb887x.OpcodeProbe.Raw
