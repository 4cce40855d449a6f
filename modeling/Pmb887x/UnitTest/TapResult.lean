import Mathlib.Data.List.TakeWhile
import Pmb887x.Library.Lines
import Pmb887x.UnitTest.Report

set_option autoImplicit false

/-! # The verdict on a report (`unit/tap-result.awk`)

The filter takes the colour codes out of every line and keeps the last line that is not empty; its exit
status is 0 if that is the result line of a test without failures. -/

namespace Pmb887x.UnitTest

open Library
open Boot.Output (ascii newline)

/-! ## The filter -/

/-- A parameter of a colour code: `[0-9;]` -/
def isParameter (b : UInt8) : Bool := (48 ≤ b && b ≤ 57) || b == 59

/-- `/\033\[[0-9;]*m/` at the beginning of a text: what follows it. -/
def matchColour : Text → Option Text
  | 0x1B :: 91 :: rest =>
      match rest.dropWhile isParameter with
      | 109 :: rest => some rest
      | _ => none
  | _ => none

theorem matchColour_eq_some {text rest : Text} (h : matchColour text = some rest) :
    ∃ parameters, (∀ b ∈ parameters, isParameter b = true) ∧
      text = escape :: 91 :: (parameters ++ 109 :: rest) := by
  unfold matchColour at h
  split at h
  · next tail =>
    split at h
    · next rest' hrest =>
      obtain rfl := Option.some.inj h
      refine ⟨tail.takeWhile isParameter, fun b hb => List.mem_takeWhile_imp hb, ?_⟩
      rw [← hrest, List.takeWhile_append_dropWhile]
      rfl
    · cases h
  · cases h

theorem matchColour_of_eq {parameters : Text} (hparameters : ∀ b ∈ parameters, isParameter b = true)
    (rest : Text) : matchColour (escape :: 91 :: (parameters ++ 109 :: rest)) = some rest := by
  have hdrop : (parameters ++ 109 :: rest).dropWhile isParameter = 109 :: rest := by
    rw [List.dropWhile_append_of_pos hparameters, List.dropWhile_cons_of_neg (by decide)]
  simp only [matchColour, escape, hdrop]

theorem matchColour_length {text rest : Text} (h : matchColour text = some rest) :
    rest.length < text.length := by
  obtain ⟨parameters, -, rfl⟩ := matchColour_eq_some h
  simp only [List.length_cons, List.length_append]
  omega

/-- Only an escape character begins a colour code. -/
theorem matchColour_cons {b : UInt8} (h : b ≠ escape) (text : Text) :
    matchColour (b :: text) = none := by
  cases hmatch : matchColour (b :: text) with
  | none => rfl
  | some rest =>
      obtain ⟨parameters, -, heq⟩ := matchColour_eq_some hmatch
      exact absurd (List.cons.inj heq).1 h

/-- `gsub(/\033\[[0-9;]*m/, "", line)` -/
def stripColours : Text → Text
  | [] => []
  | b :: text =>
      match _h : matchColour (b :: text) with
      | some rest => stripColours rest
      | none => b :: stripColours text
termination_by text => text.length
decreasing_by
  · exact matchColour_length _h
  · exact Nat.lt_succ_self _

/-- The records of the input: its lines, the last of them also without a newline. -/
def records (input : Text) : List Text :=
  let split := splitLines newline input
  if split.2 = [] then split.1 else split.1 ++ [split.2]

/-- `last` at the end -/
def lastLine (input : Text) : Text :=
  (records input).foldl
    (fun last record => if stripColours record = [] then last else stripColours record) []

def passLine : Text := ascii "# result: PASS (0 failed)"

/-- The exit status. -/
def tapResult (input : Text) : Nat := if lastLine input = passLine then 0 else 1

/-! ## Colour codes -/

theorem stripColours_code {text rest : Text} (h : matchColour text = some rest) :
    stripColours text = stripColours rest := by
  cases text with
  | nil => cases h
  | cons b text =>
      rw [stripColours]
      split
      · next rest' hrest =>
        rw [hrest] at h
        rw [Option.some.inj h]
      · next hnone =>
        rw [hnone] at h
        cases h

theorem stripColours_cons {b : UInt8} {text : Text} (h : matchColour (b :: text) = none) :
    stripColours (b :: text) = b :: stripColours text := by
  rw [stripColours]
  split
  · next rest hrest =>
    rw [hrest] at h
    cases h
  · rfl

theorem matchColour_append {text rest : Text} (more : Text) (h : matchColour text = some rest) :
    matchColour (text ++ more) = some (rest ++ more) := by
  obtain ⟨parameters, hparameters, rfl⟩ := matchColour_eq_some h
  rw [List.cons_append, List.cons_append, List.append_assoc, List.cons_append]
  exact matchColour_of_eq hparameters _

/-- **A text without a piece of a colour code at its end is stripped on its own.** -/
theorem stripColours_append {text : Text} (h : escape ∉ stripColours text) (more : Text) :
    stripColours (text ++ more) = stripColours text ++ stripColours more := by
  induction hlength : text.length using Nat.strongRecOn generalizing text with
  | ind n ih =>
      cases text with
      | nil =>
          rw [List.nil_append, stripColours, List.nil_append]
      | cons b text =>
          cases hmatch : matchColour (b :: text) with
          | some rest =>
              rw [stripColours_code hmatch] at h ⊢
              rw [stripColours_code (matchColour_append more hmatch)]
              exact ih _ (hlength ▸ matchColour_length hmatch) h rfl
          | none =>
              rw [stripColours_cons hmatch] at h ⊢
              obtain ⟨hb, htext⟩ := List.ne_and_not_mem_of_not_mem_cons h
              rw [List.cons_append, stripColours_cons (matchColour_cons (Ne.symm hb) _),
                ih _ (hlength ▸ Nat.lt_succ_self _) htext rfl, List.cons_append]

/-- A text without escape characters has no colour codes. -/
theorem stripColours_plain {text : Text} (h : escape ∉ text) : stripColours text = text := by
  induction text with
  | nil => rw [stripColours]
  | cons b text ih =>
      obtain ⟨hb, htext⟩ := List.ne_and_not_mem_of_not_mem_cons h
      rw [stripColours_cons (matchColour_cons (Ne.symm hb) _), ih htext]

theorem stripColours_plain_append {text : Text} (h : escape ∉ text) (more : Text) :
    stripColours (text ++ more) = text ++ stripColours more := by
  have hplain := stripColours_plain h
  rw [stripColours_append (by rwa [hplain]), hplain]

/-- A text that becomes a beginning of another one is a beginning of what the other one becomes. -/
theorem stripColours_of_start {text line result : Text} (hstart : text <+: line)
    (h : stripColours text = result) (hresult : escape ∉ result) :
    result <+: stripColours line := by
  obtain ⟨more, rfl⟩ := hstart
  rw [stripColours_append (h ▸ hresult), h]
  exact List.prefix_append _ _

/-! ## Records -/

theorem records_line {line : Text} (h : newline ∉ line) (input : Text) :
    records (line ++ newline :: input) = line :: records input := by
  simp only [records, splitLines_line newline h]
  split_ifs
  · rfl
  · rfl

theorem records_unfinished {text : Text} (h : newline ∉ text) :
    records text = if text = [] then [] else [text] := by
  simp only [records, splitLines_of_not_mem newline h]
  rfl

theorem unlines_cons (line : Text) (lines : List Text) :
    unlines (line :: lines) = line ++ newline :: unlines lines := by
  rw [unlines, List.flatMap_cons, List.append_assoc]
  rfl

theorem unlines_append (lines lines' : List Text) :
    unlines (lines ++ lines') = unlines lines ++ unlines lines' := List.flatMap_append

theorem records_unlines_append {lines : List Text} (hlines : ∀ line ∈ lines, newline ∉ line)
    (input : Text) : records (unlines lines ++ input) = lines ++ records input := by
  induction lines with
  | nil => rfl
  | cons line lines ih =>
      rw [unlines_cons, List.append_assoc, List.cons_append,
        records_line (hlines line List.mem_cons_self),
        ih fun l hl => hlines l (List.mem_cons_of_mem _ hl), List.cons_append]

/-- The records of some lines and the beginning of another one. -/
theorem records_unlines {lines : List Text} (hlines : ∀ line ∈ lines, newline ∉ line) {text : Text}
    (htext : newline ∉ text) :
    records (unlines lines ++ text) = lines ++ if text = [] then [] else [text] := by
  rw [records_unlines_append hlines, records_unfinished htext]

/-- The records of a beginning of some lines are beginnings of these lines. -/
theorem records_prefix {lines : List Text} (hlines : ∀ line ∈ lines, newline ∉ line) {input : Text}
    (hinput : input <+: unlines lines) : ∀ record ∈ records input, ∃ line ∈ lines, record <+: line := by
  induction lines generalizing input with
  | nil =>
      intro record hrecord
      rw [List.prefix_nil.mp hinput] at hrecord
      cases hrecord
  | cons line lines ih =>
      intro record hrecord
      have hline := hlines line List.mem_cons_self
      rw [unlines_cons] at hinput
      rcases Nat.lt_or_ge line.length input.length with hlong | hshort
      · -- the line is complete
        obtain ⟨rest, rfl⟩ : ∃ rest, input = line ++ newline :: rest := by
          obtain ⟨tail, htail⟩ := List.prefix_of_prefix_length_le (List.prefix_append line _) hinput
            (Nat.le_of_lt hlong)
          subst htail
          rw [List.prefix_append_right_inj] at hinput
          cases tail with
          | nil =>
              rw [List.append_nil] at hlong
              exact absurd hlong (Nat.lt_irrefl _)
          | cons b tail =>
              obtain ⟨rfl, -⟩ := List.cons_prefix_cons.mp hinput
              exact ⟨tail, rfl⟩
        rw [List.prefix_append_right_inj, List.prefix_cons_inj] at hinput
        rw [records_line hline] at hrecord
        rcases List.mem_cons.mp hrecord with rfl | hrecord
        · exact ⟨record, List.mem_cons_self, List.prefix_refl _⟩
        · obtain ⟨l, hl, hle⟩ := ih (fun l hl => hlines l (List.mem_cons_of_mem _ hl)) hinput
            record hrecord
          exact ⟨l, List.mem_cons_of_mem _ hl, hle⟩
      · -- the input ends inside the line
        have hstart : input <+: line :=
          List.prefix_of_prefix_length_le hinput (List.prefix_append line _) hshort
        rw [records_unfinished fun hmem => hline (hstart.subset hmem)] at hrecord
        split_ifs at hrecord
        · cases hrecord
        · obtain rfl := List.mem_singleton.mp hrecord
          exact ⟨line, List.mem_cons_self, hstart⟩

/-- No record has a newline in it. -/
theorem newline_free_records (input : Text) : ∀ record ∈ records input, newline ∉ record := by
  have hsplit := sep_free_splitLines newline input
  intro record hrecord
  rw [records] at hrecord
  split_ifs at hrecord
  · exact hsplit.1 record hrecord
  · rcases List.mem_append.mp hrecord with hline | hlast
    · exact hsplit.1 record hline
    · obtain rfl := List.mem_singleton.mp hlast
      exact hsplit.2

theorem prefix_unlines_records (input : Text) : input <+: unlines (records input) := by
  have hjoin : unlines (splitLines newline input).1 ++ (splitLines newline input).2 = input :=
    splitLines_join newline input
  rw [records]
  split_ifs with hrest
  · rw [hrest, List.append_nil] at hjoin
    exact hjoin.symm ▸ List.prefix_refl _
  · refine ⟨[newline], ?_⟩
    rw [unlines_append, unlines_cons, ← List.append_assoc, hjoin]
    rfl

/-- The records of a beginning of an input are beginnings of its records. -/
theorem records_prefix_records {start input : Text} (h : start <+: input) :
    ∀ record ∈ records start, ∃ record' ∈ records input, record <+: record' :=
  records_prefix (newline_free_records input) (h.trans (prefix_unlines_records input))

/-! ## The last line -/

theorem lastLine_mem {input : Text} (h : lastLine input ≠ []) :
    ∃ record ∈ records input, stripColours record = lastLine input := by
  have hfold : ∀ (rs : List Text) (last : Text),
      (rs.foldl (fun last record =>
        if stripColours record = [] then last else stripColours record) last = last) ∨
      ∃ record ∈ rs, stripColours record = rs.foldl (fun last record =>
        if stripColours record = [] then last else stripColours record) last := by
    intro rs
    induction rs with
    | nil => exact fun last => .inl rfl
    | cons record rs ih =>
        intro last
        rw [List.foldl_cons]
        rcases ih (if stripColours record = [] then last else stripColours record) with heq | ⟨r, hr, heq⟩
        · rw [heq]
          split_ifs
          · exact .inl rfl
          · exact .inr ⟨record, List.mem_cons_self, rfl⟩
        · exact .inr ⟨r, List.mem_cons_of_mem _ hr, heq⟩
  rcases hfold (records input) [] with hnil | hrecord
  · exact absurd hnil h
  · exact hrecord

theorem lastLine_of_records {input record : Text} {rs : List Text}
    (h : records input = rs ++ [record]) (hne : stripColours record ≠ []) :
    lastLine input = stripColours record := by
  rw [lastLine, h, List.foldl_append, List.foldl_cons, List.foldl_nil, if_neg hne]

/-- Where no record becomes the result line, the filter fails. -/
theorem tapResult_of_records {input : Text}
    (h : ∀ record ∈ records input, stripColours record ≠ passLine) : tapResult input = 1 := by
  rw [tapResult, if_neg]
  intro hlast
  obtain ⟨record, hrecord, heq⟩ := lastLine_mem (hlast ▸ (by decide +kernel : passLine ≠ []))
  exact h record hrecord (heq.trans hlast)

end Pmb887x.UnitTest
