import Mathlib.Data.List.Basic

set_option autoImplicit false

/-! # Patterns of lines

A `Piece` is a fixed text or a class of texts that a reader captures; `scan` takes the pieces of a pattern
off a line one after the other and succeeds at the end of the line. A repetition goes as far as it can and
is never shortened again, which is what a backtracking matcher finds wherever the next piece does not start
with a symbol of the repetition. The `scan_…` rules read a printed line back piece by piece. -/

namespace Pmb887x.Library

inductive Piece (α : Type) where
  | literal (text : List α)
  /-- so many symbols of a class: `[…]{k}` -/
  | exactly (k : Nat) (member : α → Bool)
  /-- symbols of a class, at least one: `[…]+` -/
  | many (member : α → Bool)
  /-- the first of some texts that fits: `(…|…)` -/
  | oneOf (words : List (List α))
  /-- what is left of the line: `(.*)` -/
  | remainder

variable {α : Type} [DecidableEq α]

/-- What a piece captures in front of `line`, and what is behind it. -/
def Piece.take : Piece α → List α → Option (List (List α) × List α)
  | .literal text, line => (line.dropPrefix? text).map fun behind => ([], behind)
  | .exactly k member, line =>
      if (line.take k).length = k ∧ (line.take k).all member = true then
        some ([line.take k], line.drop k)
      else none
  | .many member, line =>
      if line.takeWhile member = [] then none
      else some ([line.takeWhile member], line.dropWhile member)
  | .oneOf words, line =>
      words.firstM fun word => (line.dropPrefix? word).map fun behind => ([word], behind)
  | .remainder, line => some ([line], [])

/-- The captured texts of a line that fits a pattern. -/
def scan : List (Piece α) → List α → Option (List (List α))
  | [], line => if line = [] then some [] else none
  | piece :: pieces, line =>
      (piece.take line).bind fun taken => (scan pieces taken.2).map fun more => taken.1 ++ more

variable {pieces : List (Piece α)} {line text behind : List α}

theorem scan_nil_of_ne (h : line ≠ []) : scan [] line = none := if_neg h

theorem scan_cons {piece : Piece α} {captured : List (List α)}
    (h : piece.take line = some (captured, behind)) :
    scan (piece :: pieces) line = (scan pieces behind).map fun more => captured ++ more := by
  rw [scan, h, Option.bind_some]

theorem scan_cons_none {piece : Piece α} (h : piece.take line = none) :
    scan (piece :: pieces) line = none := by
  rw [scan, h, Option.bind_none]

theorem dropPrefix?_append_self (text behind : List α) :
    (text ++ behind).dropPrefix? text = some behind :=
  List.dropPrefix?_eq_some_iff.mpr ⟨text, rfl, beq_self_eq_true text⟩

theorem dropPrefix?_eq_none (h : ¬ text <+: line) : line.dropPrefix? text = none := by
  cases hdrop : line.dropPrefix? text with
  | none => rfl
  | some behind =>
      obtain ⟨start, rfl, hstart⟩ := List.dropPrefix?_eq_some_iff.mp hdrop
      rw [beq_iff_eq.mp hstart] at h
      exact absurd (List.prefix_append text behind) h

/-! ## Rules -/

theorem scan_literal (text behind : List α) :
    scan (.literal text :: pieces) (text ++ behind) = scan pieces behind := by
  have htake : (Piece.literal text).take (text ++ behind) = some ([], behind) := by
    rw [Piece.take, dropPrefix?_append_self]
    rfl
  rw [scan_cons htake]
  cases scan pieces behind with
  | none => rfl
  | some more => rfl

/-- A fixed line. -/
theorem scan_fixed (text line : List α) :
    scan [.literal text] line = if line = text then some [] else none := by
  by_cases hline : line = text
  · rw [if_pos hline, hline]
    exact (congrArg (scan _) (List.append_nil text).symm).trans (scan_literal text [])
  · rw [if_neg hline]
    by_cases hstart : text <+: line
    · obtain ⟨behind, rfl⟩ := hstart
      rw [scan_literal]
      refine scan_nil_of_ne fun hnil => hline ?_
      rw [hnil, List.append_nil]
    · refine scan_cons_none ?_
      rw [Piece.take, dropPrefix?_eq_none hstart]
      rfl

/-- A line that begins otherwise does not fit. -/
theorem scan_literal_of_not (h : ¬ text <+: line) : scan (.literal text :: pieces) line = none := by
  refine scan_cons_none ?_
  rw [Piece.take, dropPrefix?_eq_none h]
  rfl

theorem scan_exactly {k : Nat} {member : α → Bool} (hlength : text.length = k)
    (hmember : text.all member = true) (behind : List α) :
    scan (.exactly k member :: pieces) (text ++ behind)
      = (scan pieces behind).map fun more => text :: more := by
  have htake : (Piece.exactly k member).take (text ++ behind) = some ([text], behind) := by
    rw [Piece.take, List.take_left' hlength, List.drop_left' hlength, if_pos ⟨hlength, hmember⟩]
  exact scan_cons htake

omit [DecidableEq α] in
theorem takeWhile_append_stop {member : α → Bool} (hmember : text.all member = true)
    (hbehind : ∀ b ∈ behind.head?, member b = false) :
    (text ++ behind).takeWhile member = text ∧ (text ++ behind).dropWhile member = behind := by
  have hall : ∀ a ∈ text, member a = true := List.all_eq_true.mp hmember
  rw [List.takeWhile_append_of_pos hall, List.dropWhile_append_of_pos hall]
  cases behind with
  | nil => exact ⟨List.append_nil text, rfl⟩
  | cons b behind =>
      have hb : ¬ member b = true := by simp [hbehind b rfl]
      rw [List.takeWhile_cons_of_neg hb, List.dropWhile_cons_of_neg hb, List.append_nil]
      exact ⟨rfl, rfl⟩

/-- A repetition takes `text` where something else follows. -/
theorem scan_many {member : α → Bool} (hne : text ≠ []) (hmember : text.all member = true)
    (hbehind : ∀ b ∈ behind.head?, member b = false) :
    scan (.many member :: pieces) (text ++ behind)
      = (scan pieces behind).map fun more => text :: more := by
  obtain ⟨htext, hrest⟩ := takeWhile_append_stop hmember hbehind
  have htake : (Piece.many member).take (text ++ behind) = some ([text], behind) := by
    rw [Piece.take, htext, hrest, if_neg hne]
  exact scan_cons htake

/-- A repetition in front of a text that it does not go on with. -/
theorem scan_many_before {member : α → Bool} (hne : text ≠ []) (hmember : text.all member = true)
    {next : List α} (hnext : (next.head?.any fun b => !member b) = true) (behind : List α) :
    scan (.many member :: pieces) (text ++ (next ++ behind))
      = (scan pieces (next ++ behind)).map fun more => text :: more := by
  refine scan_many hne hmember fun b hb => ?_
  cases next with
  | nil => cases hnext
  | cons b' next =>
      obtain rfl : b' = b := Option.some.inj hb
      simpa using hnext

/-- A repetition at the end of a line. -/
theorem scan_many_end {member : α → Bool} (hne : text ≠ []) (hmember : text.all member = true) :
    scan [.many member] text = some [text] := by
  have hline : scan [.many member] (text ++ []) = some [text] := scan_many hne hmember (by simp)
  rwa [List.append_nil] at hline

omit [DecidableEq α] in
/-- A text does not begin a line that begins with one of which neither is the beginning of the other. -/
theorem not_prefix_append {start : List α} (htext : ¬ text <+: start) (hstart : ¬ start <+: text)
    (behind : List α) : ¬ text <+: start ++ behind := by
  intro h
  rcases List.prefix_or_prefix_of_prefix h (List.prefix_append start behind) with hbegin | hbegin
  · exact htext hbegin
  · exact hstart hbegin

/-- A choice takes the word that is there if none of the others is the beginning of it or the other way
round. -/
theorem scan_oneOf {words : List (List α)} (hmem : text ∈ words)
    (hother : ∀ word ∈ words, word ≠ text → ¬ word <+: text ∧ ¬ text <+: word) (behind : List α) :
    scan (.oneOf words :: pieces) (text ++ behind)
      = (scan pieces behind).map fun more => text :: more := by
  have htake : (Piece.oneOf words).take (text ++ behind) = some ([text], behind) := by
    rw [Piece.take]
    induction words with
    | nil => cases hmem
    | cons word words ih =>
        obtain ⟨hword, hothers⟩ := List.forall_mem_cons.mp hother
        by_cases heq : word = text
        · rw [List.firstM, heq, dropPrefix?_append_self]
          rfl
        · have hnot := not_prefix_append (hword heq).1 (hword heq).2 behind
          rw [List.firstM, dropPrefix?_eq_none hnot]
          exact ih ((List.mem_cons.mp hmem).resolve_left (Ne.symm heq)) hothers
  exact scan_cons htake

theorem scan_remainder (line : List α) : scan [.remainder] line = some [line] := rfl

omit [DecidableEq α] in
/-- Two texts that differ within the length of the shorter one begin different lines. -/
theorem not_prefix_of_take {n : Nat} (hn : n ≤ text.length) {start : List α}
    (hstart : n ≤ start.length) (h : text.take n ≠ start.take n) (behind : List α) :
    ¬ text <+: start ++ behind := by
  intro ⟨rest, hrest⟩
  have htake := congrArg (List.take n) hrest
  rw [List.take_append_of_le_length hn, List.take_append_of_le_length hstart] at htake
  exact h htake

end Pmb887x.Library
