import Mathlib.Data.List.Basic

set_option autoImplicit false

/-! # Lines of a stream

`splitLines sep xs` is the complete lines of `xs` and the unfinished one behind them. A stream that comes
in pieces has the lines of its whole: the unfinished line is put in front of the next piece. -/

namespace Pmb887x.Library

variable {α : Type} [DecidableEq α] (sep : α)

/-- The lines that end with `sep`, without it, and what follows the last of them. -/
def splitLines : List α → List (List α) × List α
  | [] => ([], [])
  | x :: xs =>
      if x = sep then ([] :: (splitLines xs).1, (splitLines xs).2)
      else
        match (splitLines xs).1 with
        | [] => ([], x :: (splitLines xs).2)
        | line :: lines => ((x :: line) :: lines, (splitLines xs).2)

@[simp] theorem splitLines_nil : splitLines sep [] = ([], []) := rfl

theorem splitLines_sep (xs : List α) :
    splitLines sep (sep :: xs) = ([] :: (splitLines sep xs).1, (splitLines sep xs).2) := if_pos rfl

theorem splitLines_cons_nil {x : α} {xs : List α} (hx : x ≠ sep) (h : (splitLines sep xs).1 = []) :
    splitLines sep (x :: xs) = ([], x :: (splitLines sep xs).2) := by
  rw [splitLines, if_neg hx, h]

theorem splitLines_cons_cons {x : α} {xs line : List α} {lines : List (List α)} (hx : x ≠ sep)
    (h : (splitLines sep xs).1 = line :: lines) :
    splitLines sep (x :: xs) = ((x :: line) :: lines, (splitLines sep xs).2) := by
  rw [splitLines, if_neg hx, h]

/-- **Lines of a stream in pieces.** -/
theorem splitLines_append (xs ys : List α) :
    splitLines sep (xs ++ ys)
      = ((splitLines sep xs).1 ++ (splitLines sep ((splitLines sep xs).2 ++ ys)).1,
          (splitLines sep ((splitLines sep xs).2 ++ ys)).2) := by
  induction xs with
  | nil => rfl
  | cons x xs ih =>
      by_cases hx : x = sep
      · subst hx
        rw [List.cons_append, splitLines_sep, splitLines_sep, ih]
        rfl
      · cases hlines : (splitLines sep xs).1 with
        | nil =>
            rw [hlines, List.nil_append] at ih
            rw [splitLines_cons_nil sep hx hlines, List.cons_append, List.cons_append,
              List.nil_append]
            simp only [splitLines, if_neg hx, ih]
        | cons line lines =>
            rw [hlines, List.cons_append] at ih
            have hall : (splitLines sep (xs ++ ys)).1
                = line :: (lines ++ (splitLines sep ((splitLines sep xs).2 ++ ys)).1) := by rw [ih]
            rw [splitLines_cons_cons sep hx hlines, List.cons_append,
              splitLines_cons_cons sep hx hall, ih]
            rfl

/-- The lines and the rest are the stream. -/
theorem splitLines_join (xs : List α) :
    (splitLines sep xs).1.flatMap (fun line => line ++ [sep]) ++ (splitLines sep xs).2 = xs := by
  induction xs with
  | nil => rfl
  | cons x xs ih =>
      by_cases hx : x = sep
      · subst hx
        rw [splitLines_sep, List.flatMap_cons, List.nil_append, List.append_assoc, ih]
        rfl
      · cases hlines : (splitLines sep xs).1 with
        | nil =>
            rw [hlines] at ih
            rw [splitLines_cons_nil sep hx hlines]
            exact congrArg (List.cons x) ih
        | cons line lines =>
            rw [hlines, List.flatMap_cons] at ih
            rw [splitLines_cons_cons sep hx hlines, List.flatMap_cons]
            exact congrArg (List.cons x) ih

/-- A piece without a separator is unfinished. -/
theorem splitLines_of_not_mem {xs : List α} (h : sep ∉ xs) : splitLines sep xs = ([], xs) := by
  induction xs with
  | nil => rfl
  | cons x xs ih =>
      obtain ⟨hx, hxs⟩ := List.ne_and_not_mem_of_not_mem_cons h
      rw [splitLines_cons_nil sep (Ne.symm hx) (by rw [ih hxs]), ih hxs]

/-- A line in front of a stream. -/
theorem splitLines_line {line : List α} (h : sep ∉ line) (xs : List α) :
    splitLines sep (line ++ sep :: xs) = (line :: (splitLines sep xs).1, (splitLines sep xs).2) := by
  induction line with
  | nil => exact splitLines_sep sep xs
  | cons x line ih =>
      obtain ⟨hx, hline⟩ := List.ne_and_not_mem_of_not_mem_cons h
      have hrest := ih hline
      rw [List.cons_append, splitLines_cons_cons sep (Ne.symm hx) (congrArg Prod.fst hrest), hrest]

/-- Neither the lines nor the unfinished one have a separator. -/
theorem sep_free_splitLines (xs : List α) :
    (∀ line ∈ (splitLines sep xs).1, sep ∉ line) ∧ sep ∉ (splitLines sep xs).2 := by
  induction xs with
  | nil => exact ⟨fun line hline => absurd hline List.not_mem_nil, List.not_mem_nil⟩
  | cons x xs ih =>
      obtain ⟨hlines, hrest⟩ := ih
      by_cases hx : x = sep
      · subst hx
        rw [splitLines_sep]
        exact ⟨List.forall_mem_cons.mpr ⟨List.not_mem_nil, hlines⟩, hrest⟩
      · cases hfirst : (splitLines sep xs).1 with
        | nil =>
            rw [splitLines_cons_nil sep hx hfirst]
            exact ⟨fun line hline => absurd hline List.not_mem_nil,
              List.not_mem_cons_of_ne_of_not_mem (Ne.symm hx) hrest⟩
        | cons line lines =>
            rw [hfirst, List.forall_mem_cons] at hlines
            rw [splitLines_cons_cons sep hx hfirst]
            exact ⟨List.forall_mem_cons.mpr
              ⟨List.not_mem_cons_of_ne_of_not_mem (Ne.symm hx) hlines.1, hlines.2⟩, hrest⟩

/-- A piece that neither ends a line nor leaves one unfinished is empty. -/
theorem eq_nil_of_splitLines {xs : List α} (hlines : (splitLines sep xs).1 = [])
    (hrest : (splitLines sep xs).2 = []) : xs = [] := by
  rw [← splitLines_join sep xs, hlines, hrest]
  rfl

end Pmb887x.Library
