import Mathlib.Data.List.Forall2
import Pmb887x.Library.Pattern
import Pmb887x.UnitTest.Verdict
import Mathlib.Data.List.DropRight

set_option autoImplicit false

/-! # Captures of the opcode probe (`unit/dsp/lle`)

What the two probes print is captured on the host and read by scripts. A probe is a unit test; this module
has the device it runs on and what the scripts share: lines of a file, the classes of their patterns, fields
and numbers. Numbers are exact here, where the scripts' own are floating-point from 2⁶⁴ on. -/

namespace Pmb887x.OpcodeProbe

open Library UnitTest
open Boot.Output (ascii newline space)

abbrev Text := UnitTest.Text

/-! ## The device -/

inductive Board where
  | pmb8875
  | pmb8876
  deriving DecidableEq

/-- What a phone has to print: strings of its flash, which `read_flash_string` takes only if they are
printable, or constants. -/
structure Device where
  board : Board
  testColor : Bool
  vendor : Text
  phone : Text
  cpu : Text
  revision : UInt32
  printable : ∀ text ∈ [vendor, phone, cpu], ∀ b ∈ text, 0x20 ≤ b.toNat ∧ b.toNat ≤ 0x7E

/-- A probe as a unit test. -/
def Device.run (d : Device) (name : Text) (calls : List Call) : Run where
  testColor := d.testColor
  name := name
  vendor := d.vendor
  phone := d.phone
  cpu := d.cpu
  revision := d.revision
  calls := calls
  ending := .finish

/-- Why the probe of a word stops the test: the operation that `fail_transport` prints. -/
inductive Transport where
  | reset
  | load
  | branch

/-! ## Lines -/

/-- `<$input>`: the lines of a file with their newlines, which the last one may lack. -/
def inputLines (input : Text) : List Text :=
  let split := splitLines newline input
  split.1.map (fun line => line ++ [newline]) ++ if split.2 = [] then [] else [split.2]

def chomp (line : Text) : Text := if line.getLast? = some newline then line.dropLast else line

/-- `$line =~ /^…$/`: the end of a line is also in front of its newline. -/
def matchLine (pattern : List (Piece UInt8)) (line : Text) : Option (List Text) :=
  scan pattern (chomp line)

def passPattern : List (Piece UInt8) := [.literal passLine]

/-- `split /\n/, …`, which leaves empty lines at the end away. -/
def splitRecords (file : Text) : List Text :=
  (if file = [] then [] else file.splitOn newline).rdropWhile (· = [])

/-- `$outcome =~ /timeout$/` -/
def endsInTimeout (outcome : Text) : Bool := (ascii "timeout").isSuffixOf outcome

/-! ## Classes -/

/-- `\d` -/
def isDecimal (b : UInt8) : Bool := 48 ≤ b.toNat && b.toNat ≤ 57

/-- `[0-9A-F]` -/
def isHex (b : UInt8) : Bool := isDecimal b || 65 ≤ b.toNat && b.toNat ≤ 70

/-- `(\d+)` -/
def decimals : Piece UInt8 := .many isDecimal

/-- `([0-9A-F]{4})` -/
def hexWord : Piece UInt8 := .exactly 4 isHex

/-- The words `([0-9A-F]{4})` with a blank between any two of them. -/
def hexWords : Nat → List (Piece UInt8)
  | 0 => []
  | 1 => [hexWord]
  | n + 2 => hexWord :: .literal [space] :: hexWords (n + 1)

/-! ## Fields and numbers -/

def comma : UInt8 := 44

/-- `split /,/, $line, -1`; an empty string has no fields. -/
def splitAll (line : Text) : List Text := if line = [] then [] else line.splitOn comma

/-- `split /,/, $line`, which leaves empty fields at the end away. -/
def splitFields (line : Text) : List Text := (splitAll line).rdropWhile (· = [])

/-- `join ',', …` -/
def joinFields (fields : List Text) : Text := List.intercalate [comma] fields

/-- The number of the decimal digits that a string begins with. Nothing that the scripts take as a number
has a sign, a fraction or an exponent. -/
def number (text : Text) : Nat :=
  (text.takeWhile isDecimal).foldl (fun n b => 10 * n + (b.toNat - 48)) 0

/-- The value of a hexadecimal digit in either case. -/
def hexDigitValue (b : UInt8) : Option Nat :=
  if isDecimal b then some (b.toNat - 48)
  else if 65 ≤ b.toNat && b.toNat ≤ 70 then some (b.toNat - 55)
  else if 97 ≤ b.toNat && b.toNat ≤ 102 then some (b.toNat - 87)
  else none

/-- Digits up to the first byte that is none; an underscore may stand in front of a digit. -/
def hexDigits (value : Nat) : Text → Nat
  | [] => value
  | b :: text =>
      match hexDigitValue b with
      | some digit => hexDigits (value * 16 + digit) text
      | none =>
          if b = 95 ∧ (text.head?.bind hexDigitValue).isSome then hexDigits value text else value

/-- `hex`: the digits behind an optional `0x` or `x`. -/
def hexOf : Text → Nat
  | 48 :: 120 :: text => hexDigits 0 text
  | 48 :: 88 :: text => hexDigits 0 text
  | 120 :: text => hexDigits 0 text
  | 88 :: text => hexDigits 0 text
  | text => hexDigits 0 text

/-! ## Reading back what is printed -/

variable {lines : List Text} {line : Text}

theorem inputLines_unlines (hlines : ∀ line ∈ lines, newline ∉ line) :
    inputLines (unlines lines) = lines.map fun line => line ++ [newline] := by
  have hsplit : splitLines newline (unlines lines) = (lines, []) := by
    induction lines with
    | nil => rfl
    | cons line lines ih =>
        rw [unlines_cons, splitLines_line newline (hlines line List.mem_cons_self),
          ih fun l hl => hlines l (List.mem_cons_of_mem _ hl)]
  rw [inputLines, hsplit]
  exact List.append_nil _

@[simp] theorem chomp_newline (line : Text) : chomp (line ++ [newline]) = line := by
  rw [chomp, List.getLast?_concat, if_pos rfl, List.dropLast_concat]

theorem matchLine_newline (pattern : List (Piece UInt8)) (line : Text) :
    matchLine pattern (line ++ [newline]) = scan pattern line := by
  rw [matchLine, chomp_newline]

theorem splitAll_joinFields {fields : List Text} (hne : joinFields fields ≠ [])
    (hfields : fields ≠ []) (hcomma : ∀ field ∈ fields, comma ∉ field) :
    splitAll (joinFields fields) = fields := by
  rw [splitAll, if_neg hne, joinFields, List.splitOn_intercalate comma hcomma hfields]

/-- The fields of a record, none of them empty. -/
theorem splitFields_joinFields {fields : List Text} (hne : joinFields fields ≠ [])
    (hfields : fields ≠ []) (hcomma : ∀ field ∈ fields, comma ∉ field)
    (hempty : ∀ field ∈ fields, field ≠ []) : splitFields (joinFields fields) = fields := by
  rw [splitFields, splitAll_joinFields hne hfields hcomma, List.rdropWhile_eq_self_iff]
  intro hl
  simpa using hempty _ (List.getLast_mem hl)

theorem joinFields_cons (field next : Text) (fields : List Text) :
    joinFields (field :: next :: fields) = field ++ comma :: joinFields (next :: fields) := by
  simp [joinFields, List.intercalate]

theorem not_mem_joinFields {b : UInt8} (hb : b ≠ comma) {fields : List Text}
    (h : ∀ field ∈ fields, b ∉ field) : b ∉ joinFields fields := by
  induction fields with
  | nil => exact List.not_mem_nil
  | cons field fields ih =>
      obtain ⟨hfield, hfields⟩ := List.forall_mem_cons.mp h
      cases fields with
      | nil => simpa [joinFields, List.intercalate] using hfield
      | cons next fields =>
          rw [joinFields_cons, List.mem_append, List.mem_cons, not_or, not_or]
          exact ⟨hfield, hb, ih hfields⟩

/-- `join("\n", …) . "\n"` -/
theorem joinLines_eq_unlines (lines : List Text) (line : Text) :
    List.intercalate [newline] (line :: lines) ++ [newline] = unlines (line :: lines) := by
  induction lines generalizing line with
  | nil => simp [List.intercalate, unlines]
  | cons next lines ih =>
      have hjoin : List.intercalate [newline] (line :: next :: lines)
          = line ++ ([newline] ++ List.intercalate [newline] (next :: lines)) := by
        simp [List.intercalate]
      rw [hjoin, List.append_assoc, List.append_assoc, ih, unlines_cons line]
      rfl

/-- The lines of a file and what follows the last newline. -/
theorem unlines_eq_intercalate (lines : List Text) :
    unlines lines = List.intercalate [newline] (lines ++ [[]]) := by
  induction lines with
  | nil => rfl
  | cons line lines ih =>
      have hjoin : List.intercalate [newline] (line :: (lines ++ [[]]))
          = line ++ ([newline] ++ List.intercalate [newline] (lines ++ [[]])) := by
        cases hlines : lines ++ [[]] with
        | nil => simp at hlines
        | cons next rest => simp [List.intercalate]
      rw [List.cons_append, hjoin, ← ih, unlines_cons]
      rfl

/-- `split /\n/` gives the lines of a file back. -/
theorem splitOn_unlines {lines : List Text} (hlines : ∀ line ∈ lines, newline ∉ line) :
    (unlines lines).splitOn newline = lines ++ [[]] := by
  rw [unlines_eq_intercalate]
  refine List.splitOn_intercalate newline (fun line hline => ?_) (by simp)
  rcases List.mem_append.mp hline with hline | hline
  · exact hlines line hline
  · rw [List.mem_singleton.mp hline]
    exact List.not_mem_nil

theorem splitRecords_unlines {lines : List Text} (hlines : ∀ line ∈ lines, newline ∉ line)
    (hempty : ∀ line ∈ lines, line ≠ []) : splitRecords (unlines lines) = lines := by
  cases lines with
  | nil => rfl
  | cons line lines =>
      have hfile : unlines (line :: lines) ≠ [] := by
        rw [unlines_cons]
        simp
      rw [splitRecords, if_neg hfile, splitOn_unlines hlines,
        List.rdropWhile_concat_pos _ _ _ (by simp), List.rdropWhile_eq_self_iff]
      intro hl
      simpa using hempty _ (List.getLast_mem hl)

/-- A reader that has read some of the lines goes on with the others. -/
theorem foldlM_append_of_ok {σ ε : Type} {f : σ → Text → Except ε σ} {before behind : List Text}
    {s s' : σ} (h : before.foldlM f s = .ok s') :
    (before ++ behind).foldlM f s = behind.foldlM f s' := by
  rw [List.foldlM_append, h]
  rfl

theorem foldlM_cons_of_ok {σ ε : Type} {f : σ → Text → Except ε σ} {line : Text} {behind : List Text}
    {s s' : σ} (h : f s line = .ok s') : (line :: behind).foldlM f s = behind.foldlM f s' := by
  rw [List.foldlM_cons, h]
  rfl

/-- What every turn of a loop over the numbers below `last` keeps, when none of them fails. -/
theorem foldlM_range_ok {σ ε : Type} {f : σ → Nat → Except ε σ} {P : Nat → σ → Prop} {s : σ} {last : Nat}
    (hstart : P 0 s)
    (hstep : ∀ n < last, ∀ s, P n s → ∃ s', f s n = .ok s' ∧ P (n + 1) s') {n : Nat} (hn : n ≤ last) :
    ∃ s', (List.range n).foldlM f s = .ok s' ∧ P n s' := by
  induction n with
  | zero => exact ⟨s, rfl, hstart⟩
  | succ n ih =>
      obtain ⟨s₁, hbefore, hP₁⟩ := ih (Nat.le_of_succ_le hn)
      obtain ⟨s₂, hturn, hP₂⟩ := hstep n hn s₁ hP₁
      refine ⟨s₂, ?_, hP₂⟩
      rw [List.range_succ, List.foldlM_append, hbefore]
      simp only [bind, Except.bind, List.foldlM_cons, List.foldlM_nil, hturn, pure, Except.pure]

/-- A list is mapped when each of its elements is. -/
theorem mapM_ok_iff {α β ε : Type} (f : α → Except ε β) (xs : List α) (ys : List β) :
    xs.mapM f = .ok ys ↔ List.Forall₂ (fun x y => f x = .ok y) xs ys := by
  induction xs generalizing ys with
  | nil =>
      rw [List.mapM_nil, List.forall₂_nil_left_iff]
      exact ⟨fun h => (Except.ok.inj h).symm, fun h => congrArg Except.ok h.symm⟩
  | cons x xs ih =>
      rw [List.mapM_cons, List.forall₂_cons_left_iff]
      simp only [← ih]
      cases hx : f x with
      | error error => simp [bind, Except.bind]
      | ok y =>
          cases hxs : xs.mapM f with
          | error error => simp [bind, Except.bind]
          | ok rest =>
              simp only [bind, Except.bind, pure, Except.pure, Except.ok.injEq]
              exact ⟨fun h => ⟨y, rest, rfl, rfl, h.symm⟩, by
                rintro ⟨_, _, rfl, rfl, rfl⟩
                rfl⟩

/-! ## Texts of the source -/

theorem ascii_append (s t : String) : ascii (s ++ t) = ascii s ++ ascii t := by
  rw [ascii, String.toList_append, List.map_append, ascii, ascii]

/-- The bytes of a literal, without a look at its encoding. -/
theorem ascii_ofList (l : List Char) :
    ascii (String.ofList l) = l.map fun c => UInt8.ofNat c.toNat := by
  rw [ascii, String.toList_ofList]

/-! ## What numbers are printed as -/

theorem isDecimal_unsigned (n : Nat) : (unsigned n).all isDecimal = true := by
  rw [List.all_eq_true]
  intro b hb
  obtain ⟨ch, hch, rfl⟩ := List.mem_map.mp hb
  have hrange := mem_toString hch
  have hbyte : (UInt8.ofNat ch.toNat).toNat = ch.toNat := by
    rw [UInt8.toNat_ofNat', Nat.mod_eq_of_lt (by omega)]
  rw [isDecimal, hbyte, Bool.and_eq_true, decide_eq_true_eq, decide_eq_true_eq]
  exact hrange

theorem unsigned_ne_nil (n : Nat) : unsigned n ≠ [] := by
  rw [unsigned, ascii, Ne, List.map_eq_nil_iff, show (toString n).toList = Nat.toDigits 10 n from
    Nat.toList_repr]
  exact Nat.toDigits_ne_nil

/-- `%u` is read back. -/
theorem number_unsigned (n : Nat) : number (unsigned n) = n := by
  have hdigits : (toString n).toList = Nat.toDigits 10 n := Nat.toList_repr
  have hvalue : ∀ (chars : List Char) (value : Nat), (∀ ch ∈ chars, ch.toNat < 256) →
      (chars.map fun ch => UInt8.ofNat ch.toNat).foldl (fun n b => 10 * n + (b.toNat - 48)) value
        = Nat.ofDigitChars 10 chars value := by
    intro chars
    induction chars with
    | nil => exact fun value _ => Nat.ofDigitChars_nil.symm
    | cons ch chars ih =>
        intro value hchars
        obtain ⟨hch, hrest⟩ := List.forall_mem_cons.mp hchars
        have hbyte : (UInt8.ofNat ch.toNat).toNat = ch.toNat := by
          rw [UInt8.toNat_ofNat', Nat.mod_eq_of_lt hch]
        rw [List.map_cons, List.foldl_cons, hbyte, Nat.ofDigitChars_cons]
        exact ih _ hrest
  have hsmall : ∀ ch ∈ Nat.toDigits 10 n, ch.toNat < 256 := by
    intro ch hch
    have := mem_toString (hdigits ▸ hch)
    omega
  have htake : (unsigned n).takeWhile isDecimal = unsigned n :=
    List.takeWhile_eq_self_iff.mpr (List.all_eq_true.mp (isDecimal_unsigned n))
  rw [number, htake, unsigned, ascii, hdigits, hvalue _ 0 hsmall, Nat.ofDigitChars_ten_toDigits]

theorem isHex_of_hexValue {ch : Char} (h : hexValue ch ≠ none) :
    isHex (UInt8.ofNat ch.toNat) = true := by
  have hbyte : (UInt8.ofNat ch.toNat).toNat = ch.toNat := by
    have := toNat_of_hexValue h
    rw [UInt8.toNat_ofNat', Nat.mod_eq_of_lt (by omega)]
  rw [hexValue] at h
  rw [isHex, isDecimal, hbyte]
  simp only [Bool.or_eq_true, Bool.and_eq_true, decide_eq_true_eq]
  split_ifs at h with hdigit hletter
  · exact .inl hdigit
  · exact .inr hletter
  · exact absurd rfl h

theorem isHex_hex (k n : Nat) : (hex k n).all isHex = true := by
  rw [List.all_eq_true]
  intro b hb
  obtain ⟨ch, hch, rfl⟩ := List.mem_map.mp hb
  exact isHex_of_hexValue (hexValue_of_mem_hexPadded hch)

theorem length_hex {k n : Nat} (hk : 0 < k) (h : n < 16 ^ k) : (hex k n).length = k := by
  rw [hex, List.length_map, hexPadded_of_lt hk h, hexFixed_length]

theorem hexDigitValue_of_hexValue {ch : Char} {digit : Nat} (h : hexValue ch = some digit) :
    hexDigitValue (UInt8.ofNat ch.toNat) = some digit := by
  have hbyte : (UInt8.ofNat ch.toNat).toNat = ch.toNat := by
    have hne : hexValue ch ≠ none := by simp [h]
    have := toNat_of_hexValue hne
    rw [UInt8.toNat_ofNat', Nat.mod_eq_of_lt (by omega)]
  rw [hexValue] at h
  rw [hexDigitValue, isDecimal, hbyte]
  simp only [Bool.and_eq_true, decide_eq_true_eq]
  split_ifs at h with hdigit hletter
  · rw [if_pos hdigit, h]
  · rw [if_neg hdigit, if_pos hletter, h]

theorem hexDigits_map {chars : List Char} {value n : Nat}
    (h : chars.foldlM (fun n c => (hexValue c).map fun d => n * 16 + d) value = some n) :
    hexDigits value (chars.map fun c => UInt8.ofNat c.toNat) = n := by
  induction chars generalizing value with
  | nil => exact Option.some.inj h
  | cons ch chars ih =>
      rw [List.foldlM_cons, Option.bind_eq_bind, Option.bind_eq_some_iff] at h
      obtain ⟨next, hnext, hrest⟩ := h
      obtain ⟨digit, hdigit, rfl⟩ := Option.map_eq_some_iff.mp hnext
      rw [List.map_cons, hexDigits, hexDigitValue_of_hexValue hdigit]
      exact ih hrest

/-- Digits only have no `x` in front. -/
theorem hexOf_of_isHex {text : Text} (h : text.all isHex = true) : hexOf text = hexDigits 0 text := by
  unfold hexOf
  split
  · cases h
  · cases h
  · cases h
  · cases h
  · rfl

/-- `hex` reads `%0kX` back. -/
theorem hexOf_hex {k n : Nat} (hk : 0 < k) (h : n < 16 ^ k) : hexOf (hex k n) = n := by
  rw [hexOf_of_isHex (isHex_hex k n), hex, hexPadded_of_lt hk h]
  exact hexDigits_map (hexNumber_hexFixed h)

/-! ## The lines around those of a probe -/

/-- A line that begins neither like those of a probe, which have `mark` in front, nor like the result. -/
structure Passive (mark line : Text) : Prop where
  foreign : ¬ mark <+: line
  noResult : ¬ ascii "# r" <+: line

/-- A line whose beginning is known. -/
theorem passive_of_start {mark : Text} (start : Text) {n : Nat} (hmark : n ≤ mark.length)
    (hstart : n ≤ start.length) (hforeign : mark.take n ≠ start.take n) (hlength : 3 ≤ start.length)
    (hresult : start.take 3 ≠ ascii "# r") (behind : Text) : Passive mark (start ++ behind) where
  foreign := not_prefix_of_take hmark hstart hforeign behind
  noResult := by
    have hother : (ascii "# r").take 3 ≠ start.take 3 := fun h => hresult (h.symm.trans (by decide))
    exact not_prefix_of_take (by decide) hlength hother behind

/-- `mark` is the beginning of the lines of a probe. -/
structure Mark (mark : Text) : Prop where
  length : 3 ≤ mark.length
  start : mark.take 3 = ascii "# D"

/-- A line that begins with three bytes other than those of a probe. -/
theorem Mark.passive {mark : Text} (hmark : Mark mark) (start : Text) (hlength : 3 ≤ start.length)
    (hforeign : start.take 3 ≠ ascii "# D") (hresult : start.take 3 ≠ ascii "# r")
    (behind : Text) : Passive mark (start ++ behind) := by
  refine passive_of_start start hmark.length hlength ?_ hlength hresult behind
  rw [hmark.start]
  exact hforeign.symm

namespace Device

variable (d : Device) {name mark : Text} {calls : List Call}

/-- The lines of the device in front of those of the calls. -/
theorem passive_startLines (hmark : Mark mark)
    (hname : Passive mark (coloured (colours d.testColor) (colours d.testColor).cyan name)) :
    ∀ line ∈ (d.run name calls).startLines, Passive mark line := by
  intro line hline
  simp only [Run.startLines, List.mem_cons, List.not_mem_nil, or_false] at hline
  rcases hline with rfl | rfl | rfl
  · exact hmark.passive (ascii "TAP version 13") (by decide) (by decide) (by decide) []
  · exact hname
  · simp only [List.append_assoc]
    exact hmark.passive (ascii "# Hardware: vendor=") (by decide) (by decide) (by decide) _

theorem passive_planLine (hmark : Mark mark) (n : Nat) : Passive mark (planLine n) :=
  hmark.passive (ascii "1..") (by decide) (by decide) (by decide) _

/-- The line of an assertion. -/
theorem passive_report (hmark : Mark mark) (c : Colours) (text : Text) (passed : Bool) (s : State) :
    Passive mark (report c text passed s).2 := by
  simp only [report, List.append_assoc]
  cases passed with
  | false =>
      exact hmark.passive (ascii "not ok") (by decide) (by decide) (by decide) _
  | true => exact hmark.passive (ascii "ok ") (by decide) (by decide) (by decide) _

/-- A comment of an assertion, whose text is not empty. -/
theorem passive_coloured (hmark : Mark mark) {colour text : Text} {b : UInt8}
    (hfirst : (colour ++ text).head? = some b) (hd : b ≠ 68) (hr : b ≠ 114) :
    Passive mark (coloured (colours d.testColor) colour text) := by
  obtain ⟨rest, hrest⟩ : ∃ rest, colour ++ text = b :: rest := by
    cases hcolour : colour ++ text with
    | nil =>
        rw [hcolour] at hfirst
        cases hfirst
    | cons b' rest =>
        rw [hcolour] at hfirst
        exact ⟨rest, by rw [Option.some.inj hfirst]⟩
  have hline : coloured (colours d.testColor) colour text
      = (ascii "# " ++ [b]) ++ (rest ++ (colours d.testColor).reset) := by
    rw [coloured, List.append_assoc, List.append_assoc, ← List.append_assoc colour, hrest]
    simp only [List.append_assoc, List.cons_append, List.nil_append]
  have hthree : (ascii "# " ++ [b]).take 3 = [35, 32, b] := rfl
  rw [hline]
  refine hmark.passive _ (Nat.le_of_eq rfl) ?_ ?_ _
  · rw [hthree]
    exact fun h => hd (List.head_eq_of_cons_eq (List.tail_eq_of_cons_eq (List.tail_eq_of_cons_eq h)))
  · rw [hthree]
    exact fun h => hr (List.head_eq_of_cons_eq (List.tail_eq_of_cons_eq (List.tail_eq_of_cons_eq h)))

theorem passive_testEqU32 (hmark : Mark mark) (text : Text) (expected actual : UInt32) (s : State) :
    ∀ line ∈ (testEqU32 (colours d.testColor) text expected actual s).2, Passive mark line := by
  have hexpected : Passive mark (coloured (colours d.testColor) (colours d.testColor).yellow
      (ascii "expected: " ++ hex 8 expected.toNat)) := by
    cases hcolour : d.testColor with
    | false =>
        have hb : ((colours false).yellow ++ (ascii "expected: " ++ hex 8 expected.toNat)).head?
            = some 101 := rfl
        exact hcolour ▸ d.passive_coloured hmark (hcolour ▸ hb) (by decide) (by decide)
    | true =>
        have hb : ((colours true).yellow ++ (ascii "expected: " ++ hex 8 expected.toNat)).head?
            = some escape := rfl
        exact hcolour ▸ d.passive_coloured hmark (hcolour ▸ hb) (by decide) (by decide)
  have hactual : Passive mark (coloured (colours d.testColor) (colours d.testColor).red
      (ascii "actual:   " ++ hex 8 actual.toNat)) := by
    cases hcolour : d.testColor with
    | false =>
        have hb : ((colours false).red ++ (ascii "actual:   " ++ hex 8 actual.toNat)).head?
            = some 97 := rfl
        exact hcolour ▸ d.passive_coloured hmark (hcolour ▸ hb) (by decide) (by decide)
    | true =>
        have hb : ((colours true).red ++ (ascii "actual:   " ++ hex 8 actual.toNat)).head?
            = some escape := rfl
        exact hcolour ▸ d.passive_coloured hmark (hcolour ▸ hb) (by decide) (by decide)
  intro line hline
  rcases List.mem_cons.mp hline with rfl | hline
  · exact passive_report hmark _ _ _ _
  · split_ifs at hline
    · cases hline
    · simp only [List.mem_cons, List.not_mem_nil, or_false] at hline
      rcases hline with rfl | rfl
      · exact hexpected
      · exact hactual

theorem passive_testSkip (hmark : Mark mark) (text reason : Text) (s : State) :
    ∀ line ∈ (testSkip (colours d.testColor) text reason s).2, Passive mark line := by
  intro line hline
  obtain rfl := List.mem_singleton.mp hline
  simp only [List.append_assoc]
  exact hmark.passive (ascii "ok ") (by decide) (by decide) (by decide) _

/-- The texts of a probe have no newlines if its name and its calls have none. -/
theorem clean_texts (hname : Clean name) (hcalls : ∀ call ∈ calls, ∀ text ∈ call.texts, Clean text) :
    ∀ text ∈ (d.run name calls).texts, Clean text := by
  have hphone : ∀ text ∈ [d.vendor, d.phone, d.cpu], Clean text := fun text htext =>
    clean_of_toNat fun b hb => (d.printable text htext b hb).1
  intro text htext
  rcases List.mem_append.mp htext with htext | hending
  · rcases List.mem_append.mp htext with hstart | hcall
    · rcases List.mem_cons.mp hstart with rfl | hstart
      · exact hname
      · exact hphone text hstart
    · obtain ⟨call, hcall, htext⟩ := List.mem_flatMap.mp hcall
      exact hcalls call hcall text htext
  · cases hending

/-- The lines that a script reads from what a probe prints. -/
theorem inputLines_run (hname : Clean name)
    (hcalls : ∀ call ∈ calls, ∀ text ∈ call.texts, Clean text) :
    inputLines (d.run name calls).text
      = ((d.run name calls).reportLines ++ (d.run name calls).endLines).map
          fun line => line ++ [newline] := by
  refine inputLines_unlines fun line hline => ?_
  rcases List.mem_append.mp hline with hreport | hend
  · exact (Run.clean_reportLines (d.clean_texts hname hcalls) line hreport).1
  · simp only [Run.endLines, run, List.mem_cons, List.not_mem_nil, or_false] at hend
    rcases hend with rfl | rfl
    · exact (planLine_clean _).1
    · exact (resultLine_clean _ _).1

/-- The lines of a probe that prints `lines` itself and then makes an assertion. -/
theorem reportLines_run (lines : List Text) (tail : List Call) :
    (d.run name (lines.map .comment ++ tail)).reportLines
      = (d.run name (lines.map .comment ++ tail)).startLines ++ lines ++
          (runCalls (colours d.testColor) tail ⟨0, 0⟩).2 := by
  have hprinted : (d.run name (lines.map .comment ++ tail)).printed.2
      = lines ++ (runCalls (colours d.testColor) tail ⟨0, 0⟩).2 :=
    congrArg Prod.snd (runCalls_comments lines tail ⟨0, 0⟩)
  rw [Run.reportLines, hprinted, List.append_assoc]

end Device

end Pmb887x.OpcodeProbe
