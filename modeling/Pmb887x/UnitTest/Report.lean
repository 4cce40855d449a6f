import Pmb887x.Boot.HostCommands
import Pmb887x.Library.Hex

set_option autoImplicit false

/-! # The report of a unit test (`unit/test.c`)

A test prints a line for each of its assertions, comments, and at the end the result, or a command to the
host that expects a reset. The counters are `unsigned int`. -/

namespace Pmb887x.UnitTest

open Library
open Boot.Output (ascii newline space)

abbrev Text := List UInt8

/-! ## Formats -/

/-- `%u` -/
def unsigned (n : Nat) : Text := ascii (toString n)

/-- `%0kX` -/
def hex (k n : Nat) : Text := (hexPadded k n).map fun c => UInt8.ofNat c.toNat

/-- `COLOR_RESET`, `COLOR_RED` and so on, which are empty without `TEST_COLOR`. -/
structure Colours where
  reset : Text
  red : Text
  green : Text
  yellow : Text
  cyan : Text

def escape : UInt8 := 0x1B

def colours (testColor : Bool) : Colours :=
  if testColor then
    { reset := escape :: ascii "[0m", red := escape :: ascii "[31m", green := escape :: ascii "[32m",
      yellow := escape :: ascii "[33m", cyan := escape :: ascii "[36m" }
  else { reset := [], red := [], green := [], yellow := [], cyan := [] }

/-! ## Assertions -/

/-- `struct test_state` -/
structure State where
  assertions : Nat
  failures : Nat

/-- A call prints lines, without their newline. -/
abbrev Printed := State × List Text

variable (c : Colours)

def report (name : Text) (passed : Bool) (s : State) : State × Text :=
  let assertions := wrap32 (s.assertions + 1)
  ({ assertions, failures := if passed then s.failures else wrap32 (s.failures + 1) },
    ascii (if passed then "ok" else "not ok") ++ [space] ++ unsigned assertions ++ ascii " - " ++
      (if passed then c.green else c.red) ++ name ++ c.reset)

def testSkip (name reason : Text) (s : State) : Printed :=
  let assertions := wrap32 (s.assertions + 1)
  ({ s with assertions },
    [ascii "ok " ++ unsigned assertions ++ ascii " - " ++ c.yellow ++ name ++ ascii " # SKIP " ++
      reason ++ c.reset])

def testCheck (name : Text) (condition : Bool) (s : State) : Printed :=
  let reported := report c name condition s
  (reported.1, [reported.2])

/-- A comment in a colour: `# %s…%s` -/
def coloured (colour text : Text) : Text := ascii "# " ++ colour ++ text ++ c.reset

def testEqU32 (name : Text) (expected actual : UInt32) (s : State) : Printed :=
  let reported := report c name (actual == expected) s
  (reported.1, reported.2 :: if actual == expected then [] else
    [coloured c c.yellow (ascii "expected: " ++ hex 8 expected.toNat),
      coloured c c.red (ascii "actual:   " ++ hex 8 actual.toNat)])

/-- `# %s: %08lX` -/
def idLine (name : Text) (actual : UInt32) : Text :=
  ascii "# " ++ name ++ ascii ": " ++ hex 8 actual.toNat

def testIdU32 (name : Text) (expected actual : UInt32) (s : State) : Printed :=
  let compared := testEqU32 c name expected actual s
  (compared.1, idLine name actual :: compared.2)

def modIdRev : UInt32 := 0xFF

def testModuleId (name : Text) (expected actual : UInt32) (s : State) : Printed :=
  let compared := testEqU32 c name (expected &&& ~~~modIdRev) (actual &&& ~~~modIdRev) s
  (compared.1, idLine name actual :: compared.2)

def modClcDisr : UInt32 := 1
def modClcDiss : UInt32 := 2
def modClcRmc : UInt32 := 0xFF00

def clockEnabled (clc : UInt32) : Bool :=
  (clc &&& (modClcDisr ||| modClcDiss)) == 0 && (clc &&& modClcRmc) != 0

def testModuleClock (name : Text) (clc : UInt32) (s : State) : Printed :=
  let reported := report c name (clockEnabled clc) s
  (reported.1, reported.2 :: if clockEnabled clc then [] else
    [coloured c c.red (ascii "CLC=" ++ hex 8 clc.toNat)])

def ambaPart (id0 id1 : UInt32) : UInt16 :=
  UInt32.toUInt16 ((id0 &&& (0xFF : UInt32)) ||| ((id1 &&& (0x0F : UInt32)) <<< (8 : UInt32)))

def testAmbaPartId (name : Text) (expected : UInt16) (id0 id1 : UInt32) (s : State) : Printed :=
  testIdU32 c name expected.toUInt32 (ambaPart id0 id1).toUInt32 s

/-- `bytes` are the expected and the actual byte at every offset. -/
def firstDifference (bytes : List (UInt8 × UInt8)) : Nat :=
  (bytes.takeWhile fun b => b.1 == b.2).length

def testEqMemory (name : Text) (bytes : List (UInt8 × UInt8)) (s : State) : Printed :=
  let offset := firstDifference bytes
  let reported := report c name (offset == bytes.length) s
  (reported.1, reported.2 ::
    match bytes[offset]? with
    | none => []
    | some (expected, actual) =>
        [coloured c c.yellow (ascii "offset:   " ++ unsigned offset),
          coloured c c.yellow (ascii "expected: " ++ hex 2 expected.toNat),
          coloured c c.red (ascii "actual:   " ++ hex 2 actual.toNat)])

/-! ## Runs -/

/-- A call of a test between `test_start` and its end. -/
inductive Call where
  | category (name : Text)
  | audioExpectTone (frequencyHz sampleRateHz durationMs : UInt32)
  | skip (name reason : Text)
  | check (name : Text) (condition : Bool)
  | eqU32 (name : Text) (expected actual : UInt32)
  | idU32 (name : Text) (expected actual : UInt32)
  | moduleId (name : Text) (expected actual : UInt32)
  | moduleClock (name : Text) (clc : UInt32)
  | ambaPartId (name : Text) (expected : UInt16) (id0 id1 : UInt32)
  | eqMemory (name : Text) (bytes : List (UInt8 × UInt8))
  /-- a line that the test prints itself -/
  | comment (text : Text)

def Call.run (call : Call) (s : State) : Printed :=
  match call with
  | .category name => (s, [coloured c c.cyan (ascii "--- " ++ name ++ ascii " ---")])
  | .audioExpectTone frequencyHz sampleRateHz durationMs =>
      (s, [ascii "# AUDIO-EXPECT: TONE hz=" ++ unsigned frequencyHz.toNat ++ ascii " rate=" ++
        unsigned sampleRateHz.toNat ++ ascii " ms=" ++ unsigned durationMs.toNat])
  | .skip name reason => testSkip c name reason s
  | .check name condition => testCheck c name condition s
  | .eqU32 name expected actual => testEqU32 c name expected actual s
  | .idU32 name expected actual => testIdU32 c name expected actual s
  | .moduleId name expected actual => testModuleId c name expected actual s
  | .moduleClock name clc => testModuleClock c name clc s
  | .ambaPartId name expected id0 id1 => testAmbaPartId c name expected id0 id1 s
  | .eqMemory name bytes => testEqMemory c name bytes s
  | .comment text => (s, [text])

/-- The call is an assertion that fails. -/
def Call.fails : Call → Bool
  | .check _ condition => !condition
  | .eqU32 _ expected actual => actual != expected
  | .idU32 _ expected actual => actual != expected
  | .moduleId _ expected actual => (actual &&& ~~~modIdRev) != (expected &&& ~~~modIdRev)
  | .moduleClock _ clc => !clockEnabled clc
  | .ambaPartId _ expected id0 id1 => (ambaPart id0 id1).toUInt32 != expected.toUInt32
  | .eqMemory _ bytes => bytes.any fun b => b.1 != b.2
  | _ => false

/-- The texts of the test in a call. -/
def Call.texts : Call → List Text
  | .category name => [name]
  | .audioExpectTone _ _ _ => []
  | .skip name reason => [name, reason]
  | .check name _ => [name]
  | .eqU32 name _ _ => [name]
  | .idU32 name _ _ => [name]
  | .moduleId name _ _ => [name]
  | .moduleClock name _ => [name]
  | .ambaPartId name _ _ _ => [name]
  | .eqMemory name _ => [name]
  | .comment text => [text]

def runCalls (calls : List Call) (s : State) : Printed :=
  calls.foldl
    (fun printed call =>
      let next := call.run c printed.1
      (next.1, printed.2 ++ next.2))
    (s, [])

/-- How a test ends: `test_finish`, or `test_expect_reset` with the reset behind it. -/
inductive Ending where
  | finish
  | expectReset (name : Text)

/-- A test: its name, the hardware it prints, its calls and its end. -/
structure Run where
  testColor : Bool
  name : Text
  vendor : Text
  phone : Text
  cpu : Text
  revision : UInt32
  calls : List Call
  ending : Ending

namespace Run

variable (run : Run)

/-- `test_start` with `print_hardware`. -/
def startLines : List Text :=
  [ascii "TAP version 13", coloured (colours run.testColor) (colours run.testColor).cyan run.name,
    ascii "# Hardware: vendor=" ++ run.vendor ++ ascii ", phone=" ++ run.phone ++ ascii ", CPU=" ++
      run.cpu ++ ascii " rev=" ++ hex 2 run.revision.toNat]

/-- The calls, from the state that `test_start` sets up. -/
def printed : Printed := runCalls (colours run.testColor) run.calls ⟨0, 0⟩

def state : State := run.printed.1

/-- What is printed before the end. -/
def reportLines : List Text := run.startLines ++ run.printed.2

end Run

/-- `1..%u` -/
def planLine (assertions : Nat) : Text := ascii "1.." ++ unsigned assertions

/-- `# result: %s%s%s (%u failed)` -/
def resultLine (failures : Nat) : Text :=
  ascii "# result: " ++ (if failures = 0 then c.green else c.red) ++
    ascii (if failures = 0 then "PASS" else "FAIL") ++ c.reset ++ ascii " (" ++ unsigned failures ++
      ascii " failed)"

/-- `# HOST-CMD: EXPECT_RESET %u %u %s` -/
def expectResetLine (s : State) (name : Text) : Text :=
  ascii "# HOST-CMD: EXPECT_RESET " ++ unsigned (wrap32 (s.assertions + 1)) ++ [space] ++
    unsigned s.failures ++ [space] ++ name

/-- Lines with their newlines. -/
def unlines (lines : List Text) : Text := lines.flatMap fun line => line ++ [newline]

/-- The last lines of the device. -/
def Run.endLines (run : Run) : List Text :=
  match run.ending with
  | .finish => [planLine run.state.assertions, resultLine (colours run.testColor) run.state.failures]
  | .expectReset name => [expectResetLine run.state name]

/-- What the device prints: the report, and the completion byte of `test_finish`. -/
def Run.text (run : Run) : Text := unlines (run.reportLines ++ run.endLines)

/-! ## The counters -/

variable {c}

theorem firstDifference_eq_length {bytes : List (UInt8 × UInt8)} :
    (firstDifference bytes == bytes.length) = !bytes.any fun b => b.1 != b.2 := by
  rw [firstDifference]
  induction bytes with
  | nil => rfl
  | cons b bytes ih =>
      rw [List.takeWhile_cons, List.any_cons]
      by_cases hb : b.1 == b.2
      · have hne : (b.1 != b.2) = false := by simpa using hb
        rw [if_pos hb, hne, Bool.false_or, ← ih]
        simp
      · have hne : (b.1 != b.2) = true := by simpa using hb
        rw [if_neg hb, hne, Bool.true_or]
        rfl

/-- What an assertion makes of the count of the failures. -/
theorem report_failures (name : Text) (passed : Bool) (s : State) :
    (report c name passed s).1.failures = if passed then s.failures else wrap32 (s.failures + 1) :=
  rfl

/-- A call counts one failure if it is an assertion that fails. -/
theorem Call.run_failures (call : Call) (s : State) :
    (call.run c s).1.failures = if call.fails then wrap32 (s.failures + 1) else s.failures := by
  have hnot : ∀ (b : Bool) (m n : Nat), (if b then m else n) = if (!b) then n else m := by
    intro b m n
    cases b with
    | false => rfl
    | true => rfl
  cases call with
  | check name condition => exact (report_failures (c := c) name _ s).trans (hnot _ _ _)
  | eqU32 name expected actual => exact (report_failures (c := c) name _ s).trans (hnot _ _ _)
  | idU32 name expected actual => exact (report_failures (c := c) name _ s).trans (hnot _ _ _)
  | moduleId name expected actual => exact (report_failures (c := c) name _ s).trans (hnot _ _ _)
  | moduleClock name clc => exact (report_failures (c := c) name _ s).trans (hnot _ _ _)
  | ambaPartId name expected id0 id1 => exact (report_failures (c := c) name _ s).trans (hnot _ _ _)
  | eqMemory name bytes =>
      refine (report_failures (c := c) name _ s).trans ?_
      rw [firstDifference_eq_length]
      exact (hnot _ _ _).trans (by rw [Bool.not_not]; rfl)
  | _ => rfl

/-- The count of the failures is that of the assertions that fail, as an `unsigned int`. -/
theorem runCalls_failures (calls : List Call) {s : State} (hs : s.failures < 2 ^ 32) :
    (runCalls c calls s).1.failures = wrap32 (s.failures + calls.countP Call.fails) := by
  have hfold : ∀ (printed : Printed), printed.1.failures < 2 ^ 32 →
      (calls.foldl (fun (printed : Printed) call =>
        ((call.run c printed.1).1, printed.2 ++ (call.run c printed.1).2)) printed).1.failures
        = wrap32 (printed.1.failures + calls.countP Call.fails) := by
    induction calls with
    | nil =>
        intro printed hprinted
        exact (wrap32_of_lt hprinted).symm
    | cons call calls ih =>
        intro printed hprinted
        have hstep := Call.run_failures (c := c) call printed.1
        have hlt : (call.run c printed.1).1.failures < 2 ^ 32 := by
          rw [hstep]
          split_ifs
          · exact Nat.mod_lt _ (by decide)
          · exact hprinted
        have hrest := ih ((call.run c printed.1).1, printed.2 ++ (call.run c printed.1).2) hlt
        rw [List.foldl_cons, hrest, hstep, List.countP_cons]
        unfold wrap32
        split_ifs
        · omega
        · rfl
  exact hfold (s, []) hs

theorem Run.state_failures (run : Run) :
    run.state.failures = wrap32 (run.calls.countP Call.fails) := by
  rw [Run.state, Run.printed, runCalls_failures _ (by decide), Nat.zero_add]

/-! ## Calls one after the other -/

theorem runCalls_cons (call : Call) (calls : List Call) (s : State) :
    runCalls c (call :: calls) s
      = ((runCalls c calls (call.run c s).1).1,
          (call.run c s).2 ++ (runCalls c calls (call.run c s).1).2) := by
  have hfold : ∀ (calls : List Call) (printed : Printed),
      calls.foldl (fun (printed : Printed) call =>
        ((call.run c printed.1).1, printed.2 ++ (call.run c printed.1).2)) printed
        = ((runCalls c calls printed.1).1, printed.2 ++ (runCalls c calls printed.1).2) := by
    intro calls
    induction calls with
    | nil => exact fun printed => by rw [runCalls, List.foldl_nil, List.foldl_nil, List.append_nil]
    | cons call calls ih =>
        intro printed
        rw [runCalls, List.foldl_cons, List.foldl_cons, ih, ih]
        simp only [List.nil_append, List.append_assoc]
  exact hfold calls (call.run c s)

/-- Lines that a test prints itself. -/
theorem runCalls_comments (lines : List Text) (calls : List Call) (s : State) :
    runCalls c (lines.map .comment ++ calls) s
      = ((runCalls c calls s).1, lines ++ (runCalls c calls s).2) := by
  induction lines with
  | nil => rfl
  | cons line lines ih =>
      rw [List.map_cons, List.cons_append, runCalls_cons]
      have hstate : (Call.comment line).run c s = (s, [line]) := rfl
      rw [hstate, ih]
      rfl

/-! ## Lines are lines -/

/-- A C string without a newline. -/
def Clean (text : Text) : Prop := newline ∉ text ∧ 0 ∉ text

instance : DecidablePred Clean := fun _ => inferInstanceAs (Decidable (_ ∧ _))

theorem clean_append {s t : Text} : Clean (s ++ t) ↔ Clean s ∧ Clean t := by
  simp only [Clean, List.mem_append, not_or]
  tauto

/-- Printable bytes. -/
theorem clean_of_toNat {text : Text} (h : ∀ b ∈ text, 32 ≤ b.toNat) : Clean text :=
  ⟨fun hmem => absurd (h _ hmem) (by decide), fun hmem => absurd (h _ hmem) (by decide)⟩

theorem clean_chars {chars : List Char} (h : ∀ ch ∈ chars, 32 ≤ ch.toNat ∧ ch.toNat < 256) :
    Clean (chars.map fun ch => UInt8.ofNat ch.toNat) := by
  refine clean_of_toNat fun b hb => ?_
  obtain ⟨ch, hch, rfl⟩ := List.mem_map.mp hb
  have hrange := h ch hch
  rw [UInt8.toNat_ofNat', Nat.mod_eq_of_lt (by omega)]
  exact hrange.1

theorem clean_ascii {text : String}
    (h : (text.toList.all fun ch => 32 ≤ ch.toNat && ch.toNat < 256) = true) :
    Clean (ascii text) := by
  refine clean_chars fun ch hch => ?_
  have hrange := List.all_eq_true.mp h ch hch
  simpa only [Bool.and_eq_true, decide_eq_true_eq] using hrange

theorem isDigit_toNat {ch : Char} (h : ch.isDigit = true) : 48 ≤ ch.toNat ∧ ch.toNat ≤ 57 := by
  simp only [Char.isDigit, Bool.and_eq_true, decide_eq_true_eq, ge_iff_le] at h
  exact h

/-- The characters of a decimal number. -/
theorem mem_toString {n : Nat} {ch : Char} (h : ch ∈ (toString n).toList) :
    48 ≤ ch.toNat ∧ ch.toNat ≤ 57 := by
  rw [show (toString n).toList = Nat.toDigits 10 n from Nat.toList_repr] at h
  exact isDigit_toNat (Nat.isDigit_of_mem_toDigits (by decide) (by decide) h)

/-- A decimal number has digits only. -/
theorem not_mem_unsigned {b : UInt8} (h : b.toNat < 48) (n : Nat) : b ∉ unsigned n := by
  intro hmem
  obtain ⟨ch, hch, heq⟩ := List.mem_map.mp hmem
  have hrange := mem_toString hch
  rw [← heq, UInt8.toNat_ofNat', Nat.mod_eq_of_lt (by omega)] at h
  exact absurd hrange.1 (Nat.not_le.mpr h)

theorem clean_unsigned (n : Nat) : Clean (unsigned n) :=
  ⟨not_mem_unsigned (by decide) n, not_mem_unsigned (by decide) n⟩

theorem clean_hex (k n : Nat) : Clean (hex k n) := by
  refine clean_chars fun ch hch => ?_
  have := toNat_of_hexValue (hexValue_of_mem_hexPadded hch)
  omega

/-- Colours are printable but for the escape character. -/
structure Colours.Clean (c : Colours) : Prop where
  reset : UnitTest.Clean c.reset
  red : UnitTest.Clean c.red
  green : UnitTest.Clean c.green
  yellow : UnitTest.Clean c.yellow
  cyan : UnitTest.Clean c.cyan

theorem clean_escape {text : Text} : Clean (escape :: text) ↔ Clean text := by
  simp [Clean, escape, newline]

theorem colours_clean (testColor : Bool) : (colours testColor).Clean := by
  have hnil : Clean [] := ⟨List.not_mem_nil, List.not_mem_nil⟩
  cases testColor with
  | false => exact ⟨hnil, hnil, hnil, hnil, hnil⟩
  | true =>
      constructor
      case reset => exact clean_escape.mpr (clean_ascii (by decide))
      case red => exact clean_escape.mpr (clean_ascii (by decide))
      case green => exact clean_escape.mpr (clean_ascii (by decide))
      case yellow => exact clean_escape.mpr (clean_ascii (by decide))
      case cyan => exact clean_escape.mpr (clean_ascii (by decide))

theorem clean_space : Clean [space] := ⟨by decide, by decide⟩

theorem coloured_clean (hc : c.Clean) {colour text : Text} (hcolour : Clean colour)
    (htext : Clean text) : Clean (coloured c colour text) := by
  have hhash : Clean (ascii "# ") := clean_ascii (by decide)
  simp only [coloured, clean_append, hhash, hcolour, htext, hc.reset, and_self]

theorem report_clean (hc : c.Clean) {name : Text} (hname : Clean name) (passed : Bool) (s : State) :
    Clean (report c name passed s).2 := by
  have hdash : Clean (ascii " - ") := clean_ascii (by decide)
  have hword : Clean (ascii (if passed then "ok" else "not ok")) := by
    cases passed with
    | false => exact clean_ascii (by decide)
    | true => exact clean_ascii (by decide)
  have hcolour : Clean (if passed then c.green else c.red) := by
    cases passed with
    | false => exact hc.red
    | true => exact hc.green
  simp only [report, clean_append, hword, clean_space, clean_unsigned, hdash, hcolour, hname,
    hc.reset, and_self]

theorem testEqU32_clean (hc : c.Clean) {name : Text} (hname : Clean name)
    (expected actual : UInt32) (s : State) :
    ∀ line ∈ (testEqU32 c name expected actual s).2, Clean line := by
  intro line hline
  rcases List.mem_cons.mp hline with rfl | hline
  · exact report_clean hc hname _ s
  · split_ifs at hline
    · cases hline
    · simp only [List.mem_cons, List.not_mem_nil, or_false] at hline
      rcases hline with rfl | rfl
      · exact coloured_clean hc hc.yellow
          (clean_append.mpr ⟨clean_ascii (by decide), clean_hex _ _⟩)
      · exact coloured_clean hc hc.red
          (clean_append.mpr ⟨clean_ascii (by decide), clean_hex _ _⟩)

theorem idLine_clean {name : Text} (hname : Clean name) (actual : UInt32) :
    Clean (idLine name actual) := by
  have hhash : Clean (ascii "# ") := clean_ascii (by decide)
  have hcolon : Clean (ascii ": ") := clean_ascii (by decide)
  simp only [idLine, clean_append, hhash, hname, hcolon, clean_hex, and_self]

/-- Texts without a newline make lines without one. -/
theorem Call.run_clean (hc : c.Clean) {call : Call} (htexts : ∀ text ∈ call.texts, Clean text)
    (s : State) : ∀ line ∈ (call.run c s).2, Clean line := by
  intro line hline
  cases call with
  | category name =>
      have hname := htexts name List.mem_cons_self
      obtain rfl := List.mem_singleton.mp hline
      refine coloured_clean hc hc.cyan (clean_append.mpr ⟨clean_append.mpr ⟨?_, hname⟩, ?_⟩)
      · exact clean_ascii (by decide)
      · exact clean_ascii (by decide)
  | audioExpectTone frequencyHz sampleRateHz durationMs =>
      obtain rfl := List.mem_singleton.mp hline
      have htone : Clean (ascii "# AUDIO-EXPECT: TONE hz=") := clean_ascii (by decide)
      have hrate : Clean (ascii " rate=") := clean_ascii (by decide)
      have hms : Clean (ascii " ms=") := clean_ascii (by decide)
      simp only [clean_append, htone, hrate, hms, clean_unsigned, and_self]
  | skip name reason =>
      obtain rfl := List.mem_singleton.mp hline
      have hname := htexts name List.mem_cons_self
      have hreason := htexts reason (List.mem_cons_of_mem _ List.mem_cons_self)
      have hok : Clean (ascii "ok ") := clean_ascii (by decide)
      have hdash : Clean (ascii " - ") := clean_ascii (by decide)
      have hskip : Clean (ascii " # SKIP ") := clean_ascii (by decide)
      simp only [clean_append, hok, hdash, hskip, clean_unsigned, hname, hreason, hc.yellow,
        hc.reset, and_self]
  | check name condition =>
      obtain rfl := List.mem_singleton.mp hline
      exact report_clean hc (htexts name List.mem_cons_self) _ s
  | eqU32 name expected actual =>
      exact testEqU32_clean hc (htexts name List.mem_cons_self) _ _ s line hline
  | idU32 name expected actual =>
      have hname := htexts name List.mem_cons_self
      rcases List.mem_cons.mp hline with rfl | hline
      · exact idLine_clean hname actual
      · exact testEqU32_clean hc hname _ _ s line hline
  | moduleId name expected actual =>
      have hname := htexts name List.mem_cons_self
      rcases List.mem_cons.mp hline with rfl | hline
      · exact idLine_clean hname actual
      · exact testEqU32_clean hc hname _ _ s line hline
  | moduleClock name clc =>
      rcases List.mem_cons.mp hline with rfl | hline
      · exact report_clean hc (htexts name List.mem_cons_self) _ s
      · split_ifs at hline
        · cases hline
        · obtain rfl := List.mem_singleton.mp hline
          exact coloured_clean hc hc.red
            (clean_append.mpr ⟨clean_ascii (by decide), clean_hex _ _⟩)
  | ambaPartId name expected id0 id1 =>
      have hname := htexts name List.mem_cons_self
      rcases List.mem_cons.mp hline with rfl | hline
      · exact idLine_clean hname _
      · exact testEqU32_clean hc hname _ _ s line hline
  | eqMemory name bytes =>
      rcases List.mem_cons.mp hline with rfl | hline
      · exact report_clean hc (htexts name List.mem_cons_self) _ s
      · cases hat : bytes[firstDifference bytes]? with
        | none =>
            rw [hat] at hline
            cases hline
        | some differing =>
            rw [hat] at hline
            simp only [List.mem_cons, List.not_mem_nil, or_false] at hline
            rcases hline with rfl | rfl | rfl
            · exact coloured_clean hc hc.yellow
                (clean_append.mpr ⟨clean_ascii (by decide), clean_unsigned _⟩)
            · exact coloured_clean hc hc.yellow
                (clean_append.mpr ⟨clean_ascii (by decide), clean_hex _ _⟩)
            · exact coloured_clean hc hc.red
                (clean_append.mpr ⟨clean_ascii (by decide), clean_hex _ _⟩)
  | comment text =>
      obtain rfl := List.mem_singleton.mp hline
      exact htexts line List.mem_cons_self

end Pmb887x.UnitTest
