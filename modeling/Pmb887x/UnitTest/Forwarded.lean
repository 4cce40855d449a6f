import Pmb887x.Boot.OutputSplitting
import Pmb887x.UnitTest.Verdict

set_option autoImplicit false

/-! # The report on the host

What `forward_output` writes of a test is all that the test prints, however the reads cut it, whatever host
commands it executes on the way. -/

namespace Pmb887x.UnitTest

open Library
open Boot.Output

/-- A line whose host command, if it has one, neither reads the port nor expects a reset. -/
def ReportLine (line : Text) : Prop :=
  NoExpectLine line ∧ (parseHostCommand line).map Prod.fst ≠ some expectResetCommand

instance : DecidablePred ReportLine := fun _ => inferInstanceAs (Decidable (_ ∧ _))

/-- The loop behind `bytes`, all of which are on the output. -/
structure Following (bytes : Text) (f : Forward) : Prop where
  no_nul : 0 ∉ bytes
  pending : f.pending = (splitLines newline bytes).2
  previousByte : f.previousByte = bytes.getLast?
  output : f.output = bytes
  noExpect : f.session.NoExpect

variable {runtime : Runtime} {bytes data text : Text} {f f' : Forward}

/-! ## One read -/

/-- The lines that a read completes are handled one after the other. -/
theorem Following.handle (h : Following bytes f)
    (hlines : ∀ line ∈ (splitLines newline (bytes ++ data)).1, NoExpectLine line)
    {previousByte : Option UInt8}
    (hok : { f with previousByte := previousByte }.handle runtime data = .ok f') :
    f'.pending = (splitLines newline (bytes ++ data)).2 ∧ f'.previousByte = previousByte ∧
      f'.output = bytes ∧ f'.session.NoExpect ∧
      f'.session.port.unread = f.session.port.unread ∧
      Session.lines runtime { f.session with expectedReset := none }
        (splitLines newline (f.pending ++ data)).1 = .ok f'.session := by
  unfold Forward.handle at hok
  dsimp only at hok
  split at hok
  · next s hs =>
    obtain rfl := Except.ok.inj hok
    have hsplit := splitLines_append newline bytes data
    rw [← h.pending] at hsplit
    rw [hsplit] at hlines ⊢
    have hkept := Session.lines_noExpect (s := { f.session with expectedReset := none }) h.noExpect
      (fun line hline => hlines line (List.mem_append_right _ hline)) hs
    exact ⟨rfl, rfl, h.output, hkept.1, hkept.2, hs⟩
  · cases hok

theorem handle_output {error : HostError}
    (h : f.handle runtime data = .error (error, f')) : f'.output = f.output := by
  unfold Forward.handle at h
  dsimp only at h
  split at h
  · cases h
  · obtain ⟨-, rfl⟩ := Prod.mk.inj (Except.error.inj h)
    rfl

/-- A read of text: all of it comes to the output, or the host raises. -/
theorem Following.read (h : Following bytes f) (hdata : 0 ∉ data)
    (hlines : ∀ line ∈ (splitLines newline (bytes ++ data)).1, NoExpectLine line) :
    (∃ error f₁, f.read runtime data = .raised error f₁ ∧ f₁.output = bytes) ∨
    ∃ f₁, Following (bytes ++ data) f₁ ∧ f₁.session.port.unread = f.session.port.unread ∧
      Session.lines runtime { f.session with expectedReset := none }
        (splitLines newline (f.pending ++ data)).1 = .ok f₁.session ∧
      (f₁.session.expectedReset = none → f.read runtime data = .running f₁) ∧
      ∀ argument, f₁.session.expectedReset = some argument →
        f.read runtime data = f₁.complete runtime argument := by
  have hprevious : data.getLast?.or f.previousByte = (bytes ++ data).getLast? := by
    rw [h.previousByte, List.getLast?_append]
  have hread : f.read runtime data
      = { f with previousByte := (bytes ++ data).getLast? }.text runtime data := by
    rw [Forward.read, scan_clean hdata, hprevious]
  rw [hread, Forward.text]
  cases hhandle : Forward.handle runtime { f with previousByte := (bytes ++ data).getLast? } data with
  | error raised => exact .inl ⟨raised.1, raised.2, rfl, (handle_output hhandle).trans h.output⟩
  | ok f₁ =>
      obtain ⟨hpending, hlast, houtput, hnoExpect, hunread, hsession⟩ := h.handle hlines hhandle
      refine .inr ⟨{ f₁ with output := f₁.output ++ data }, ?_, hunread, hsession,
        fun hnone => ?_, fun argument hsome => ?_⟩
      · exact ⟨by simp [h.no_nul, hdata], hpending, hlast, congrArg (· ++ data) houtput, hnoExpect⟩
      · dsimp only at hnone ⊢
        rw [hnone]
      · dsimp only at hsome ⊢
        rw [hsome]

/-- The read with the NUL: the text before it comes to the output and the loop ends, or the host raises. -/
theorem Following.read_nul (h : Following bytes f) (hdata : 0 ∉ data)
    (hlines : ∀ line ∈ (splitLines newline (bytes ++ data)).1, NoExpectLine line)
    (hnewline : (bytes ++ data).getLast? = some newline) (behind : Text) :
    (∃ error f₁, f.read runtime (data ++ 0 :: behind) = .raised error f₁) ∨
    ∃ f₁, f.read runtime (data ++ 0 :: behind) = .returned f₁ ∧ f₁.output = bytes ++ data := by
  have hscan : data.getLast?.or f.previousByte = some newline := by
    rw [h.previousByte, ← List.getLast?_append, hnewline]
  have hread : f.read runtime (data ++ 0 :: behind)
      = { f with previousByte := some newline }.finish runtime data := by
    rw [Forward.read, scan_nul hdata behind _ 0 hscan]
    dsimp only
    rw [Nat.zero_add, List.take_left]
  rw [hread, Forward.finish]
  cases hhandle : Forward.handle runtime { f with previousByte := some newline } data with
  | error raised => exact .inl ⟨raised.1, raised.2, rfl⟩
  | ok f₁ =>
      obtain ⟨-, -, houtput, -, -, -⟩ := h.handle hlines hhandle
      dsimp only
      split_ifs
      · exact .inl ⟨_, _, rfl⟩
      · exact .inr ⟨_, rfl, congrArg (· ++ data) houtput⟩

/-! ## Lines of a part -/

theorem splitLines_unlines {lines : List Text} (hlines : ∀ line ∈ lines, newline ∉ line) :
    splitLines newline (unlines lines) = (lines, []) := by
  induction lines with
  | nil => rfl
  | cons line lines ih =>
      rw [unlines_cons, splitLines_line newline (hlines line List.mem_cons_self),
        ih fun l hl => hlines l (List.mem_cons_of_mem _ hl)]

theorem mem_splitLines_append {line : Text} (h : line ∈ (splitLines newline bytes).1) (rest : Text) :
    line ∈ (splitLines newline (bytes ++ rest)).1 := by
  rw [splitLines_append]
  exact List.mem_append_left _ h

/-- What is left of some lines has the last of them. -/
theorem splitLines_left {lines : List Text} {last rest : Text}
    (hlines : ∀ line ∈ lines ++ [last], newline ∉ line) (hsplit : bytes ++ rest = unlines (lines ++ [last]))
    (hrest : rest ≠ []) : ∃ more, (splitLines newline ((splitLines newline bytes).2 ++ rest)).1
      = more ++ [last] ∧ (splitLines newline bytes).1 ++ more = lines := by
  have hall := splitLines_append newline bytes rest
  rw [hsplit, splitLines_unlines hlines] at hall
  obtain ⟨hcomplete, hunfinished⟩ := Prod.mk.inj hall
  rcases List.eq_nil_or_concat' (splitLines newline ((splitLines newline bytes).2 ++ rest)).1 with
    hnil | ⟨more, line, hmore⟩
  · have hempty := eq_nil_of_splitLines newline hnil hunfinished.symm
    exact absurd (List.append_eq_nil_iff.mp hempty).2 hrest
  · rw [hmore, ← List.append_assoc] at hcomplete
    obtain ⟨hbefore, hlast⟩ := List.append_inj' hcomplete rfl
    obtain rfl := (List.cons.inj hlast).1
    exact ⟨more, hmore, hbefore.symm⟩

/-- Lines of a report do not make the host expect a reset. -/
theorem lines_expectedReset {s s' : Session} {lines : List Text}
    (hlines : ∀ line ∈ lines, ReportLine line) (hs : s.expectedReset = none)
    (h : s.lines runtime lines = .ok s') : s'.expectedReset = none := by
  cases hreset : s'.expectedReset with
  | none => rfl
  | some argument =>
      obtain ⟨line, hline, argument', hparse⟩ := Session.exists_resetLine h hs hreset
      refine absurd ?_ (hlines line hline).2
      rw [hparse]
      rfl

/-! ## Every read -/

theorem Following.withUnread (h : Following bytes f) (unread : List (List UInt8)) :
    Following bytes (f.withUnread unread) :=
  ⟨h.no_nul, h.pending, h.previousByte, h.output, h.noExpect⟩

/-- The text before the first NUL. -/
theorem eq_of_nul {xs ys behind behind' : Text} (hxs : 0 ∉ xs) (hys : 0 ∉ ys)
    (h : xs ++ 0 :: behind = ys ++ 0 :: behind') : xs = ys := by
  have htext := congrArg streamText h
  rwa [streamText_append hxs, streamText_append hys, streamText_nul, streamText_nul,
    List.append_nil, List.append_nil] at htext

theorem prefix_of_nul {xs ys more behind : Text} (hxs : 0 ∉ xs) (hys : 0 ∉ ys)
    (h : xs ++ more = ys ++ 0 :: behind) : ∃ rest, ys = xs ++ rest := by
  have htext := congrArg streamText h
  rw [streamText_append hxs, streamText_append hys, streamText_nul, List.append_nil] at htext
  exact ⟨_, htext.symm⟩

theorem pass_nil (h : f.session.port.unread = []) : f.pass runtime = .running f := by
  rw [Forward.pass, h]

theorem pass_cons {unread : List (List UInt8)} (h : f.session.port.unread = data :: unread) :
    f.pass runtime = if data = [] then .running (f.withUnread unread)
      else (f.withUnread unread).read runtime data := by
  rw [Forward.pass, h]

/-- **A test that finishes is on the output with all its text when the loop returns.** -/
theorem Following.forwardOutput_finish (h : Following bytes f) {behind : Text}
    (hsplit : bytes ++ f.session.port.unread.flatten = text ++ 0 :: behind) (htext : 0 ∉ text)
    (hnewline : text.getLast? = some newline)
    (hlines : ∀ line ∈ (splitLines newline text).1, ReportLine line) {passes : Nat}
    (hreturned : forwardOutput runtime passes f = .returned f') : f'.output = text := by
  induction passes generalizing bytes f with
  | zero => cases hreturned
  | succ passes ih =>
      rw [forwardOutput] at hreturned
      cases hunread : f.session.port.unread with
      | nil =>
          rw [pass_nil hunread] at hreturned
          exact ih h hsplit hreturned
      | cons data unread =>
          rw [hunread, List.flatten_cons, ← List.append_assoc] at hsplit
          rw [pass_cons hunread] at hreturned
          by_cases hempty : data = []
          · rw [if_pos hempty] at hreturned
            rw [hempty, List.append_nil] at hsplit
            exact ih (h.withUnread unread) hsplit hreturned
          rw [if_neg hempty] at hreturned
          by_cases hnul : 0 ∈ data
          · -- the read with the NUL has the rest of the text
            obtain ⟨piece, rest, rfl, hpiece⟩ := List.eq_append_cons_of_mem hnul
            have hall : 0 ∉ bytes ++ piece := by simp [h.no_nul, hpiece]
            have hwhole : bytes ++ piece = text := by
              have hfirst : bytes ++ piece ++ 0 :: (rest ++ unread.flatten) = text ++ 0 :: behind := by
                rw [← hsplit]
                simp only [List.append_assoc, List.cons_append]
              exact eq_of_nul hall htext hfirst
            have hcomplete := hlines
            rw [← hwhole] at hcomplete hnewline
            rcases (h.withUnread unread).read_nul hpiece (fun line hline => (hcomplete line hline).1)
              hnewline rest with ⟨error, f₁, hread⟩ | ⟨f₁, hread, houtput⟩
            · rw [hread] at hreturned
              cases hreturned
            · rw [hread] at hreturned
              obtain rfl := Outcome.returned.inj hreturned
              exact houtput.trans hwhole
          · have hall : 0 ∉ bytes ++ data := by simp [h.no_nul, hnul]
            obtain ⟨rest, hrest⟩ := prefix_of_nul hall htext hsplit
            have hcomplete : ∀ line ∈ (splitLines newline (bytes ++ data)).1, ReportLine line :=
              fun line hline => hlines line (hrest ▸ mem_splitLines_append hline rest)
            rcases (h.withUnread unread).read hnul fun line hline => (hcomplete line hline).1 with
              ⟨error, f₁, hread, -⟩ | ⟨f₁, hf₁, hunread₁, hsession, hrunning, -⟩
            · rw [hread] at hreturned
              cases hreturned
            · have hnone := lines_expectedReset (fun line hline => hcomplete line (by
                rw [splitLines_append, ← h.pending]
                exact List.mem_append_right _ hline)) rfl hsession
              rw [hrunning hnone] at hreturned
              refine ih hf₁ ?_ hreturned
              rw [hunread₁]
              exact hsplit

/-- The line of the expected reset, behind any others. -/
theorem lines_reset {s s' : Session} {lines : List Text} {last argument : Text}
    (hlast : parseHostCommand last = some (expectResetCommand, argument))
    (h : s.lines runtime (lines ++ [last]) = .ok s') : s'.expectedReset = some argument := by
  rw [Session.lines_append] at h
  obtain ⟨s₁, -, h⟩ := exists_of_bind_eq_ok h
  obtain ⟨s₂, hline, h⟩ := exists_of_bind_eq_ok h
  obtain rfl := Except.ok.inj h
  have hbegin : expectResetCommand ≠ beginCommand := by decide +kernel
  have hend : expectResetCommand ≠ endCommand := by decide +kernel
  rw [Session.line, hlast] at hline
  dsimp only at hline
  rw [if_neg hbegin, if_neg hend, if_pos rfl, Session.expectReset] at hline
  split_ifs at hline
  obtain rfl := Except.ok.inj hline
  rfl

theorem complete_cases (f : Forward) (argument : Text) :
    (∃ g, f.complete runtime argument = .returned g) ∨
      ∃ error g, f.complete runtime argument = .raised error g := by
  unfold Forward.complete
  split
  · exact .inl ⟨_, rfl⟩
  · exact .inr ⟨_, _, rfl⟩

/-- How the loop over a test that expects a reset ends, if it does: an error with a part of the text on
the output, or `complete_expected_reset` behind all of it. -/
theorem Following.forwardOutput_reset (h : Following bytes f) {before after : List (List UInt8)}
    {lines : List Text} {last argument : Text} (hunread : f.session.port.unread = before ++ after)
    (hsplit : bytes ++ before.flatten = unlines (lines ++ [last]))
    (hbytes : before.flatten ≠ []) (hnul : 0 ∉ unlines (lines ++ [last]))
    (hclean : ∀ line ∈ lines ++ [last], newline ∉ line) (hlines : ∀ line ∈ lines, ReportLine line)
    (hlast : parseHostCommand last = some (expectResetCommand, argument)) (passes : Nat) :
    (∃ f₁, forwardOutput runtime passes f = .running f₁) ∨
    (∃ error f₁, forwardOutput runtime passes f = .raised error f₁ ∧
      f₁.output <+: unlines (lines ++ [last])) ∨
    ∃ f₁ left, Following (unlines (lines ++ [last])) f₁ ∧ left.flatten = [] ∧
      f₁.session.port.unread = left ++ after ∧
      forwardOutput runtime passes f = f₁.complete runtime argument := by
  induction passes generalizing bytes f before with
  | zero => exact .inl ⟨f, rfl⟩
  | succ passes ih =>
      rw [forwardOutput]
      cases before with
      | nil => exact absurd rfl hbytes
      | cons data before =>
          rw [List.flatten_cons] at hsplit hbytes
          rw [@pass_cons runtime data f (before ++ after) hunread]
          by_cases hempty : data = []
          · subst hempty
            rw [if_pos rfl]
            exact ih (h.withUnread _) rfl hsplit hbytes
          rw [if_neg hempty]
          have hdata : 0 ∉ data := fun hmem => hnul (by
            rw [← hsplit]
            exact List.mem_append_right _ (List.mem_append_left _ hmem))
          obtain ⟨more, hmore, -⟩ := splitLines_left hclean hsplit hbytes
          have hnoExpect : ∀ line ∈ (splitLines newline (bytes ++ data)).1, NoExpectLine line := by
            intro line hline
            have hall : line ∈ lines ++ [last] := by
              have hmem := mem_splitLines_append hline before.flatten
              rwa [List.append_assoc, hsplit, splitLines_unlines hclean] at hmem
            rcases List.mem_append.mp hall with hreport | hreset
            · exact (hlines line hreport).1
            · obtain rfl := List.mem_singleton.mp hreset
              have hother : some expectResetCommand ≠ some expectCommand := by decide +kernel
              rw [NoExpectLine, hlast]
              exact hother
          rcases (h.withUnread (before ++ after)).read hdata hnoExpect with
            ⟨error, f₁, hread, houtput⟩ | ⟨f₁, hf₁, hunread₁, hsession, hrunning, hreset⟩
          · rw [hread]
            exact .inr (.inl ⟨error, f₁, rfl, houtput ▸ hsplit ▸ List.prefix_append _ _⟩)
          by_cases hrest : before.flatten = []
          · -- the read completes the line of the expected reset
            rw [hrest, List.append_nil] at hmore hsplit
            rw [show (f.withUnread (before ++ after)).pending = _ from h.pending, hmore] at hsession
            rw [hreset argument (lines_reset hlast hsession)]
            refine .inr (.inr ⟨f₁, before, hsplit ▸ hf₁, hrest, hunread₁, ?_⟩)
            rcases complete_cases f₁ argument with ⟨g, hg⟩ | ⟨error, g, hg⟩
            · rw [hg]
            · rw [hg]
          · rw [← List.append_assoc] at hsplit
            obtain ⟨_, -, hcomplete⟩ := splitLines_left hclean hsplit hrest
            have hnone := lines_expectedReset (fun line hline => hlines line (by
              rw [← hcomplete, splitLines_append, ← h.pending]
              exact List.mem_append_left _ (List.mem_append_right _ hline))) rfl hsession
            rw [hrunning hnone]
            exact ih hf₁ hunread₁ hsplit hrest

end Pmb887x.UnitTest
