import Pmb887x.Library.Slices
import Pmb887x.Sie.SieCgsn

set_option autoImplicit false

/-! # What the older module reads

A piece of memory is read if it is `Plain`. One that looks like the end of an answer leaves a rest of it
behind; that is purged or in front of the next answer, and no try finds what it wants in between. So
`readMem` returns what it was asked for, or nothing. -/

namespace Pmb887x.Sie.SieCgsn

open Library

/-! ## The end of an answer -/

variable {buf taken rest stream : List UInt8} {c : UInt8} {code : Bool}

theorem statusLine_ne_nil (code : Bool) : statusLine code ≠ [] := by
  cases code <;> exact List.cons_ne_nil _ _

theorem matchStatus_eq_none_iff : matchStatus buf = none ↔ ∀ code, ¬ statusLine code <:+: buf := by
  induction buf with
  | nil =>
      simp only [matchStatus, List.infix_nil, true_iff]
      exact statusLine_ne_nil
  | cons b buf ih =>
      rw [matchStatus]
      simp only [List.isPrefixOf_iff_prefix, List.infix_cons_iff]
      split_ifs with hok herror
      · exact iff_of_false nofun fun h => h true (Or.inl hok)
      · exact iff_of_false nofun fun h => h false (Or.inl herror)
      · rw [ih]
        constructor
        · intro h code
          rw [not_or]
          refine ⟨?_, h code⟩
          cases code with
          | true => exact hok
          | false => exact herror
        · exact fun h code hwithin => h code (Or.inr hwithin)

theorem infix_of_matchStatus (h : matchStatus buf = some code) : statusLine code <:+: buf := by
  induction buf with
  | nil => cases h
  | cons b buf ih =>
      rw [matchStatus] at h
      simp only [List.isPrefixOf_iff_prefix] at h
      split_ifs at h with hok herror
      · cases h
        exact hok.isInfix
      · cases h
        exact herror.isInfix
      · exact List.infix_cons (ih h)

/-- What matches for the first time is at the end. -/
theorem suffix_of_matchStatus (hbuf : matchStatus buf = none) (h : matchStatus (buf ++ [c]) = some code) :
    statusLine code <:+ buf ++ [c] := by
  rcases List.infix_concat_iff.mp (infix_of_matchStatus h) with hsuffix | hwithin
  · exact hsuffix
  · exact absurd hwithin (matchStatus_eq_none_iff.mp hbuf code)

theorem matchStatus_of_suffix (hbuf : matchStatus buf = none) (h : statusLine code <:+ buf ++ [c]) :
    matchStatus (buf ++ [c]) = some code := by
  cases hmatch : matchStatus (buf ++ [c]) with
  | none => exact absurd h.isInfix (matchStatus_eq_none_iff.mp hmatch code)
  | some code' =>
      have h' := suffix_of_matchStatus hbuf hmatch
      cases code <;> cases code'
      · rfl
      · exact absurd (List.suffix_of_suffix_length_le h' h (by decide)) (by decide)
      · exact absurd (List.suffix_of_suffix_length_le h h' (by decide)) (by decide)
      · rfl

theorem matchStatus_none_of_prefix {l l' : List UInt8} (h : l <+: l') (hl' : matchStatus l' = none) :
    matchStatus l = none := by
  rw [matchStatus_eq_none_iff] at hl' ⊢
  exact fun code hwithin => hl' code (hwithin.trans h.isInfix)

/-- An answer is taken up to its first end. -/
theorem receive_eq (hquiet : matchStatus (buf ++ taken) = none)
    (hmatch : matchStatus (buf ++ taken ++ [c]) = some code) :
    receive buf (taken ++ c :: rest) = (some (response code (buf ++ taken ++ [c])), rest) := by
  induction taken generalizing buf with
  | nil =>
      rw [List.append_nil] at hmatch
      rw [List.nil_append, receive, hmatch, List.append_nil]
  | cons t taken ih =>
      have hsplit : buf ++ t :: taken = (buf ++ [t]) ++ taken := by simp
      rw [hsplit] at hquiet hmatch ⊢
      have hnone : matchStatus (buf ++ [t]) = none :=
        matchStatus_none_of_prefix (List.prefix_append _ _) hquiet
      rw [List.cons_append, receive, hnone]
      exact ih hquiet hmatch

/-- An answer that was taken ends where its end appears for the first time. -/
theorem exists_of_receive {answer : Response} (hbuf : matchStatus buf = none)
    (h : receive buf stream = (some answer, rest)) :
    ∃ taken c code, stream = taken ++ c :: rest ∧ matchStatus (buf ++ taken) = none ∧
      matchStatus (buf ++ taken ++ [c]) = some code ∧ answer = response code (buf ++ taken ++ [c]) := by
  induction stream generalizing buf with
  | nil => cases h
  | cons c stream ih =>
      rw [receive] at h
      cases hmatch : matchStatus (buf ++ [c]) with
      | some code =>
          rw [hmatch] at h
          cases h
          exact ⟨[], c, code, rfl, by rwa [List.append_nil], by rwa [List.append_nil],
            by rw [List.append_nil]⟩
      | none =>
          rw [hmatch] at h
          obtain ⟨taken, c', code, rfl, hquiet, hend, hanswer⟩ := ih hmatch h
          rw [List.append_assoc buf [c]] at hquiet hend hanswer
          exact ⟨c :: taken, c', code, rfl, hquiet, hend, hanswer⟩

/-- Nothing but the end of what arrives is left. -/
theorem receive_suffix : (receive buf stream).2 <:+ stream := by
  induction stream generalizing buf with
  | nil => exact List.suffix_rfl
  | cons c stream ih =>
      rw [receive]
      split
      · exact List.suffix_cons c stream
      · exact ih.trans (List.suffix_cons c stream)

/-! ## What is taken of an answer -/

theorem accept_acknowledged (chunk : Nat) (d : List UInt8) :
    accept chunk (some ⟨true, 0xA1 :: d⟩) = if chunk ≤ d.length then some (d.take chunk) else none := by
  have hlength : (chunk = (d.take chunk).length) ↔ chunk ≤ d.length := by
    rw [List.length_take]
    omega
  simp only [accept, List.drop_succ_cons, List.drop_zero, List.headD_cons, true_and, hlength]

theorem exists_of_accept {chunk : Nat} {answer : Response} {piece : List UInt8}
    (h : accept chunk (some answer) = some piece) :
    answer.code = true ∧ ∃ d, answer.data = 0xA1 :: d ∧ chunk ≤ d.length := by
  simp only [accept] at h
  split_ifs at h with hanswer
  obtain ⟨hcode, hack, hlength⟩ := hanswer
  refine ⟨hcode, answer.data.drop 1, ?_, ?_⟩
  · cases hdata : answer.data with
    | nil =>
        rw [hdata] at hack
        exact absurd hack (by decide)
    | cons b d =>
        rw [hdata] at hack
        rw [show b = 0xA1 from hack]
        rfl
  · rw [List.length_take] at hlength
    omega

/-- What trimming leaves of an acknowledged piece was there before. -/
theorem exists_of_trimBack {data d : List UInt8} (h : trimBack data = 0xA1 :: d) :
    ∃ d', data = 0xA1 :: d' ∧ d.length ≤ d'.length := by
  unfold trimBack at h
  split_ifs at h with hbreak hfeed
  · obtain ⟨t, ht⟩ : 0xA1 :: d <+: data := h ▸ List.take_prefix _ _
    refine ⟨d ++ t, ht.symm, ?_⟩
    rw [List.length_append]
    omega
  · rcases List.append_eq_cons_iff.mp h with ⟨-, hfeed⟩ | ⟨d', htake, hd⟩
    · exact absurd hfeed (by simp [lf])
    · obtain ⟨t, ht⟩ : 0xA1 :: d' <+: data := htake ▸ List.take_prefix _ _
      have hlength := congrArg List.length htake
      refine ⟨d' ++ t, ht.symm, ?_⟩
      rw [hd, ← ht] at *
      simp only [List.length_take, List.length_cons, List.length_append, List.length_nil] at hlength ⊢
      omega
  · exact ⟨d, h, le_rfl⟩

theorem exists_of_trimFront {data d : List UInt8} (h : trimFront data = d) :
    ∃ front, (front = [] ∨ front = [cr, lf]) ∧ data = front ++ d := by
  unfold trimFront at h
  split_ifs at h with hbreak
  · refine ⟨[cr, lf], Or.inr rfl, ?_⟩
    rw [← h, ← hbreak, List.take_append_drop]
  · exact ⟨[], Or.inl rfl, h⟩

/-- An answer with a piece in it is long, and acknowledged at its beginning. -/
theorem exists_of_accept_response {chunk : Nat} {piece : List UInt8} (hchunk : 4 ≤ chunk)
    (h : accept chunk (some (response true buf)) = some piece) :
    ∃ front, (front = [] ∨ front = [cr, lf]) ∧ front ++ [0xA1] <+: buf ∧ chunk + 7 ≤ buf.length := by
  obtain ⟨-, d, hdata, hlength⟩ := exists_of_accept h
  obtain ⟨d', htrim, hlength'⟩ := exists_of_trimBack hdata
  obtain ⟨front, hfront, hbuf⟩ := exists_of_trimFront htrim
  refine ⟨front, hfront, ?_⟩
  have hlong := congrArg List.length hbuf
  rw [List.length_append, List.length_cons] at hlong
  unfold substrFront at hbuf hlong
  have hsize : (buf.length : Int) - ((statusLine true).length - 2 + 4) = buf.length - 6 := by
    simp only [statusLine, List.length_cons, List.length_nil]
    omega
  rw [hsize] at hbuf hlong
  have hleading : ∀ n, buf.take n = front ++ 0xA1 :: d' → front ++ [0xA1] <+: buf := by
    intro n hn
    have hle : front ++ [0xA1] <+: buf.take n := by
      have hcons : front ++ 0xA1 :: d' = (front ++ [0xA1]) ++ d' := List.append_cons _ _ _
      rw [hn, hcons]
      exact List.prefix_append _ _
    exact hle.trans (List.take_prefix _ _)
  split_ifs at hbuf hlong with hpositive
  · rw [List.length_take] at hlong
    exact ⟨hleading _ hbuf, by omega⟩
  · rw [List.length_take] at hlong
    omega

/-! ## A piece that can be told from its answer -/

variable {data : List UInt8}

/-- The end of an answer is not inside a piece. -/
def Quiet (data : List UInt8) : Prop := ∀ code, ¬ statusLine code <:+: data ++ [cr, lf]

theorem statusLine_head? (code : Bool) {x : UInt8} (h : x = cr ∨ x = lf ∨ x = 0xA1) :
    (statusLine code).head? ≠ some x := by
  rcases h with rfl | rfl | rfl <;> cases code <;> decide

theorem statusLine_getLast? (code : Bool) {x : UInt8} (h : x = 79 ∨ x = 75 ∨ x = cr) :
    (statusLine code).getLast? ≠ some x := by
  rcases h with rfl | rfl | rfl <;> cases code <;> decide

theorem binaryReply_cons (data : List UInt8) :
    binaryReply (0xA1 :: data) = [cr, lf, 0xA1] ++ (data ++ [cr, lf]) ++ statusLine true := by
  simp [binaryReply, okLine, statusLine]

/-- What is in front of the end of an answer is trimmed. -/
theorem response_okLine (front : List UInt8) :
    response true (front ++ okLine) = ⟨true, trimBack (trimFront front)⟩ := by
  have hlength : ((front ++ okLine).length : Int) - ((statusLine true).length - 2 + 4) = front.length := by
    rw [List.length_append]
    simp only [okLine, statusLine, List.length_cons, List.length_nil]
    omega
  rw [response, hlength, substrFront, if_pos (Int.natCast_nonneg _), Int.toNat_natCast, List.take_left]

/-- The whole answer is taken, and trimmed. -/
theorem receive_binaryReply (h : Quiet data) :
    receive [] (binaryReply (0xA1 :: data)) = (some ⟨true, trimBack (0xA1 :: data)⟩, []) := by
  obtain ⟨front, hfront⟩ : ∃ front, front = [cr, lf, 0xA1] ++ (data ++ [cr, lf]) := ⟨_, rfl⟩
  have hquiet : matchStatus (front ++ [79, 75, cr]) = none := by
    rw [hfront, matchStatus_eq_none_iff]
    intro code hwithin
    have hright := infix_of_append_right (statusLine_ne_nil code)
      (fun x hx => statusLine_getLast? code (by simpa using hx)) hwithin
    exact h code (infix_of_append_left (statusLine_ne_nil code)
      (fun x hx => statusLine_head? code (by simpa using hx)) hright)
  have hend : matchStatus (front ++ [79, 75, cr] ++ [lf]) = some true := by
    apply matchStatus_of_suffix hquiet
    rw [List.append_assoc]
    exact List.suffix_append _ _
  have hbuf : front ++ [79, 75, cr] ++ [lf] = ([cr, lf] ++ 0xA1 :: data) ++ okLine := by
    simp [hfront, okLine]
  have hreply : binaryReply (0xA1 :: data) = front ++ [79, 75, cr] ++ lf :: [] := by
    rw [hbuf, binaryReply]
  have hreceive := @receive_eq [] (front ++ [79, 75, cr]) [] lf true hquiet hend
  rw [List.nil_append, hbuf, response_okLine] at hreceive
  rw [hreply, hbuf, hreceive]
  rfl

/-- A piece comes back from its answer if trimming leaves it alone. -/
theorem accept_trimBack {chunk : Nat} (hlength : data.length = chunk) :
    accept chunk (some ⟨true, trimBack (0xA1 :: data)⟩)
      = if [cr, lf] <:+ data ∨ [cr, lf, lf] <:+ data then none else some data := by
  have hbreak : [cr, lf] <:+ 0xA1 :: data ↔ [cr, lf] <:+ data := by
    rw [List.suffix_cons_iff, or_iff_right]
    exact fun h => absurd (List.cons.inj h).1 (by decide)
  have hfeed : [cr, lf, lf] <:+ 0xA1 :: data ↔ [cr, lf, lf] <:+ data := by
    rw [List.suffix_cons_iff, or_iff_right]
    exact fun h => absurd (List.cons.inj h).1 (by decide)
  simp only [trimBack, List.isSuffixOf_iff_suffix, hbreak, hfeed]
  split_ifs with h₁ h h₂ h h
  · -- a line break at the end is gone
    obtain ⟨size, hsize⟩ : ∃ size, data.length = size + 2 := Nat.exists_eq_add_of_le' h₁.length_le
    rw [List.length_cons, hsize, show size + 2 + 1 - 2 = size + 1 by omega, List.take_succ_cons,
      accept_acknowledged, if_neg]
    rw [List.length_take]
    omega
  · exact absurd (Or.inl h₁) h
  · obtain ⟨size, hsize⟩ : ∃ size, data.length = size + 3 := Nat.exists_eq_add_of_le' h₂.length_le
    rw [List.length_cons, hsize, show size + 3 + 1 - 3 = size + 1 by omega, List.take_succ_cons,
      List.cons_append, accept_acknowledged, if_neg]
    rw [List.length_append, List.length_take, List.length_singleton]
    omega
  · exact absurd (Or.inr h₂) h
  · exact absurd h (not_or.mpr ⟨h₁, h₂⟩)
  · rw [accept_acknowledged, if_pos hlength.ge, ← hlength, List.take_length]

/-! ## A piece that looks like the end of its answer -/

/-- What may be left of answers to one request: the end of some of them. -/
def Backlog (answer stream : List UInt8) : Prop :=
  ∃ count, stream <:+ (List.replicate count answer).flatten

theorem Backlog.suffix {answer : List UInt8} (h : Backlog answer stream) (hrest : rest <:+ stream) :
    Backlog answer rest := by
  obtain ⟨count, hcount⟩ := h
  exact ⟨count, hrest.trans hcount⟩

theorem Backlog.append {answer : List UInt8} (h : Backlog answer stream) :
    Backlog answer (stream ++ answer) := by
  obtain ⟨count, front, hfront⟩ := h
  refine ⟨count + 1, front, ?_⟩
  rw [← List.append_assoc, hfront, List.replicate_succ', List.flatten_append, List.flatten_singleton]

/-- It begins inside an answer. -/
theorem Backlog.split {answer : List UInt8} (h : Backlog answer stream) (hne : stream ≠ []) :
    ∃ i < answer.length, ∃ count, stream = answer.drop i ++ (List.replicate count answer).flatten := by
  obtain ⟨count, front, hfront⟩ := h
  induction count generalizing front with
  | zero => exact absurd (List.append_eq_nil_iff.mp hfront).2 hne
  | succ count ih =>
      rw [List.replicate_succ, List.flatten_cons] at hfront
      rcases List.append_eq_append_iff.mp hfront with ⟨last, hlast, hstream⟩ | ⟨back, -, hrest⟩
      · by_cases hnil : last = []
        · rw [hnil, List.nil_append] at hstream
          exact ih [] (by rw [List.nil_append, hstream])
        · refine ⟨front.length, ?_, count, ?_⟩
          · rw [hlast, List.length_append]
            exact Nat.lt_add_of_pos_right (List.length_pos_iff.mpr hnil)
          · have hdrop : answer.drop front.length = last := by rw [hlast, List.drop_left]
            rw [hdrop]
            exact hstream
      · exact ih back hrest.symm

/-- The end of an answer that is cut is no line break in front of an acknowledgement. -/
theorem not_acknowledged_of_cut {front more : List UInt8} {j : Nat} (hj : 1 ≤ j) (hj' : j < 4)
    (hfront : front = [] ∨ front = [cr, lf]) (hmore : ¬ [0xA1] <+: more) :
    ¬ front ++ [0xA1] <+: (statusLine true).drop j ++ more := by
  obtain rfl | rfl | rfl : j = 1 ∨ j = 2 ∨ j = 3 := by omega
  · rcases hfront with rfl | rfl <;> simp [statusLine, cr]
  · rcases hfront with rfl | rfl
    · simp [statusLine, cr]
    · simpa [statusLine] using hmore
  · rcases hfront with rfl | rfl <;> simp [statusLine, cr, lf]

/-- No answer that is taken from a backlog has a piece in it. -/
theorem accept_receive_backlog {chunk : Nat} (hchunk : 4 ≤ chunk) (hlength : data.length = chunk)
    (h : ¬ Quiet data) (hstream : Backlog (binaryReply (0xA1 :: data)) stream) :
    accept chunk (receive [] stream).1 = none := by
  cases hreceive : receive [] stream with
  | mk received rest =>
      cases received with
      | none => rfl
      | some answer =>
          by_contra hsome
          obtain ⟨piece, hpiece⟩ := Option.ne_none_iff_exists'.mp hsome
          obtain ⟨taken, c, code, hsplit, hquiet, hend, rfl⟩ := exists_of_receive rfl hreceive
          obtain rfl : code = true := (exists_of_accept hpiece).1
          obtain ⟨front, hfront, hleading, hlong⟩ := exists_of_accept_response hchunk hpiece
          rw [List.nil_append] at hquiet hleading hlong
          rw [List.length_append, List.length_singleton] at hlong
          have htaken : taken <+: stream := hsplit ▸ List.prefix_append _ _
          have hfirst : front ++ [0xA1] <+: stream := by
            refine hleading.trans ⟨rest, ?_⟩
            rw [hsplit, List.append_assoc, List.singleton_append]
          -- nothing that ends an answer is within its first bytes
          have hclash : ∀ {code l l'}, statusLine code <:+: l → stream = l ++ l' → ¬ l.length ≤ chunk + 6 := by
            intro code l l' hwithin hl hle
            have hl' : l <+: taken := List.prefix_of_prefix_length_le (hl ▸ List.prefix_append _ _) htaken
              (by omega)
            exact matchStatus_eq_none_iff.mp hquiet code (hwithin.trans hl'.isInfix)
          obtain ⟨i, hi, count, hstart⟩ := hstream.split (List.ne_nil_of_length_pos (by
            rw [hsplit, List.length_append, List.length_cons]
            omega))
          rw [binaryReply_cons] at hi hstart
          have hline : (statusLine true).length = 4 := rfl
          have hbody : ([cr, lf, 0xA1] ++ (data ++ [cr, lf])).length = chunk + 5 := by
            simp only [List.length_append, List.length_cons, List.length_nil, hlength]
            omega
          rw [List.length_append, hbody, hline] at hi
          by_cases hbefore : i ≤ 3
          · -- the piece is whole, and has an end of an answer in it
            obtain ⟨code, hwithin⟩ := not_forall_not.mp h
            rw [List.append_assoc, List.drop_append_of_le_length hbefore, ← List.append_assoc _ (data ++ _),
              List.append_assoc _ (statusLine true)] at hstart
            refine hclash (hwithin.trans (List.suffix_append _ _).isInfix) hstart ?_
            simp only [List.length_append, List.length_drop, List.length_cons, List.length_nil, hlength]
            omega
          · by_cases hwithin : i ≤ chunk + 5
            · -- the answer ends before it is long enough
              rw [List.drop_append_of_le_length (hbody ▸ hwithin)] at hstart
              refine hclash (List.suffix_append _ _).isInfix hstart ?_
              rw [List.length_append, List.length_drop, hbody, hline]
              omega
            · -- the end is cut, and no acknowledgement is at the beginning
              have hcut : ∃ j, j < 4 ∧ 1 ≤ j ∧ i = chunk + 5 + j := ⟨i - (chunk + 5), by omega, by omega, by omega⟩
              obtain ⟨j, hj, hj', rfl⟩ := hcut
              rw [← hbody, List.drop_append, Nat.add_sub_cancel_left, List.drop_eq_nil_of_le (by omega),
                List.nil_append] at hstart
              rw [hstart] at hfirst
              refine not_acknowledged_of_cut hj' hj hfront ?_ hfirst
              cases count with
              | zero => simp
              | succ count => simp [List.replicate_succ, cr]

/-! ## One piece of memory -/

variable {memory : Memory} {arrived : Nat → Nat}

theorem plain_iff : Plain data ↔ Quiet data ∧ ¬ ([cr, lf] <:+ data ∨ [cr, lf, lf] <:+ data) := by
  constructor
  · intro h
    exact ⟨h.status, not_or.mpr ⟨h.endsBreak, h.endsBreakFeed⟩⟩
  · rintro ⟨hquiet, hend⟩
    exact ⟨hquiet, (not_or.mp hend).1, (not_or.mp hend).2⟩

theorem ne_comma_of_mem_hexPadded {k n : Nat} {ch : Char} (h : ch ∈ hexPadded k n) : ch ≠ ',' := by
  rintro rfl
  exact hexValue_of_mem_hexPadded h (by decide)

/-- The phone understands the command. -/
theorem parseRead_readCommand (addr size : Nat) :
    parseRead (readCommand addr size) = some (addr, size) := by
  have hnumbers : ((readCommand addr size).drop 8).dropLast
      = hexPadded 8 addr ++ ',' :: hexPadded 8 size := by
    rw [readCommand_drop_eight, ← List.append_assoc, ← List.append_assoc, List.dropLast_concat]
    simp
  have haddr : ∀ ch ∈ hexPadded 8 addr, decide (ch ≠ ',') = true :=
    fun ch hch => decide_eq_true (ne_comma_of_mem_hexPadded hch)
  rw [parseRead, if_pos (readCommand_take_eight addr size)]
  simp only [hnumbers]
  rw [List.takeWhile_append_of_pos haddr, List.dropWhile_append_of_pos haddr,
    List.takeWhile_cons_of_neg (by decide), List.dropWhile_cons_of_neg (by decide), List.append_nil,
    hexNumber_hexPadded (by decide), List.drop_succ_cons, List.drop_zero, hexNumber_hexPadded (by decide)]
  rfl

theorem phoneAnswer_readCommand (memory : Memory) (addr size : Nat) :
    phoneAnswer memory (readCommand addr size) = binaryReply (0xA1 :: memory.readBytes addr 0 size) := by
  rw [phoneAnswer, parseRead_readCommand]

/-- As long as every answer is refused, so is the piece. -/
theorem readChunk_none {addr chunk : Nat} {P : List UInt8 → Prop}
    (hP : ∀ port : Port, P port.unread →
      accept chunk (sendAt memory arrived (readCommand addr chunk) port).1 = none ∧
        P (sendAt memory arrived (readCommand addr chunk) port).2.unread)
    (tries : Nat) (port : Port) (hport : P port.unread) :
    (readChunk memory arrived addr chunk tries port).1 = none := by
  induction tries generalizing port with
  | zero => exact (hP port hport).1
  | succ tries ih =>
      obtain ⟨hrefused, hnext⟩ := hP port hport
      rw [readChunk]
      simp only [hrefused]
      exact ih _ hnext

/-- A plain piece is read at the first try, and nothing is left of the answer. -/
theorem readChunk_plain {addr chunk : Nat} (h : Plain (memory.readBytes addr 0 chunk)) (tries purges : Nat) :
    readChunk memory arrived addr chunk tries ⟨[], purges⟩
      = (some (memory.readBytes addr 0 chunk), ⟨[], purges + 1⟩) := by
  obtain ⟨hquiet, hend⟩ := plain_iff.mp h
  have hsent : sendAt memory arrived (readCommand addr chunk) ⟨[], purges⟩
      = (some ⟨true, trimBack (0xA1 :: memory.readBytes addr 0 chunk)⟩, ⟨[], purges + 1⟩) := by
    simp only [sendAt, Port.purge, List.drop_nil, List.nil_append, phoneAnswer_readCommand,
      receive_binaryReply hquiet]
  have haccept := accept_trimBack (Memory.readBytes_length memory addr 0 chunk)
  rw [if_neg hend] at haccept
  cases tries with
  | zero =>
      rw [readChunk]
      simp only [hsent, haccept]
  | succ tries =>
      rw [readChunk]
      simp only [hsent, haccept]

/-- Another piece is not, however often it is tried. -/
theorem readChunk_not_plain {addr chunk : Nat} (hchunk : 4 ≤ chunk)
    (h : ¬ Plain (memory.readBytes addr 0 chunk)) (tries purges : Nat) :
    (readChunk memory arrived addr chunk tries ⟨[], purges⟩).1 = none := by
  have hlength := Memory.readBytes_length memory addr 0 chunk
  by_cases hquiet : Quiet (memory.readBytes addr 0 chunk)
  · -- the answer is taken as a whole, but trimming shortens it
    have hend := not_not.mp fun hend => h (plain_iff.mpr ⟨hquiet, hend⟩)
    refine readChunk_none (P := fun unread => unread = []) ?_ tries _ rfl
    intro port hport
    have haccept := accept_trimBack hlength
    rw [if_pos hend] at haccept
    simp only [sendAt, Port.purge, hport, List.drop_nil, List.nil_append, phoneAnswer_readCommand,
      receive_binaryReply hquiet, haccept, and_self]
  · refine readChunk_none (P := Backlog (binaryReply (0xA1 :: memory.readBytes addr 0 chunk))) ?_ tries _
      ⟨0, List.suffix_rfl⟩
    intro port hport
    have hstream := (hport.suffix (List.drop_suffix (arrived port.purges) port.unread)).append
    simp only [sendAt, Port.purge, phoneAnswer_readCommand]
    exact ⟨accept_receive_backlog hchunk hlength hquiet hstream, hstream.suffix receive_suffix⟩

/-! ## All pieces -/

/-- The pieces that are read of `size` bytes. -/
def PlainChunks (memory : Memory) (addr size : Nat) : Prop :=
  ∀ k, 128 * k < size → Plain (memory.readBytes (addr + 128 * k) 0 (min 128 (size - 128 * k)))

theorem plainChunks_step {addr size : Nat} (h : 0 < size) :
    PlainChunks memory addr size ↔
      Plain (memory.readBytes addr 0 (min 128 size)) ∧ PlainChunks memory (addr + 128) (size - 128) := by
  constructor
  · intro hall
    refine ⟨hall 0 h, ?_⟩
    intro k hk
    have hnext := hall (k + 1) (by omega)
    rwa [show addr + 128 * (k + 1) = addr + 128 + 128 * k by omega,
      show size - 128 * (k + 1) = size - 128 - 128 * k by omega] at hnext
  · rintro ⟨hfirst, hrest⟩ k hk
    cases k with
    | zero => exact hfirst
    | succ k =>
        rw [show addr + 128 * (k + 1) = addr + 128 + 128 * k by omega,
          show size - 128 * (k + 1) = size - 128 - 128 * k by omega]
        exact hrest k (by omega)

/-- The loop of `readMem` returns the memory, or exits at a piece that is not plain. -/
theorem readChunks_eq {addr size : Nat} (hsize : size % 4 = 0) (buffer : List UInt8) (purges : Nat) :
    (PlainChunks memory addr size →
      (readChunks memory arrived addr size buffer ⟨[], purges⟩).1
        = some (buffer ++ memory.readBytes addr 0 size)) ∧
    (¬ PlainChunks memory addr size →
      (readChunks memory arrived addr size buffer ⟨[], purges⟩).1 = none) := by
  induction size using Nat.strongRecOn generalizing addr buffer purges with
  | ind size ih =>
      rw [readChunks]
      by_cases h : 0 < size
      · have hchunk : (if size < 128 then size else 128) = min 128 size := by
          split_ifs <;> omega
        rw [if_pos h, plainChunks_step h]
        simp only [hchunk]
        by_cases hplain : Plain (memory.readBytes addr 0 (min 128 size))
        · rw [readChunk_plain hplain]
          obtain ⟨hread, hexit⟩ := ih (size - 128) (by omega) (by omega)
            (buffer ++ memory.readBytes addr 0 (min 128 size)) (purges + 1)
          have hbytes : memory.readBytes addr 0 (min 128 size)
              ++ memory.readBytes (addr + 128) 0 (size - 128) = memory.readBytes addr 0 size := by
            by_cases hlast : size ≤ 128
            · rw [Nat.min_eq_right hlast, Nat.sub_eq_zero_of_le hlast, Memory.readBytes]
              exact List.append_nil _
            · have hlong : 128 ≤ size := Nat.le_of_not_le hlast
              have hsum := Memory.readBytes_append memory addr 0 128 (size - 128)
              rw [Nat.zero_add, Nat.add_sub_cancel' hlong] at hsum
              rw [Nat.min_eq_left hlong, Memory.readBytes_base_add]
              exact hsum.symm
          constructor
          · rintro ⟨-, hrest⟩
            rw [hread hrest, List.append_assoc, hbytes]
          · intro hnot
            exact hexit fun hrest => hnot ⟨hplain, hrest⟩
        · have hnone : (readChunk memory arrived addr (min 128 size) 5 ⟨[], purges⟩).1 = none :=
            readChunk_not_plain (by omega) hplain 5 purges
          simp only [hnone]
          exact ⟨fun hall => absurd hall.1 hplain, fun _ => trivial⟩
      · obtain rfl : size = 0 := by omega
        rw [if_neg h]
        refine ⟨fun _ => ?_, fun hnot => absurd (fun k hk => absurd hk (by omega)) hnot⟩
        have hnil : memory.readBytes addr 0 0 = [] := rfl
        rw [hnil, List.append_nil]

/-! ## The memory that was asked for -/

/-- Whole words around what is asked for. -/
theorem window_spec (addr size : Nat) :
    (window addr size).addr = addr / 4 * 4 ∧ (window addr size).size = (addr % 4 + size + 3) / 4 * 4 ∧
      (window addr size).addr + (window addr size).skipBefore = addr ∧
      (window addr size).skipBefore + size + (window addr size).skipAfter = (window addr size).size := by
  simp only [window]
  split_ifs <;> omega

/-- What is skipped may be nothing. -/
def Window.cut (w : Window) (buffer : List UInt8) : List UInt8 :=
  (buffer.drop w.skipBefore).take (buffer.length - (w.skipBefore + w.skipAfter))

theorem readMem_fst (addr size : Nat) (port : Port) :
    (readMem memory arrived addr size port).1
      = (readChunks memory arrived (window addr size).addr (window addr size).size [] port).1.map
          (window addr size).cut := by
  rw [readMem]
  generalize window addr size = w
  cases hread : (readChunks memory arrived w.addr w.size [] port).1 with
  | none => rfl
  | some buffer =>
      simp only [Option.map_some, Window.cut]
      split_ifs with hskip
      · rfl
      · obtain ⟨hafter, hbefore⟩ := not_or.mp hskip
        rw [not_not.mp hafter, not_not.mp hbefore, List.drop_zero, Nat.sub_zero, List.take_length]

/-- The memory of the window, cut, is what was asked for. -/
theorem cut_window (memory : Memory) (addr size : Nat) :
    (window addr size).cut (memory.readBytes (window addr size).addr 0 (window addr size).size)
      = memory.readBytes addr 0 size := by
  obtain ⟨-, -, haddr, hsize⟩ := window_spec addr size
  generalize window addr size = w at *
  have hbefore := Memory.readBytes_append memory w.addr 0 w.skipBefore (size + w.skipAfter)
  have hafter := Memory.readBytes_append memory w.addr (0 + w.skipBefore) size w.skipAfter
  rw [← Nat.add_assoc, hsize] at hbefore
  rw [Window.cut, hbefore, hafter, List.drop_left' (Memory.readBytes_length _ _ _ _), List.take_left']
  · rw [Nat.zero_add, ← Memory.readBytes_base_add, haddr]
  · simp only [List.length_append, Memory.readBytes_length]
    omega

/-- The pieces around the bytes that are asked for. -/
def PlainAround (memory : Memory) (addr size : Nat) : Prop :=
  PlainChunks memory (addr / 4 * 4) ((addr % 4 + size + 3) / 4 * 4)

theorem readMem_eq (addr size purges : Nat) :
    (PlainAround memory addr size →
      (readMem memory arrived addr size ⟨[], purges⟩).1 = some (memory.readBytes addr 0 size)) ∧
    (¬ PlainAround memory addr size → (readMem memory arrived addr size ⟨[], purges⟩).1 = none) := by
  obtain ⟨haddr, hsize, -, -⟩ := window_spec addr size
  have hwords : (window addr size).size % 4 = 0 := by
    rw [hsize]
    exact Nat.mul_mod_left _ 4
  obtain ⟨hread, hexit⟩ := @readChunks_eq memory arrived (window addr size).addr _ hwords [] purges
  rw [PlainAround, ← haddr, ← hsize, readMem_fst]
  constructor
  · intro hplain
    rw [hread hplain, List.nil_append, Option.map_some, cut_window]
  · intro hplain
    rw [hexit hplain, Option.map_none]

/-- **What is asked for is returned**, whatever is left of older answers, exactly if every piece that is read
for it is plain; otherwise the program exits, so nothing else is ever returned. -/
theorem readMem_iff (memory : Memory) (arrived : Nat → Nat) (addr : UInt32) (size purges : Nat) :
    ((readMem memory arrived addr.toNat size ⟨[], purges⟩).1 = some (memory.readBytes addr.toNat 0 size) ↔
      PlainAround memory addr.toNat size) ∧
    ∀ got, (readMem memory arrived addr.toNat size ⟨[], purges⟩).1 = some got →
      got = memory.readBytes addr.toNat 0 size := by
  obtain ⟨hread, hexit⟩ := @readMem_eq memory arrived addr.toNat size purges
  by_cases hplain : PlainAround memory addr.toNat size
  · rw [hread hplain]
    exact ⟨iff_of_true rfl hplain, fun got hgot => (Option.some.inj hgot).symm⟩
  · rw [hexit hplain]
    exact ⟨iff_of_false nofun hplain, nofun⟩

/-- Four bytes, the last two of them a line break. -/
def lineBreakMemory : Memory := fun a => if a = 2 then cr else if a = 3 then lf else 0

theorem lineBreak_not_readMem :
    (readMem lineBreakMemory (fun _ => 0) 0 4 ⟨[], 0⟩).1 ≠ some (lineBreakMemory.readBytes 0 0 4) := by
  have hplain : ¬ PlainAround lineBreakMemory 0 4 := by
    intro hall
    have hfirst := hall 0 (by decide)
    exact hfirst.endsBreak (by decide)
  rw [(readMem_eq 0 4 0).2 hplain]
  exact nofun

end Pmb887x.Sie.SieCgsn
