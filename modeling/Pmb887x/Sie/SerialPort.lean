import Mathlib.Data.List.Basic
import Mathlib.Data.List.TakeWhile
import Mathlib.Tactic.SplitIfs

set_option autoImplicit false

/-! # AT commands over a serial port (`Sie/SerialPort.pm`)

What a device sends arrives in pieces: `sysread` gives one of them, or its beginning where fewer bytes
are wanted. When no piece is left, nothing arrives any more and the time of the call runs out. -/

namespace Pmb887x.Sie

/-- What has arrived, in the pieces in which it is read. -/
abbrev Input := List (List UInt8)

def cr : UInt8 := 13
def lf : UInt8 := 10

/-! ## Reading -/

/-- `readChunk`: empty when the time is over. -/
def readChunk (size : Nat) : Input → List UInt8 × Input
  | [] => ([], [])
  | piece :: pieces =>
      if piece.length ≤ size then (piece, pieces)
      else (piece.take size, piece.drop size :: pieces)

theorem readChunk_eq (size : Nat) (input : Input) :
    (readChunk size input).1 ++ (readChunk size input).2.flatten = input.flatten := by
  cases input with
  | nil => rfl
  | cons piece pieces =>
      rw [readChunk]
      split_ifs
      · rfl
      · rw [List.flatten_cons, ← List.append_assoc, List.take_append_drop, List.flatten_cons]

/-- Less than what is wanted is a whole piece. -/
theorem readChunk_short {size : Nat} {input : Input} (hinput : input ≠ [])
    (h : (readChunk size input).1.length < size) :
    input = (readChunk size input).1 :: (readChunk size input).2 := by
  cases input with
  | nil => exact absurd rfl hinput
  | cons piece pieces =>
      rw [readChunk] at h ⊢
      split_ifs at h ⊢ with hle
      · rfl
      · rw [List.length_take] at h
        omega

/-- What is left to arrive gets less. -/
theorem readChunk_smaller {size : Nat} {input : Input} (hsize : 0 < size) (hinput : input ≠ []) :
    (readChunk size input).2.length + (readChunk size input).2.flatten.length
      < input.length + input.flatten.length := by
  cases input with
  | nil => exact absurd rfl hinput
  | cons piece pieces =>
      rw [readChunk]
      split_ifs with hle
      · simp only [List.length_cons, List.flatten_cons, List.length_append]
        omega
      · simp only [List.length_cons, List.flatten_cons, List.length_append, List.length_drop]
        omega

/-- Pieces are not empty, and none is left empty. -/
theorem readChunk_nonempty {size : Nat} {input : Input} (hinput : ∀ piece ∈ input, piece ≠ []) :
    ∀ piece ∈ (readChunk size input).2, piece ≠ [] := by
  cases input with
  | nil => exact hinput
  | cons first pieces =>
      rw [readChunk]
      split_ifs with hle
      · exact fun piece hpiece => hinput piece (List.mem_cons_of_mem _ hpiece)
      · intro piece hpiece
        rcases List.mem_cons.mp hpiece with rfl | hpiece
        · intro hnil
          rw [List.drop_eq_nil_iff] at hnil
          omega
        · exact hinput piece (List.mem_cons_of_mem _ hpiece)

theorem eq_nil_of_flatten {input : Input} (hinput : ∀ piece ∈ input, piece ≠ [])
    (h : input.flatten = []) : input = [] := by
  cases input with
  | nil => rfl
  | cons piece pieces =>
      rw [List.flatten_cons, List.append_eq_nil_iff] at h
      exact absurd h.1 (hinput piece List.mem_cons_self)

/-- `read`: the bytes wanted, or what arrives before the time is over. -/
def read (size : Nat) (input : Input) (data : List UInt8) : List UInt8 × Input :=
  let chunk := readChunk (size - data.length) input
  let data := data ++ chunk.1
  if size ≤ data.length then (data, chunk.2)
  else if input = [] then (data, [])
  else read size chunk.2 data
termination_by input.length
decreasing_by
  rename_i hsize hinput
  rw [List.length_append] at hsize
  have hshort := readChunk_short hinput (show chunk.1.length < size - _ by omega)
  calc chunk.2.length < (chunk.1 :: chunk.2).length := Nat.lt_succ_self _
    _ = input.length := by rw [← hshort]

/-- **However the bytes arrive, `read` gives those wanted and leaves the others.** -/
theorem read_spec {size : Nat} {input : Input} {data wanted rest : List UInt8}
    (hflat : input.flatten = wanted ++ rest) (hlength : data.length + wanted.length = size)
    (hinput : ∀ piece ∈ input, piece ≠ []) :
    (read size input data).1 = data ++ wanted ∧ (read size input data).2.flatten = rest ∧
      ∀ piece ∈ (read size input data).2, piece ≠ [] := by
  induction input generalizing data wanted with
  | nil =>
      obtain ⟨rfl, rfl⟩ := List.append_eq_nil_iff.mp hflat.symm
      rw [List.length_nil, Nat.add_zero] at hlength
      rw [read, readChunk]
      simp only [List.append_nil, hlength, Nat.le_refl, if_true]
      exact ⟨trivial, rfl, hinput⟩
  | cons piece pieces ih =>
      have hpieces : ∀ p ∈ pieces, p ≠ [] := fun p hp => hinput p (List.mem_cons_of_mem _ hp)
      have hneed : size - data.length = wanted.length := by omega
      rw [List.flatten_cons] at hflat
      rw [read, hneed]
      by_cases hle : piece.length ≤ wanted.length
      · -- the whole piece is wanted
        have hchunk : readChunk wanted.length (piece :: pieces) = (piece, pieces) := by
          rw [readChunk, if_pos hle]
        obtain ⟨wanted', hwanted⟩ : piece <+: wanted :=
          List.prefix_of_prefix_length_le (hflat ▸ List.prefix_append piece pieces.flatten)
            (List.prefix_append wanted rest) hle
        rw [hchunk]
        subst hwanted
        rw [List.append_assoc, List.append_cancel_left_eq] at hflat
        rw [List.length_append] at hlength
        simp only [List.length_append]
        by_cases hdone : size ≤ data.length + piece.length
        · obtain rfl : wanted' = [] := List.length_eq_zero_iff.mp (by omega)
          rw [if_pos hdone, List.append_nil]
          exact ⟨rfl, hflat, hpieces⟩
        · rw [if_neg hdone, if_neg (List.cons_ne_nil _ _)]
          have hrest := @ih (data ++ piece) wanted' hflat
            (by rw [List.length_append]; omega) hpieces
          rwa [List.append_assoc] at hrest
      · -- the piece reaches behind what is wanted
        have hchunk : readChunk wanted.length (piece :: pieces)
            = (piece.take wanted.length, piece.drop wanted.length :: pieces) := by
          rw [readChunk, if_neg hle]
        have htake : piece.take wanted.length = wanted := by
          have := congrArg (List.take wanted.length) hflat
          rwa [List.take_append_of_le_length (by omega), List.take_left] at this
        have hdrop : piece.drop wanted.length ++ pieces.flatten = rest := by
          have := congrArg (List.drop wanted.length) hflat
          rwa [List.drop_append_of_le_length (by omega), List.drop_left] at this
        rw [hchunk]
        simp only [htake, List.length_append, hlength, Nat.le_refl, if_true, List.flatten_cons]
        refine ⟨trivial, hdrop, fun p hp => ?_⟩
        rcases List.mem_cons.mp hp with rfl | hp
        · intro hnil
          rw [List.drop_eq_nil_iff] at hnil
          omega
        · exact hpieces p hp

/-! ## Lines -/

/-- The bytes of a line: `[^\r\n]` -/
def inLine (b : UInt8) : Bool := b != cr && b != lf

/-- `/^([^\r\n]*)\r\n/`: the line and what follows it. -/
def matchLine (buffer : List UInt8) : Option (List UInt8 × List UInt8) :=
  let rest := buffer.dropWhile inLine
  if rest.take 2 = [cr, lf] then some (buffer.takeWhile inLine, rest.drop 2) else none

theorem matchLine_eq_some_iff {buffer line rest : List UInt8} :
    matchLine buffer = some (line, rest) ↔
      buffer = line ++ cr :: lf :: rest ∧ ∀ b ∈ line, inLine b = true := by
  constructor
  · intro h
    rw [matchLine] at h
    split_ifs at h with hend
    obtain ⟨rfl, rfl⟩ := Prod.mk.inj (Option.some.inj h)
    refine ⟨?_, fun b hb => List.mem_takeWhile_imp hb⟩
    conv_lhs => rw [← List.takeWhile_append_dropWhile (p := inLine) (l := buffer),
      ← List.take_append_drop 2 (buffer.dropWhile inLine), hend]
    rfl
  · rintro ⟨rfl, hline⟩
    have htake : (line ++ cr :: lf :: rest).takeWhile inLine = line := by
      rw [List.takeWhile_append_of_pos hline, List.takeWhile_cons_of_neg (by decide),
        List.append_nil]
    have hdrop : (line ++ cr :: lf :: rest).dropWhile inLine = cr :: lf :: rest := by
      rw [List.dropWhile_append_of_pos hline, List.dropWhile_cons_of_neg (by decide)]
    rw [matchLine, htake, hdrop]
    rfl

theorem matchLine_length {buffer line rest : List UInt8}
    (h : matchLine buffer = some (line, rest)) : rest.length < buffer.length := by
  obtain ⟨rfl, -⟩ := matchLine_eq_some_iff.mp h
  simp only [List.length_append, List.length_cons]
  omega

/-- A line that is complete stays so when more arrives. -/
theorem matchLine_append {buffer line rest : List UInt8} (more : List UInt8)
    (h : matchLine buffer = some (line, rest)) :
    matchLine (buffer ++ more) = some (line, rest ++ more) := by
  obtain ⟨rfl, hline⟩ := matchLine_eq_some_iff.mp h
  exact matchLine_eq_some_iff.mpr ⟨by simp, hline⟩

/-- The `status` of an answer. -/
inductive AtStatus where
  | ok
  | error
  | timeout
  deriving DecidableEq

/-- `$response_type` -/
inductive ResponseType where
  | none
  | binary (size : Nat)
  | numeric
  | noPrefix
  deriving DecidableEq

def isDigit (b : UInt8) : Bool := 48 ≤ b && b ≤ 57

/-- `/^[^+^%]/` -/
def isPlain (b : UInt8) : Bool := b != 43 && b != 94 && b != 37

/-- The lines that are kept as a response. -/
def ResponseType.keeps (type : ResponseType) (line : List UInt8) : Bool :=
  match type with
  | .numeric => line.head?.any isDigit
  | .noPrefix => line.head?.any isPlain
  | _ => false

/-- The loop over the lines in the buffer: the status of the last of them if it ends the answer. -/
def takeLines (type : ResponseType) (buffer : List UInt8) (response : List (List UInt8)) :
    Option AtStatus × List UInt8 × List (List UInt8) :=
  match _h : matchLine buffer with
  | Option.none => (Option.none, buffer, response)
  | some (line, rest) =>
      if line = [79, 75] then (some .ok, rest, response)
      else if line = [69, 82, 82, 79, 82] then (some .error, rest, response)
      else takeLines type rest (if type.keeps line then response ++ [line] else response)
termination_by buffer.length
decreasing_by exact matchLine_length _h

/-- The loop of `sendAt` that waits for the end of the answer. -/
def readLines (type : ResponseType) (input : Input) (buffer : List UInt8)
    (response : List (List UInt8)) : AtStatus × List (List UInt8) × Input :=
  let chunk := readChunk 4096 input
  let taken := takeLines type (buffer ++ chunk.1) response
  match taken.1 with
  | some status => (status, taken.2.2, chunk.2)
  | Option.none =>
      if input = [] then (.timeout, taken.2.2, [])
      else readLines type chunk.2 taken.2.1 taken.2.2
termination_by input.length + input.flatten.length
decreasing_by
  rename_i hinput
  exact readChunk_smaller (by decide) hinput

/-- What `sendAt` returns; `response` is the first of the `responses`. -/
structure AtResult where
  status : AtStatus
  responses : List (List UInt8)
  deriving DecidableEq

def AtResult.response (result : AtResult) : List UInt8 := result.responses.headD []

/-- `sendAt` behind its `write`, for what the device answers. -/
def sendAt (type : ResponseType) (input : Input) : AtResult × Input :=
  match type with
  | .binary size =>
      let taken := read (2 + size) input []
      if taken.1.take 2 ≠ [cr, lf] ∨ taken.1.length ≠ 2 + size then (⟨.timeout, []⟩, taken.2)
      else
        let lines := readLines .none taken.2 [] [taken.1.drop 2]
        (⟨lines.1, lines.2.1⟩, lines.2.2)
  | _ =>
      let lines := readLines type input [] []
      (⟨lines.1, lines.2.1⟩, lines.2.2)

/-- The end of an answer. -/
def okLine : List UInt8 := [cr, lf, 79, 75, cr, lf]

theorem takeLines_cons {type : ResponseType} {buffer line rest : List UInt8}
    (response : List (List UInt8)) (h : matchLine buffer = some (line, rest)) :
    takeLines type buffer response =
      if line = [79, 75] then (some .ok, rest, response)
      else if line = [69, 82, 82, 79, 82] then (some .error, rest, response)
      else takeLines type rest (if type.keeps line then response ++ [line] else response) := by
  rw [takeLines]
  split
  · next hnone =>
      rw [hnone] at h
      cases h
  · next line' rest' hsome =>
      rw [hsome] at h
      obtain ⟨rfl, rfl⟩ := Prod.mk.inj (Option.some.inj h)
      rfl

theorem takeLines_nil {type : ResponseType} {buffer : List UInt8} (response : List (List UInt8))
    (h : matchLine buffer = Option.none) :
    takeLines type buffer response = (Option.none, buffer, response) := by
  rw [takeLines]
  split
  · rfl
  · next line' rest' hsome =>
      rw [hsome] at h
      cases h

/-- **Lines of an answer in pieces.** What the lines so far have left is put in front of what arrives;
an answer that is at its end stays so. -/
theorem takeLines_append (type : ResponseType) (buffer more : List UInt8)
    (response : List (List UInt8)) :
    takeLines type (buffer ++ more) response =
      let taken := takeLines type buffer response
      if taken.1 = Option.none then takeLines type (taken.2.1 ++ more) taken.2.2
      else (taken.1, taken.2.1 ++ more, taken.2.2) := by
  induction hlength : buffer.length using Nat.strongRecOn generalizing buffer response with
  | ind n ih =>
      cases hline : matchLine buffer with
      | none =>
          rw [takeLines_nil response hline]
          rfl
      | some found =>
          obtain ⟨line, rest⟩ := found
          rw [takeLines_cons response hline, takeLines_cons response (matchLine_append more hline)]
          by_cases hok : line = [79, 75]
          · rw [if_pos hok, if_pos hok]
            rfl
          · rw [if_neg hok, if_neg hok]
            by_cases herror : line = [69, 82, 82, 79, 82]
            · rw [if_pos herror, if_pos herror]
              rfl
            · rw [if_neg herror, if_neg herror]
              exact ih _ (hlength ▸ matchLine_length hline) rest _ rfl

/-- **However an answer arrives, its status and its responses are those of the whole.** -/
theorem readLines_spec {type : ResponseType} {input : Input} {buffer : List UInt8}
    {response response' : List (List UInt8)} {status : AtStatus}
    (hinput : ∀ piece ∈ input, piece ≠ [])
    (h : takeLines type (buffer ++ input.flatten) response = (some status, [], response')) :
    readLines type input buffer response = (status, response', []) := by
  induction hlength : input.length + input.flatten.length using Nat.strongRecOn
    generalizing input buffer response with
  | ind n ih =>
      rw [readLines]
      have hall := takeLines_append type (buffer ++ (readChunk 4096 input).1)
        (readChunk 4096 input).2.flatten response
      rw [List.append_assoc, readChunk_eq, h] at hall
      have hrest := @readChunk_nonempty 4096 input hinput
      cases htaken : (takeLines type (buffer ++ (readChunk 4096 input).1) response).1 with
      | some status' =>
          simp only [htaken, reduceCtorEq, if_false] at hall
          obtain ⟨hstatus, hnil, hresponse⟩ : some status = some status' ∧
            [] = (takeLines type (buffer ++ (readChunk 4096 input).1) response).2.1
              ++ (readChunk 4096 input).2.flatten ∧
            response' = (takeLines type (buffer ++ (readChunk 4096 input).1) response).2.2 := by
            simpa using hall
          obtain ⟨-, hflat⟩ := List.append_eq_nil_iff.mp hnil.symm
          simp only []
          rw [eq_nil_of_flatten hrest hflat, hresponse, Option.some.inj hstatus]
      | none =>
          simp only [htaken, if_true] at hall
          simp only []
          by_cases hnil : input = []
          · -- nothing more arrives, but the answer is at its end
            subst hnil
            exact absurd (htaken.symm.trans (congrArg Prod.fst h)) nofun
          · rw [if_neg hnil]
            exact ih _ (hlength ▸ readChunk_smaller (by decide) hnil) hrest hall.symm rfl

/-- A binary response of `size` bytes behind CR LF, with the end of an answer behind it. -/
def binaryReply (data : List UInt8) : List UInt8 := [cr, lf] ++ data ++ okLine

theorem takeLines_okLine (response : List (List UInt8)) :
    takeLines .none okLine response = (some .ok, [], response) := by
  rw [takeLines_cons response (show matchLine okLine = some ([], [79, 75, cr, lf]) by decide),
    if_neg (by decide), if_neg (by decide), takeLines_cons _
      (show matchLine [79, 75, cr, lf] = some ([79, 75], []) by decide), if_pos rfl]
  rfl

/-- **A binary response is taken as it is**, whatever its bytes and however it arrives. -/
theorem sendAt_binary {input : Input} {data : List UInt8}
    (hinput : ∀ piece ∈ input, piece ≠ []) (hflat : input.flatten = binaryReply data) :
    sendAt (.binary data.length) input = (⟨.ok, [data]⟩, []) := by
  have hwanted : ([cr, lf] ++ data).length = 2 + data.length := by
    rw [List.length_append]
    rfl
  obtain ⟨htaken, hrest, hpieces⟩ := @read_spec (2 + data.length) input [] ([cr, lf] ++ data) okLine
    hflat (by rw [hwanted, List.length_nil, Nat.zero_add]) hinput
  rw [List.nil_append] at htaken
  have hlines := @readLines_spec .none _ [] [data] [data] .ok hpieces
    (by rw [List.nil_append, hrest, takeLines_okLine])
  simp only [sendAt]
  rw [htaken, if_neg (by rw [hwanted]; simp)]
  simp only [List.cons_append, List.nil_append, List.drop_succ_cons, List.drop_zero, hlines]

/-- A device that does not answer. -/
theorem sendAt_silent (size : Nat) : (sendAt (.binary size) []).1.status = .timeout := by
  have hread : read (2 + size) [] [] = ([], []) := by
    rw [read, readChunk]
    simp
  simp only [sendAt, hread]
  rw [if_pos (.inl (by decide))]

end Pmb887x.Sie
