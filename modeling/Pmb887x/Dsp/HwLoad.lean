import Pmb887x.Dsp.ContainerReader

set_option autoImplicit false

/-! # Loading a container through the boot pipe (`unit/dsp/dsp-hw.c`)

`dsp_hw_load` takes one record after the other off a container, stages its payload, copies it into the
shared memory and hands it to the mask ROM of the DSP. Whether a handshake succeeds is up to the DSP:
`ready n` is the outcome of the handshake number `n`. -/

namespace Pmb887x.Dsp

open Library

/-! ## The boot pipe -/

def bootBranch : UInt16 := 2
def bootDataOffset : Nat := 2
def hwBootTransferWords : Nat := 509

/-- A command of the boot pipe. -/
structure BootCommand where
  command : UInt16
  destination : UInt16
  values : List UInt16
  deriving DecidableEq

/-- `dsp_hw_shared_memory`, and the commands submitted so far. -/
structure BootPipe where
  shared : Nat → UInt16
  issued : List BootCommand

/-- What the mask ROM finds in the shared memory. -/
def bootCommand (shared : Nat → UInt16) : BootCommand where
  command := shared bootDataOffset
  destination := shared (bootDataOffset + 1)
  values :=
    if shared bootDataOffset = bootBranch then []
    else (List.range (shared (bootDataOffset + 2)).toNat).map fun i => shared (bootDataOffset + 3 + i)

/-- `boot_data[i] = value` -/
def BootPipe.store (pipe : BootPipe) (i : Nat) (value : UInt16) : BootPipe :=
  { pipe with shared := Function.update pipe.shared (bootDataOffset + i) value }

theorem BootPipe.store_self (pipe : BootPipe) (i : Nat) (value : UInt16) :
    (pipe.store i value).shared (bootDataOffset + i) = value := Function.update_self _ _ _

theorem BootPipe.store_of_ne (pipe : BootPipe) {i k : Nat} (value : UInt16)
    (h : k ≠ bootDataOffset + i) : (pipe.store i value).shared k = pipe.shared k :=
  Function.update_of_ne h _ _

def submitBootCommand (ready : Nat → Bool) (pipe : BootPipe) : BootPipe × Bool :=
  ({ pipe with issued := pipe.issued ++ [bootCommand pipe.shared] }, ready pipe.issued.length)

/-- The copy loop of `load_words`. -/
def copyWords (values : Nat → UInt16) (words i : Nat) (pipe : BootPipe) : BootPipe :=
  if i < words then copyWords values words (i + 1) (pipe.store (3 + i) (values i)) else pipe
termination_by words - i

def loadWords (ready : Nat → Bool) (command destination : Nat) (values : Nat → UInt16) (words : Nat)
    (pipe : BootPipe) : BootPipe × Bool :=
  let pipe := pipe.store 0 (UInt16.ofNat command)
  let pipe := pipe.store 1 (UInt16.ofNat destination)
  let pipe := pipe.store 2 (UInt16.ofNat words)
  submitBootCommand ready (copyWords values words 0 pipe)

def dspHwBranch (ready : Nat → Bool) (destination : Nat) (pipe : BootPipe) : BootPipe × Bool :=
  submitBootCommand ready ((pipe.store 0 bootBranch).store 1 (UInt16.ofNat destination))

/-! ## `dsp_hw_load` -/

/-- The payload loop: `payload[i] = dsp_container_read_u16(record.data + i * sizeof(uint16_t))`. -/
def readPayload (data : List UInt8) (position words i : Nat) (payload : Nat → UInt16) :
    Checked (Nat → UInt16) :=
  if i < words then do
    let value ← dspContainerReadU16 data (position + i * 2)
    if i < hwBootTransferWords then
      readPayload data position words (i + 1) (Function.update payload i (UInt16.ofNat value))
    else .error (.write i)
  else .ok payload
termination_by words - i

/-- The loop of `dsp_hw_load`: the result and the pipe, `none` when `fuel` calls of the reader do not end
it. -/
def dspHwLoadLoop (executeBranch : Bool) (ready : Nat → Bool) :
    Nat → DspContainerReader → (Nat → UInt16) → BootPipe → Checked (Option (Bool × BootPipe))
  | 0, _, _, _ => .ok none
  | fuel + 1, reader, payload, pipe => do
      match ← dspContainerNext reader with
      | none => .ok (some (false, pipe))
      | some (reader', record) =>
          if record.command = containerBranch then
            if executeBranch then
              let branched := dspHwBranch ready record.destination pipe
              .ok (some (branched.2, branched.1))
            else .ok (some (true, pipe))
          else if record.words > hwBootTransferWords then .ok (some (false, pipe))
          else do
            let payload ← readPayload reader.data (record.data.getD 0) record.words 0 payload
            let loaded := loadWords ready record.command record.destination payload record.words pipe
            if loaded.2 then dspHwLoadLoop executeBranch ready fuel reader' payload loaded.1
            else .ok (some (false, loaded.1))

/-- `stack` is what is in `payload` before the first record. -/
def dspHwLoad (image : List UInt8) (executeBranch : Bool) (ready : Nat → Bool)
    (stack : Nat → UInt16) (pipe : BootPipe) : Checked (Option (Bool × BootPipe)) :=
  dspHwLoadLoop executeBranch ready (image.length + 1) (dspContainerReaderInit image) stack pipe

/-! ## The commands of the records -/

/-- The 16-bit words of a payload. -/
def wordsOf : List UInt8 → List UInt16
  | b₀ :: b₁ :: rest => UInt16.ofNat (ofLeBytes [b₀, b₁]) :: wordsOf rest
  | _ => []

def ContainerRecord.bootCommand : ContainerRecord → BootCommand
  | .load space destination payload =>
      { command := UInt16.ofNat space.command, destination := UInt16.ofNat destination
        values := wordsOf payload }
  | .branch destination =>
      { command := bootBranch, destination := UInt16.ofNat destination, values := [] }

/-- The commands for the records, the first with the handshake number `n`, and the result. -/
def bootCommands (executeBranch : Bool) (ready : Nat → Bool) :
    Nat → List ContainerRecord → List BootCommand × Bool
  | _, [] => ([], false)
  | n, .branch destination :: _ =>
      if executeBranch then ([(ContainerRecord.branch destination).bootCommand], ready n)
      else ([], true)
  | n, .load space destination payload :: records =>
      if payload.length / 2 > hwBootTransferWords then ([], false)
      else if ready n then
        let rest := bootCommands executeBranch ready (n + 1) records
        ((ContainerRecord.load space destination payload).bootCommand :: rest.1, rest.2)
      else ([(ContainerRecord.load space destination payload).bootCommand], false)

theorem length_wordsOf {payload : List UInt8} {words : Nat} (h : payload.length = 2 * words) :
    (wordsOf payload).length = words := by
  induction words generalizing payload with
  | zero => rw [List.length_eq_zero_iff.mp h]; rfl
  | succ words ih =>
      obtain _ | ⟨b₀, _ | ⟨b₁, rest⟩⟩ := payload
      · simp at h
      · simp at h
        omega
      · rw [wordsOf, List.length_cons, ih (by simp at h; omega)]

theorem wordsOf_getElem {payload : List UInt8} {i : Nat} {b₀ b₁ : UInt8} {rest : List UInt8}
    (h : payload.drop (2 * i) = b₀ :: b₁ :: rest) :
    (wordsOf payload)[i]? = some (UInt16.ofNat (ofLeBytes [b₀, b₁])) := by
  induction i generalizing payload with
  | zero =>
      rw [Nat.mul_zero, List.drop_zero] at h
      rw [h, wordsOf, List.getElem?_cons_zero]
  | succ i ih =>
      obtain _ | ⟨c₀, _ | ⟨c₁, payload⟩⟩ := payload
      · simp at h
      · simp [Nat.mul_succ] at h
      · rw [wordsOf, List.getElem?_cons_succ]
        exact ih h

/-! ## What is staged is what is issued -/

/-- The payload loop stages the words of the payload. -/
theorem readPayload_eq {data payload rest : List UInt8} {position words : Nat}
    (hdata : data.drop position = payload ++ rest) (hlength : payload.length = 2 * words)
    (hsmall : words ≤ hwBootTransferWords) (i : Nat) (staged : Nat → UInt16)
    (hstaged : ∀ j < i, (wordsOf payload)[j]? = some (staged j)) (hle : i ≤ words) :
    ∃ staged', readPayload data position words i staged = .ok staged' ∧
      ∀ j < words, (wordsOf payload)[j]? = some (staged' j) := by
  fun_induction readPayload data position words i staged with
  | case1 i staged hlt ih =>
      obtain ⟨b₀, b₁, tail, htail⟩ : ∃ b₀ b₁ tail, payload.drop (2 * i) = b₀ :: b₁ :: tail := by
        have hlong : 2 ≤ (payload.drop (2 * i)).length := by
          rw [List.length_drop]
          omega
        generalize payload.drop (2 * i) = tail at hlong
        obtain _ | ⟨b₀, _ | ⟨b₁, tail⟩⟩ := tail
        · cases hlong
        · exact absurd hlong (Nat.not_succ_le_self 1)
        · exact ⟨b₀, b₁, tail, rfl⟩
      have hread : data.drop (position + i * 2) = b₀ :: b₁ :: (tail ++ rest) := by
        rw [← List.drop_drop, hdata, Nat.mul_comm, List.drop_append_of_le_length (by omega), htail]
        rfl
      rw [dspContainerReadU16_of_drop hread, Checked.ok_bind, if_pos (by omega)]
      refine ih _ (fun j hj => ?_) (by omega)
      rcases Nat.lt_succ_iff_lt_or_eq.mp hj with hlow | rfl
      · rw [Function.update_of_ne (Nat.ne_of_lt hlow)]
        exact hstaged j hlow
      · rw [Function.update_self]
        exact wordsOf_getElem htail
  | case2 i staged hge =>
      exact ⟨staged, rfl, fun j hj => hstaged j (by omega)⟩

/-- The copy loop leaves the words behind the three of the header. -/
theorem copyWords_eq (values : Nat → UInt16) (words i : Nat) (pipe : BootPipe) :
    (copyWords values words i pipe).issued = pipe.issued ∧
      (∀ j, i ≤ j → j < words →
        (copyWords values words i pipe).shared (bootDataOffset + (3 + j)) = values j) ∧
      ∀ k, k < bootDataOffset + (3 + i) →
        (copyWords values words i pipe).shared k = pipe.shared k := by
  fun_induction copyWords values words i pipe with
  | case1 i pipe hlt ih =>
      obtain ⟨hissued, hcopied, hkept⟩ := ih
      refine ⟨hissued, fun j hij hj => ?_, fun k hk => ?_⟩
      · rcases Nat.eq_or_lt_of_le hij with rfl | hless
        · rw [hkept _ (by omega), BootPipe.store_self]
        · exact hcopied j hless hj
      · rw [hkept k (by omega), BootPipe.store_of_ne _ _ (by omega)]
  | case2 i pipe hge =>
      exact ⟨rfl, fun j hij hj => absurd hj (by omega), fun k _ => rfl⟩

/-- **A record is issued as it stands in the container.** -/
theorem loadWords_eq {space : LoadSpace} {destination words : Nat} {payload : List UInt8}
    (hlength : payload.length = 2 * words) (hsmall : words ≤ hwBootTransferWords)
    {values : Nat → UInt16} (hvalues : ∀ j < words, (wordsOf payload)[j]? = some (values j))
    (ready : Nat → Bool) (pipe : BootPipe) :
    (loadWords ready space.command destination values words pipe).1.issued
        = pipe.issued ++ [(ContainerRecord.load space destination payload).bootCommand] ∧
      (loadWords ready space.command destination values words pipe).2 = ready pipe.issued.length := by
  unfold loadWords submitBootCommand
  dsimp only
  generalize hfilled : ((pipe.store 0 (UInt16.ofNat space.command)).store 1
    (UInt16.ofNat destination)).store 2 (UInt16.ofNat words) = filled
  obtain ⟨hissued, hcopied, hkept⟩ := copyWords_eq values words 0 filled
  have hsame : filled.issued = pipe.issued := by
    rw [← hfilled]
    rfl
  have hwords : (UInt16.ofNat words).toNat = words :=
    UInt16.toNat_ofNat_of_lt' (hsmall.trans_lt (by decide))
  have hheader : (copyWords values words 0 filled).shared bootDataOffset = UInt16.ofNat space.command ∧
      (copyWords values words 0 filled).shared (bootDataOffset + 1) = UInt16.ofNat destination ∧
      (copyWords values words 0 filled).shared (bootDataOffset + 2) = UInt16.ofNat words := by
    refine ⟨?_, ?_, ?_⟩
    · rw [hkept _ (by decide), ← hfilled]
      rfl
    · rw [hkept _ (by decide), ← hfilled]
      rfl
    · rw [hkept _ (by decide), ← hfilled]
      rfl
  have hload : UInt16.ofNat space.command ≠ bootBranch := by cases space <;> decide
  refine ⟨?_, by rw [hissued, hsame]⟩
  rw [hissued, hsame, bootCommand, hheader.1, hheader.2.1, hheader.2.2, if_neg hload, hwords]
  simp only [ContainerRecord.bootCommand]
  congr 3
  refine List.ext_getElem? fun j => ?_
  rw [List.getElem?_map]
  rcases Nat.lt_or_ge j words with hj | hj
  · rw [List.getElem?_range hj, hvalues j hj, Option.map_some]
    rw [Nat.add_assoc]
    exact congrArg some (hcopied j (Nat.zero_le _) hj)
  · rw [List.getElem?_eq_none (by simpa using hj), Option.map_none,
      List.getElem?_eq_none (by rwa [length_wordsOf hlength])]

/-! ## The whole load -/

/-- The loop from any place of the container on. -/
theorem dspHwLoadLoop_eq {reader : DspContainerReader} (h : reader.Sound) (executeBranch : Bool)
    (ready : Nat → Bool) {fuel : Nat} (hfuel : reader.rest.length < fuel) (staged : Nat → UInt16)
    (pipe : BootPipe) :
    ∃ shared, dspHwLoadLoop executeBranch ready fuel reader staged pipe = .ok (some
      ((bootCommands executeBranch ready pipe.issued.length (containerFormat.decodeAll reader.rest).1).2,
        { shared, issued := pipe.issued ++ (bootCommands executeBranch ready pipe.issued.length
            (containerFormat.decodeAll reader.rest).1).1 })) := by
  induction fuel generalizing reader staged pipe with
  | zero => exact absurd hfuel (Nat.not_lt_zero _)
  | succ fuel ih =>
      rw [dspHwLoadLoop, dspContainerNext_eq h, Checked.ok_bind]
      cases hdecode : ContainerRecord.decode reader.rest with
      | none =>
          rw [containerFormat.decodeAll_none hdecode]
          refine ⟨pipe.shared, ?_⟩
          rw [bootCommands, List.append_nil]
          rfl
      | some decoded =>
          obtain ⟨r, rest⟩ := decoded
          obtain ⟨hbytes, hvalid, -⟩ := ContainerRecord.decode_sound hdecode
          obtain ⟨hsound, hrest⟩ := h.behind hdecode
          have hless : rest.length < reader.rest.length := containerFormat.length_rest_lt hdecode
          cases r with
          | branch destination =>
              rw [containerFormat.decodeAll_final hdecode rfl]
              simp only [Option.map_some, ContainerRecord.at, if_true, bootCommands]
              cases executeBranch with
              | true => exact ⟨_, rfl⟩
              | false =>
                  refine ⟨pipe.shared, ?_⟩
                  simp only [Bool.false_eq_true, if_false, List.append_nil]
          | load space destination payload =>
              obtain ⟨-, words, -, hlength, -⟩ := hvalid
              have hhalf : payload.length / 2 = words := by
                rw [hlength, Nat.mul_div_cancel_left _ (Nat.succ_pos 1)]
              have hcommand : space.command ≠ containerBranch := by cases space <;> decide
              have hposition : reader.data.drop (reader.offset + 6) = payload ++ rest := by
                rw [← List.drop_drop, show reader.data.drop reader.offset = _ from hbytes,
                  ContainerRecord.encode, leBytes_two, leBytes_two, leBytes_two]
                rfl
              rw [containerFormat.decodeAll_cons hdecode rfl]
              simp only [Option.map_some, ContainerRecord.at, if_neg hcommand, hhalf, bootCommands]
              by_cases hsmall : words > hwBootTransferWords
              · rw [if_pos hsmall, if_pos hsmall]
                exact ⟨pipe.shared, by rw [List.append_nil]⟩
              · obtain ⟨staged', hread, hvalues⟩ := readPayload_eq hposition hlength
                  (Nat.le_of_not_lt hsmall) 0 staged (fun j hj => absurd hj (Nat.not_lt_zero _))
                  (Nat.zero_le _)
                obtain ⟨hissued, hready⟩ := @loadWords_eq space destination words payload
                  hlength (Nat.le_of_not_lt hsmall) staged' hvalues ready pipe
                rw [if_neg hsmall, if_neg hsmall, Option.getD_some, hread, Checked.ok_bind, hready]
                generalize hloaded : (loadWords ready space.command destination staged' words pipe).1
                  = loaded at hissued
                obtain ⟨shared, issued⟩ := loaded
                subst hissued
                by_cases hok : ready pipe.issued.length = true
                · rw [if_pos hok, if_pos hok]
                  obtain ⟨shared', hloop⟩ := ih hsound (by rw [hrest]; omega) staged' ⟨shared, _⟩
                  rw [hrest] at hloop
                  refine ⟨shared', ?_⟩
                  rw [hloop]
                  simp only [List.length_append, List.length_singleton, List.append_assoc,
                    List.singleton_append]
                · rw [if_neg hok, if_neg hok]
                  exact ⟨shared, rfl⟩

/-- **`dsp_hw_load` issues the commands of the records.** -/
theorem dspHwLoad_eq (image : List UInt8) (executeBranch : Bool) (ready : Nat → Bool)
    (stack shared : Nat → UInt16) :
    ∃ shared', dspHwLoad image executeBranch ready stack ⟨shared, []⟩ = .ok (some
      ((bootCommands executeBranch ready 0 (containerFormat.decodeAll image).1).2,
        ⟨shared', (bootCommands executeBranch ready 0 (containerFormat.decodeAll image).1).1⟩)) :=
  dspHwLoadLoop_eq (sound_init image) executeBranch ready (Nat.lt_succ_self _) stack ⟨shared, []⟩

end Pmb887x.Dsp
