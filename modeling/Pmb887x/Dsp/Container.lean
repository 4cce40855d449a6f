import Pmb887x.Library.Bytes
import Pmb887x.Library.Records
import Mathlib.Tactic

set_option autoImplicit false

/-! # DSP containers

A container is a stream of records: loads into the program or the data space of the DSP, and a branch at
its end (`unit/dsp/dsp-container.h`). `containerFormat` is the format. -/

namespace Pmb887x.Dsp

open Library

/-! ## The format -/

def containerPload : Nat := 0
def containerDload : Nat := 1
def containerBranch : Nat := 2
def addressSpaceWords : Nat := 0x10000

inductive LoadSpace where
  | program
  | data
  deriving DecidableEq

def LoadSpace.command : LoadSpace → Nat
  | .program => containerPload
  | .data => containerDload

inductive ContainerRecord where
  | load (space : LoadSpace) (destination : Nat) (payload : List UInt8)
  | branch (destination : Nat)
  deriving DecidableEq

namespace ContainerRecord

def encode : ContainerRecord → List UInt8
  | .load space destination payload =>
      leBytes 2 space.command ++ leBytes 2 destination ++ leBytes 2 (payload.length / 2) ++ payload
  | .branch destination => leBytes 2 containerBranch ++ leBytes 2 destination

/-- The fields fit their 16 bits, the payload is a number of words, and the words fit the space. -/
def Valid : ContainerRecord → Prop
  | .load _ destination payload =>
      destination < 2 ^ 16 ∧ ∃ words < 2 ^ 16, payload.length = 2 * words ∧
        destination + words ≤ addressSpaceWords
  | .branch destination => destination < 2 ^ 16

def isBranch : ContainerRecord → Bool
  | .load _ _ _ => false
  | .branch _ => true

def loadSpace? (command : Nat) : Option LoadSpace :=
  if command = containerPload then some .program
  else if command = containerDload then some .data
  else none

/-- The record in front of a byte string; a branch has nothing behind it. -/
def decode : List UInt8 → Option (ContainerRecord × List UInt8)
  | c₀ :: c₁ :: d₀ :: d₁ :: rest =>
      let destination := ofLeBytes [d₀, d₁]
      if ofLeBytes [c₀, c₁] = containerBranch then
        if rest = [] then some (.branch destination, []) else none
      else
        match loadSpace? (ofLeBytes [c₀, c₁]), rest with
        | some space, w₀ :: w₁ :: rest =>
            let words := ofLeBytes [w₀, w₁]
            if destination + words ≤ addressSpaceWords ∧ 2 * words ≤ rest.length then
              some (.load space destination (rest.take (2 * words)), rest.drop (2 * words))
            else none
        | _, _ => none
  | _ => none

end ContainerRecord

theorem leBytes_two (n : Nat) : leBytes 2 n = [UInt8.ofNat n, UInt8.ofNat (n / 256)] := rfl

theorem ofLeBytes_two_lt (b₀ b₁ : UInt8) : ofLeBytes [b₀, b₁] < 2 ^ 16 :=
  (ofLeBytes_lt [b₀, b₁]).trans_eq (by norm_num)

/-- Two bytes are the encoding of their value. -/
theorem leBytes_ofLeBytes_two (b₀ b₁ : UInt8) : leBytes 2 (ofLeBytes [b₀, b₁]) = [b₀, b₁] :=
  ofLeBytes_inj (leBytes_length _ _)
    (ofLeBytes_leBytes_of_lt ((ofLeBytes_two_lt b₀ b₁).trans_eq (by norm_num)))

theorem ofLeBytes_pair {n : Nat} (h : n < 2 ^ 16) :
    ofLeBytes [UInt8.ofNat n, UInt8.ofNat (n / 256)] = n :=
  ofLeBytes_leBytes_of_lt (k := 2) (h.trans_eq (by norm_num))

theorem ContainerRecord.loadSpace?_command (space : LoadSpace) :
    loadSpace? space.command = some space := by
  cases space <;> rfl

theorem ContainerRecord.command_of_loadSpace? {command : Nat} {space : LoadSpace}
    (h : loadSpace? command = some space) : space.command = command := by
  unfold loadSpace? at h
  split_ifs at h with hpload hdload
  · cases h; exact hpload.symm
  · cases h; exact hdload.symm

theorem ContainerRecord.decode_sound {bytes rest : List UInt8} {r : ContainerRecord}
    (h : decode bytes = some (r, rest)) :
    bytes = r.encode ++ rest ∧ r.Valid ∧ (r.isBranch = true → rest = []) := by
  unfold decode at h
  split at h
  · next c₀ c₁ d₀ d₁ tail =>
      dsimp only at h
      split_ifs at h with hbranch hend
      · obtain ⟨rfl, rfl⟩ := Prod.mk.inj (Option.some.inj h)
        refine ⟨?_, ofLeBytes_two_lt d₀ d₁, fun _ => rfl⟩
        rw [encode, ← hbranch, leBytes_ofLeBytes_two, leBytes_ofLeBytes_two, hend]
        rfl
      · split at h
        · next space w₀ w₁ payload hspace =>
            split_ifs at h with hfits
            obtain ⟨rfl, rfl⟩ := Prod.mk.inj (Option.some.inj h)
            have hlength : (payload.take (2 * ofLeBytes [w₀, w₁])).length
                = 2 * ofLeBytes [w₀, w₁] := List.length_take_of_le hfits.2
            refine ⟨?_, ⟨ofLeBytes_two_lt d₀ d₁, _, ofLeBytes_two_lt w₀ w₁, hlength, hfits.1⟩,
              fun h => by cases h⟩
            rw [encode, command_of_loadSpace? hspace, hlength,
              Nat.mul_div_cancel_left _ (Nat.succ_pos 1), leBytes_ofLeBytes_two,
              leBytes_ofLeBytes_two, leBytes_ofLeBytes_two, List.append_assoc,
              List.take_append_drop]
            rfl
        · cases h
  · cases h

theorem ContainerRecord.decode_encode {r : ContainerRecord} (rest : List UInt8) (hvalid : r.Valid)
    (hend : r.isBranch = true → rest = []) : decode (r.encode ++ rest) = some (r, rest) := by
  cases r with
  | branch destination =>
      obtain rfl : rest = [] := hend rfl
      have hcommand : ofLeBytes [UInt8.ofNat containerBranch, UInt8.ofNat (containerBranch / 256)]
          = containerBranch := by decide
      rw [encode, leBytes_two, leBytes_two]
      simp only [List.cons_append, List.nil_append, decode, hcommand, ofLeBytes_pair hvalid,
        if_true]
  | load space destination payload =>
      obtain ⟨hdestination, words, hwords, hlength, hfits⟩ := hvalid
      have hcommand : space.command < 2 ^ 16 := by cases space <;> decide
      have hload : space.command ≠ containerBranch := by cases space <;> decide
      have hhalf : payload.length / 2 = words := by
        rw [hlength, Nat.mul_div_cancel_left _ (Nat.succ_pos 1)]
      have hroom : 2 * words ≤ (payload ++ rest).length := by
        rw [List.length_append, hlength]
        exact Nat.le_add_right _ _
      rw [encode, hhalf, leBytes_two, leBytes_two, leBytes_two]
      simp only [List.cons_append, List.nil_append, decode, ofLeBytes_pair hcommand,
        ofLeBytes_pair hdestination, ofLeBytes_pair hwords, loadSpace?_command]
      rw [if_neg hload, if_pos ⟨hfits, hroom⟩, ← hlength, List.take_left, List.drop_left]

/-- The format of containers. -/
def containerFormat : RecordFormat ContainerRecord where
  encode := ContainerRecord.encode
  valid := ContainerRecord.Valid
  final := ContainerRecord.isBranch
  decode := ContainerRecord.decode
  encode_ne_nil := fun r => by cases r <;> simp [ContainerRecord.encode, leBytes_two]
  decode_sound := ContainerRecord.decode_sound
  decode_encode := ContainerRecord.decode_encode

end Pmb887x.Dsp
