import Mathlib.Data.List.Basic

set_option autoImplicit false

/-! # Streams of records

A `RecordFormat` has an encoder for its records and a decoder for the record in front of a byte string;
some records are final and have nothing behind them. `decodeAll` takes records off a byte string as long
as it can. Its records tile a prefix of the string, and they end with a final one just when the string is
a stream, `IsStream`. -/

namespace Pmb887x.Library

/-- A format of records. -/
structure RecordFormat (ρ : Type) where
  encode : ρ → List UInt8
  valid : ρ → Prop
  final : ρ → Bool
  decode : List UInt8 → Option (ρ × List UInt8)
  encode_ne_nil : ∀ r, encode r ≠ []
  decode_sound : ∀ {bytes rest : List UInt8} {r : ρ}, decode bytes = some (r, rest) →
    bytes = encode r ++ rest ∧ valid r ∧ (final r = true → rest = [])
  decode_encode : ∀ {r : ρ} (rest : List UInt8), valid r → (final r = true → rest = []) →
    decode (encode r ++ rest) = some (r, rest)

namespace RecordFormat

variable {ρ : Type} (F : RecordFormat ρ)

def encodeAll (records : List ρ) : List UInt8 := records.flatMap F.encode

@[simp] theorem encodeAll_nil : F.encodeAll [] = [] := rfl

@[simp] theorem encodeAll_cons (r : ρ) (records : List ρ) :
    F.encodeAll (r :: records) = F.encode r ++ F.encodeAll records := rfl

theorem encodeAll_append (records records' : List ρ) :
    F.encodeAll (records ++ records') = F.encodeAll records ++ F.encodeAll records' :=
  List.flatMap_append

theorem length_encode_pos (r : ρ) : 0 < (F.encode r).length :=
  List.length_pos_iff.mpr (F.encode_ne_nil r)

theorem length_rest_lt {bytes rest : List UInt8} {r : ρ} (h : F.decode bytes = some (r, rest)) :
    rest.length < bytes.length := by
  obtain ⟨rfl, -⟩ := F.decode_sound h
  have hpos := F.length_encode_pos r
  rw [List.length_append]
  exact Nat.lt_add_of_pos_left hpos

/-- Records up to a final one, or as long as there is one, and the bytes behind them. -/
def decodeAll (bytes : List UInt8) : List ρ × List UInt8 :=
  match _h : F.decode bytes with
  | none => ([], bytes)
  | some (r, rest) =>
      if F.final r then ([r], rest)
      else
        let decoded := decodeAll rest
        (r :: decoded.1, decoded.2)
termination_by bytes.length
decreasing_by exact F.length_rest_lt _h

theorem decodeAll_none {bytes : List UInt8} (h : F.decode bytes = none) :
    F.decodeAll bytes = ([], bytes) := by
  rw [decodeAll]
  split
  · rfl
  · next r rest hsome => cases h.symm.trans hsome

theorem decodeAll_final {bytes rest : List UInt8} {r : ρ} (h : F.decode bytes = some (r, rest))
    (hfinal : F.final r = true) : F.decodeAll bytes = ([r], rest) := by
  rw [decodeAll]
  split
  · next hnone => cases h.symm.trans hnone
  · next r' rest' hsome =>
      obtain ⟨rfl, rfl⟩ := Prod.mk.inj (Option.some.inj (h.symm.trans hsome))
      rw [if_pos hfinal]

theorem decodeAll_cons {bytes rest : List UInt8} {r : ρ} (h : F.decode bytes = some (r, rest))
    (hfinal : F.final r = false) :
    F.decodeAll bytes = (r :: (F.decodeAll rest).1, (F.decodeAll rest).2) := by
  rw [decodeAll]
  split
  · next hnone => cases h.symm.trans hnone
  · next r' rest' hsome =>
      obtain ⟨rfl, rfl⟩ := Prod.mk.inj (Option.some.inj (h.symm.trans hsome))
      rw [if_neg (by simp [hfinal])]

/-- The cases of `decodeAll`, for inductions along it. -/
theorem decodeAll_induct {P : List UInt8 → Prop}
    (hnone : ∀ bytes, F.decode bytes = none → P bytes)
    (hfinal : ∀ bytes r rest, F.decode bytes = some (r, rest) → F.final r = true → P bytes)
    (hcons : ∀ bytes r rest, F.decode bytes = some (r, rest) → F.final r = false → P rest →
      P bytes) (bytes : List UInt8) : P bytes := by
  induction hlength : bytes.length using Nat.strongRecOn generalizing bytes with
  | ind n ih =>
      cases h : F.decode bytes with
      | none => exact hnone bytes h
      | some decoded =>
          obtain ⟨r, rest⟩ := decoded
          cases hr : F.final r with
          | true => exact hfinal bytes r rest h hr
          | false =>
              exact hcons bytes r rest h hr
                (ih rest.length (hlength ▸ F.length_rest_lt h) rest rfl)

/-- The records are valid and tile the string up to the bytes behind them. -/
theorem decodeAll_sound (bytes : List UInt8) :
    bytes = F.encodeAll (F.decodeAll bytes).1 ++ (F.decodeAll bytes).2 ∧
      ∀ r ∈ (F.decodeAll bytes).1, F.valid r := by
  induction bytes using F.decodeAll_induct with
  | hnone bytes h => simp [F.decodeAll_none h]
  | hfinal bytes r rest h hr =>
      obtain ⟨hbytes, hvalid, -⟩ := F.decode_sound h
      rw [F.decodeAll_final h hr]
      simpa using ⟨hbytes, hvalid⟩
  | hcons bytes r rest h hr ih =>
      obtain ⟨hbytes, hvalid, -⟩ := F.decode_sound h
      obtain ⟨hrest, hrecords⟩ := ih
      rw [F.decodeAll_cons h hr]
      refine ⟨?_, List.forall_mem_cons.mpr ⟨hvalid, hrecords⟩⟩
      rw [encodeAll_cons, List.append_assoc, ← hrest]
      exact hbytes

/-- Records that are not final, and a final one at the very end. -/
def IsStream (bytes : List UInt8) : Prop :=
  ∃ records r, (∀ r ∈ records, F.valid r ∧ F.final r = false) ∧ F.valid r ∧ F.final r = true ∧
    bytes = F.encodeAll records ++ F.encode r

/-- The records of a stream are decoded. -/
theorem decodeAll_stream {records : List ρ} {r : ρ}
    (hrecords : ∀ r ∈ records, F.valid r ∧ F.final r = false) (hvalid : F.valid r)
    (hfinal : F.final r = true) :
    F.decodeAll (F.encodeAll records ++ F.encode r) = (records ++ [r], []) := by
  induction records with
  | nil =>
      have h := F.decode_encode [] hvalid fun _ => rfl
      rw [List.append_nil] at h
      exact F.decodeAll_final h hfinal
  | cons r' records ih =>
      obtain ⟨⟨hvalid', hmore⟩, hrest⟩ := List.forall_mem_cons.mp hrecords
      have h := F.decode_encode (F.encodeAll records ++ F.encode r) hvalid'
        (fun h => by rw [hmore] at h; cases h)
      rw [encodeAll_cons, List.append_assoc, F.decodeAll_cons h hmore, ih hrest]
      rfl

/-- The records end with a final one just when the string is a stream. -/
theorem decodeAll_final_iff (bytes : List UInt8) :
    (∃ r, (F.decodeAll bytes).1.getLast? = some r ∧ F.final r = true) ↔ F.IsStream bytes := by
  constructor
  · induction bytes using F.decodeAll_induct with
    | hnone bytes h =>
        rintro ⟨r, hlast, -⟩
        rw [F.decodeAll_none h] at hlast
        cases hlast
    | hfinal bytes r rest h hr =>
        intro _
        obtain ⟨hbytes, hvalid, hrest⟩ := F.decode_sound h
        refine ⟨[], r, by simp, hvalid, hr, ?_⟩
        rw [hbytes, hrest hr, List.append_nil]
        rfl
    | hcons bytes r rest h hr ih =>
        rintro ⟨last, hlast, hfinal⟩
        rw [F.decodeAll_cons h hr] at hlast
        have hmore : (F.decodeAll rest).1.getLast? = some last := by
          cases hdecoded : (F.decodeAll rest).1 with
          | nil =>
              rw [hdecoded] at hlast
              obtain rfl : r = last := Option.some.inj hlast
              cases hr.symm.trans hfinal
          | cons r' records => rwa [hdecoded, List.getLast?_cons_cons] at hlast
        obtain ⟨records, r', hrecords, hvalid', hfinal', hrest⟩ := ih ⟨last, hmore, hfinal⟩
        obtain ⟨hbytes, hvalid, -⟩ := F.decode_sound h
        refine ⟨r :: records, r', List.forall_mem_cons.mpr ⟨⟨hvalid, hr⟩, hrecords⟩, hvalid',
          hfinal', ?_⟩
        rw [encodeAll_cons, List.append_assoc, ← hrest]
        exact hbytes
  · rintro ⟨records, r, hrecords, hvalid, hfinal, rfl⟩
    rw [F.decodeAll_stream hrecords hvalid hfinal]
    exact ⟨r, List.getLast?_concat, hfinal⟩

end RecordFormat

end Pmb887x.Library
