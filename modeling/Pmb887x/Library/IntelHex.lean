import Mathlib.Data.Nat.ModEq
import Pmb887x.Library.Hex

set_option autoImplicit false

/-! # Intel HEX files

A record is a line of hexadecimal bytes behind a colon: the number of data bytes, a 16-bit address, a kind,
the data and a byte that makes the sum zero. `load` reads a file and gives the bytes it places, in order; a
record that would run over the end of its 64 KiB segment is refused. What is written record by record is read
back (`loadLine_data`, `loadLine_extended`). -/

namespace Pmb887x.Library.IntelHex

/-! ## Records -/

/-- The byte that brings the sum of all bytes to zero. -/
def checksum (bytes : List UInt8) : UInt8 := UInt8.ofNat (256 - (bytes.map UInt8.toNat).sum % 256)

structure Record where
  address : Nat
  kind : UInt8
  data : List UInt8
  address_lt : address < 2 ^ 16
  length_lt : data.length < 256

/-- The bytes in front of the checksum. -/
def Record.bytes (r : Record) : List UInt8 :=
  UInt8.ofNat r.data.length :: UInt8.ofNat (r.address / 256) :: UInt8.ofNat (r.address % 256) :: r.kind
    :: r.data

def Record.line (r : Record) : List Char := ':' :: hexBytes (r.bytes ++ [checksum r.bytes])

/-- A line with its colon, its length and its sum checked. -/
def parseLine : List Char → Option (Nat × UInt8 × List UInt8)
  | ':' :: digits => do
      let bytes ← bytesOfHex digits
      match bytes with
      | count :: high :: low :: kind :: rest =>
          if rest.length = count.toNat + 1 ∧ (bytes.map UInt8.toNat).sum % 256 = 0 then
            some (high.toNat * 256 + low.toNat, kind, rest.dropLast)
          else none
      | _ => none
  | _ => none

theorem sum_checksum (bytes : List UInt8) :
    ((bytes ++ [checksum bytes]).map UInt8.toNat).sum % 256 = 0 := by
  have hbyte : (checksum bytes).toNat = (256 - (bytes.map UInt8.toNat).sum % 256) % 256 :=
    UInt8.toNat_ofNat'
  rw [List.map_append, List.sum_append, List.map_singleton, List.sum_singleton, hbyte]
  omega

theorem parseLine_line (r : Record) : parseLine r.line = some (r.address, r.kind, r.data) := by
  have hcount : (UInt8.ofNat r.data.length).toNat = r.data.length := by
    rw [UInt8.toNat_ofNat', Nat.mod_eq_of_lt r.length_lt]
  have hhigh : (UInt8.ofNat (r.address / 256)).toNat = r.address / 256 := by
    have hlt := r.address_lt
    rw [UInt8.toNat_ofNat', Nat.mod_eq_of_lt (by omega)]
  have hlow : (UInt8.ofNat (r.address % 256)).toNat = r.address % 256 := by
    rw [UInt8.toNat_ofNat', Nat.mod_eq_of_lt (by omega)]
  have hsum := sum_checksum r.bytes
  rw [Record.line, parseLine, bytesOfHex_hexBytes]
  simp only [Record.bytes, List.cons_append] at hsum ⊢
  simp only [Option.bind_eq_bind, Option.bind_some]
  rw [if_pos ⟨by rw [List.length_append, hcount]; rfl, hsum⟩, hhigh, hlow, Nat.div_add_mod',
    List.dropLast_concat]

/-! ## The loader -/

/-- What a loader has read: the upper address, the bytes placed so far, and whether the file has ended. -/
structure Loaded where
  upper : Nat
  image : List (Nat × UInt8)
  ended : Bool

/-- The bytes of a record at their addresses. -/
def place (start : Nat) (data : List UInt8) : List (Nat × UInt8) := (List.range' start data.length).zip data

def loadLine (s : Loaded) (line : List Char) : Option Loaded := do
  if s.ended then none
  let (address, kind, data) ← parseLine line
  if kind = 0 then
    if address + data.length ≤ 2 ^ 16 then
      some { s with image := s.image ++ place (s.upper * 2 ^ 16 + address) data }
    else none
  else if kind = 1 then
    if data = [] then some { s with ended := true } else none
  else if kind = 4 then
    match data with
    | [high, low] => some { s with upper := high.toNat * 256 + low.toNat }
    | _ => none
  else none

def loadFrom (s : Loaded) (lines : List (List Char)) : Option Loaded := lines.foldlM loadLine s

/-- The bytes a file places; `none` for a file with a bad line. -/
def load (lines : List (List Char)) : Option (List (Nat × UInt8)) :=
  (loadFrom ⟨0, [], false⟩ lines).map Loaded.image

theorem loadFrom_append (s : Loaded) (lines lines' : List (List Char)) :
    loadFrom s (lines ++ lines') = (loadFrom s lines).bind fun s => loadFrom s lines' :=
  List.foldlM_append

theorem place_append (start : Nat) (xs ys : List UInt8) :
    place start (xs ++ ys) = place start xs ++ place (start + xs.length) ys := by
  rw [place, List.length_append, ← List.range'_append_1, List.zip_append (List.length_range' ..)]
  rfl

/-- A data record that stays in its segment. -/
theorem loadLine_data {s : Loaded} (hended : s.ended = false) {r : Record} (hkind : r.kind = 0)
    (hfits : r.address + r.data.length ≤ 2 ^ 16) :
    loadLine s r.line = some { s with image := s.image ++ place (s.upper * 2 ^ 16 + r.address) r.data } := by
  rw [loadLine, hended, parseLine_line]
  simpa [hkind] using hfits

/-- An extended linear address record. -/
theorem loadLine_extended {s : Loaded} (hended : s.ended = false) {r : Record} (hkind : r.kind = 4)
    {upper : Nat} (hupper : upper < 2 ^ 16)
    (hdata : r.data = [UInt8.ofNat (upper / 256), UInt8.ofNat (upper % 256)]) :
    loadLine s r.line = some { s with upper := upper } := by
  have hhigh : (UInt8.ofNat (upper / 256)).toNat = upper / 256 := by
    rw [UInt8.toNat_ofNat', Nat.mod_eq_of_lt (by omega)]
  have hlow : (UInt8.ofNat (upper % 256)).toNat = upper % 256 := by
    rw [UInt8.toNat_ofNat', Nat.mod_eq_of_lt (by omega)]
  rw [loadLine, hended, parseLine_line, hkind, hdata]
  simp [hhigh, hlow, Nat.div_add_mod']

/-- The record at the end of the file. -/
theorem loadLine_end {s : Loaded} (hended : s.ended = false) {r : Record} (hkind : r.kind = 1)
    (hdata : r.data = []) : loadLine s r.line = some { s with ended := true } := by
  rw [loadLine, hended, parseLine_line, hkind, hdata]
  simp

end Pmb887x.Library.IntelHex
