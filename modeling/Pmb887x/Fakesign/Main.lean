import Pmb887x.Library.Slices
import Pmb887x.Library.Words
import Pmb887x.Fakesign.Signature

set_option autoImplicit false

/-! # Signing a payload for the boot ROM (`fakesign.py`)

The header of a payload says where its metadata, the Montgomery constant and the signature are. The
program puts a modulus of its own behind the metadata, forges a signature for the two, computes the
constant, and forges a signature for all that is in front of the signature. SHA-1 is a parameter. -/

namespace Pmb887x.Fakesign

open Library

/-! ## The program -/

/-- `u32`: a little-endian word of the header. -/
def u32 (bin : List UInt8) (offset : Nat) : Nat := ofLeBytes (window bin offset 4)

/-- `PAYLOAD_MODULUS` -/
def payloadModulus : List UInt8 :=
  List.replicate 8 0x23 ++ [0x61, 0x6c, 0x75, 0x6c, 0x61] ++ List.replicate 242 0x23 ++ [0xff]

/-- The first value of a byte that makes the hash odd, at the first offset where there is one; no
value where the function raises an exception. -/
def makeHashOdd (hashInput : List UInt8 → Digest) : List Nat → List UInt8 → Option (List UInt8)
  | [], _ => none
  | off :: offsets, block =>
      match (List.range 256).find? fun i => (hashInput (block.set off (UInt8.ofNat i))).isOdd with
      | some i => some (block.set off (UInt8.ofNat i))
      | none => makeHashOdd hashInput offsets block

/-- How `main` ends. -/
inductive Outcome where
  | rejected (message : String)
  | raised
  | written (payload : List UInt8)

/-- The checks of `main`, with the message of the first that fails. -/
def sanityChecks (payload : List UInt8) : Option String :=
  let signedSize := u32 payload 0x10
  let metadataOff := u32 payload 0x14
  let signatureOffset := u32 payload 0x28
  if window payload 0x3C 4 ≠ [0x43, 0x4A, 0x4B, 0x54] then some "[!] no CJKT!"
  else if window payload 0x4 4 ≠ [0x6C, 0x69, 0x48, 0x55] then
    some "[!] no liHU! is it not a secure boot payload?"
  else if signatureOffset + 0x100 ≠ signedSize then
    some "[!] sanity check failed: sig_off + 0x100 != secure_signed"
  else if (metadataOff : Int) > signedSize - 0x118 then
    some "[!] sanity check failed: metadata oob"
  else none

/-- `metadata` before its hash is made odd. -/
def metadataBlock (payload : List UInt8) : List UInt8 :=
  window payload (u32 payload 0x14) 0x18 ++ payloadModulus

/-- The constant for the modulus in a metadata block. -/
def r2Bytes (metadata : List UInt8) : List UInt8 :=
  leBytes 256 (2 ^ 4096 % ofLeBytes (window metadata 0x18 0x100))

/-- `new_payload` with the metadata, its signature and the constant. -/
def patchPayload (payload metadata metaSignature : List UInt8) : List UInt8 :=
  let metadataOff := u32 payload 0x14
  let new := assignSlice payload metadataOff 0x118 metadata
  let new := assignSlice new (metadataOff + 0x118) 0x100 metaSignature
  assignSlice new (u32 payload 0x20) 0x100 (r2Bytes metadata)

/-- `main` behind its checks; no value where an exception is raised. -/
def resign (sha1 : List UInt8 → Digest) (payload : List UInt8) : Option (List UInt8) := do
  let signatureOffset := u32 payload 0x28
  let metadata ← makeHashOdd sha1 [0, 1, 2, 3] (metadataBlock payload)
  let metaSignature ← forgeSignature (sha1 metadata)
  let new := patchPayload payload metadata metaSignature
  let new ← makeHashOdd (fun block => sha1 (block.take signatureOffset))
    [0x24, 0x25, 0x26, 0x27, 0x2C, 0x2D, 0x2E, 0x2F] new
  let signature ← forgeSignature (sha1 (new.take signatureOffset))
  return assignSlice new signatureOffset 0x100 signature

def main (sha1 : List UInt8 → Digest) (payload : List UInt8) : Outcome :=
  match sanityChecks payload with
  | some message => .rejected message
  | none =>
      match resign sha1 payload with
      | none => .raised
      | some new => .written new

/-- What the boot ROM finds in a payload that is signed: the two signatures, the constant for the
modulus of the metadata, and the offsets as they were. -/
structure Resigned (sha1 : List UInt8 → Digest) (payload new : List UInt8) : Prop where
  length_eq : new.length = payload.length
  metadata : lowCube (window new (u32 payload 0x14 + 0x118) 0x100)
    = (sha1 (window new (u32 payload 0x14) 0x118)).toInt
  signed : lowCube (window new (u32 payload 0x28) 0x100)
    = (sha1 (new.take (u32 payload 0x28))).toInt
  r2 : window new (u32 payload 0x20) 0x100
    = leBytes 256 (2 ^ 4096 % ofLeBytes (window new (u32 payload 0x14 + 0x18) 0x100))
  fields : ∀ offset ∈ [0x10, 0x14, 0x20, 0x28], u32 new offset = u32 payload offset

/-! ## The parity search -/

variable {sha1 hashInput : List UInt8 → Digest} {payload new : List UInt8}

/-- The search changes one of the bytes at the offsets, and makes the hash odd. -/
theorem makeHashOdd_spec {offsets : List Nat} {block block' : List UInt8}
    (h : makeHashOdd hashInput offsets block = some block') :
    (∃ offset ∈ offsets, ∃ value, block' = block.set offset value) ∧
      (hashInput block').isOdd = true := by
  induction offsets with
  | nil => cases h
  | cons off offsets ih =>
      rw [makeHashOdd] at h
      cases hfind : (List.range 256).find? fun i =>
          (hashInput (block.set off (UInt8.ofNat i))).isOdd with
      | some i =>
          rw [hfind] at h
          obtain rfl := Option.some.inj h
          have hodd := List.find?_some hfind
          exact ⟨⟨off, List.mem_cons_self, _, rfl⟩, hodd⟩
      | none =>
          rw [hfind] at h
          obtain ⟨⟨offset, hmem, hset⟩, hodd⟩ := ih h
          exact ⟨⟨offset, List.mem_cons_of_mem _ hmem, hset⟩, hodd⟩

/-- A hash that is always odd is so for the first value of the first byte. -/
theorem makeHashOdd_of_odd {off : Nat} {offsets : List Nat} {block : List UInt8}
    (h : ∀ bytes, (hashInput bytes).isOdd = true) :
    makeHashOdd hashInput (off :: offsets) block = some (block.set off 0) := by
  have hfind : ((List.range 256).find? fun i =>
      (hashInput (block.set off (UInt8.ofNat i))).isOdd) = some 0 := by
    rw [List.range_succ_eq_map, List.find?_cons, h]
  rw [makeHashOdd, hfind]
  rfl

/-! ## What a run writes -/

/-- `metadata_off`, `r2_off` and `signature_offset` with their regions inside the file. -/
structure InFile (payload : List UInt8) : Prop where
  metadata : u32 payload 0x14 + 0x218 ≤ payload.length
  r2 : u32 payload 0x20 + 0x100 ≤ payload.length
  signature : u32 payload 0x28 + 0x100 ≤ payload.length

/-- The parts of a run of `main` that comes to its end. -/
theorem resign_cases (h : resign sha1 payload = some new) :
    ∃ metadata s block t,
      makeHashOdd sha1 [0, 1, 2, 3] (metadataBlock payload) = some metadata ∧
      s < 2 ^ 160 ∧ s ^ 3 % 2 ^ 160 = (sha1 metadata).toInt ∧
      makeHashOdd (fun block => sha1 (block.take (u32 payload 0x28)))
        [0x24, 0x25, 0x26, 0x27, 0x2C, 0x2D, 0x2E, 0x2F]
        (patchPayload payload metadata (leBytes 256 s)) = some block ∧
      t < 2 ^ 160 ∧ t ^ 3 % 2 ^ 160 = (sha1 (block.take (u32 payload 0x28))).toInt ∧
      new = assignSlice block (u32 payload 0x28) 0x100 (leBytes 256 t) := by
  simp only [resign, Option.bind_eq_bind, Option.bind_eq_some_iff] at h
  obtain ⟨metadata, hmetadata, signature, hsignature, block, hblock, last, hlast, hnew⟩ := h
  obtain ⟨s, hs, hforge, hcube⟩ := forgeSignature_spec (makeHashOdd_spec hmetadata).2
  obtain ⟨t, ht, hforge', hcube'⟩ := forgeSignature_spec (makeHashOdd_spec hblock).2
  obtain rfl := Option.some.inj (hforge.symm.trans hsignature)
  obtain rfl := Option.some.inj (hforge'.symm.trans hlast)
  exact ⟨metadata, s, block, t, hmetadata, hs, hcube, hblock, ht, hcube',
    (Option.some.inj hnew).symm⟩

theorem payloadModulus_length : payloadModulus.length = 256 := by
  simp only [payloadModulus, List.length_append, List.length_replicate, List.length_cons,
    List.length_nil]

theorem metadataBlock_length (h : InFile payload) : (metadataBlock payload).length = 0x118 := by
  have hfits := h.metadata
  rw [metadataBlock, List.length_append, length_window (by omega), payloadModulus_length]

theorem r2Bytes_length (metadata : List UInt8) : (r2Bytes metadata).length = 0x100 :=
  leBytes_length _ _

theorem patchPayload_length {metadata metaSignature : List UInt8} (h : InFile payload)
    (hmetadata : metadata.length = 0x118) (hsignature : metaSignature.length = 0x100) :
    (patchPayload payload metadata metaSignature).length = payload.length := by
  have h1 := h.metadata
  have h2 := h.r2
  simp only [patchPayload, length_assignSlice, r2Bytes_length, hmetadata, hsignature]
  omega

/-- The bytes of a patched payload: what was written last is in front. -/
theorem getElem?_patchPayload {metadata metaSignature : List UInt8} (h : InFile payload)
    (hmetadata : metadata.length = 0x118) (hsignature : metaSignature.length = 0x100) (i : Nat) :
    (patchPayload payload metadata metaSignature)[i]?
      = if u32 payload 0x20 ≤ i ∧ i < u32 payload 0x20 + 0x100 then
          (r2Bytes metadata)[i - u32 payload 0x20]?
        else if u32 payload 0x14 + 0x118 ≤ i ∧ i < u32 payload 0x14 + 0x118 + 0x100 then
          metaSignature[i - (u32 payload 0x14 + 0x118)]?
        else if u32 payload 0x14 ≤ i ∧ i < u32 payload 0x14 + 0x118 then
          metadata[i - u32 payload 0x14]?
        else payload[i]? := by
  have h1 := h.metadata
  have h2 := h.r2
  have hfirst := length_assignSlice_of_le hmetadata
    (show u32 payload 0x14 + 0x118 ≤ payload.length by omega)
  have hsecond : (assignSlice (assignSlice payload (u32 payload 0x14) 0x118 metadata)
      (u32 payload 0x14 + 0x118) 0x100 metaSignature).length = payload.length := by
    rw [length_assignSlice_of_le hsignature (by omega), hfirst]
  rw [patchPayload, getElem?_assignSlice (r2Bytes_length _) (by omega),
    getElem?_assignSlice hsignature (by omega), getElem?_assignSlice hmetadata (by omega)]

/-- The low 160 bits of a number are its low 20 bytes. -/
theorem ofLeBytes_low {xs : List UInt8} (h : 20 ≤ xs.length) :
    ofLeBytes xs % 2 ^ 160 = ofLeBytes (window xs 0 20) := by
  have htake : window xs 0 20 = xs.take 20 := by rw [window, List.drop_zero]
  have hlength : (xs.take 20).length = 20 := List.length_take_of_le h
  have happend := ofLeBytes_append (xs.take 20) (xs.drop 20)
  have hlt := ofLeBytes_lt (xs.take 20)
  rw [hlength, show (256 : Nat) ^ 20 = 2 ^ 160 by decide] at hlt
  rw [List.take_append_drop, hlength, show (256 : Nat) ^ 20 = 2 ^ 160 by decide] at happend
  rw [htake, happend, Nat.add_mul_mod_self_left, Nat.mod_eq_of_lt hlt]

/-- The bytes the ROM uses of a signature: the lowest 20. -/
theorem lowCube_congr {xs ys : List UInt8} (h : window xs 0 20 = window ys 0 20)
    (hx : 20 ≤ xs.length) (hy : 20 ≤ ys.length) : lowCube xs = lowCube ys := by
  rw [lowCube, lowCube, Nat.pow_mod, ofLeBytes_low hx, h, ← ofLeBytes_low hy, ← Nat.pow_mod]

/-- Where the regions may lie: inside the file, behind the header, the constant apart from the
metadata and the signature, and the signature apart from the metadata. Of the signature of the
metadata only the 20 bytes count that the ROM uses. -/
structure LayoutOk (payload : List UInt8) : Prop where
  inFile : InFile payload
  metadata_ge : 0x30 ≤ u32 payload 0x14
  r2_ge : 0x30 ≤ u32 payload 0x20
  signature : u32 payload 0x14 + 0x12C ≤ u32 payload 0x28
  r2_metadata : u32 payload 0x20 + 0x100 ≤ u32 payload 0x14 ∨
    u32 payload 0x14 + 0x12C ≤ u32 payload 0x20
  r2_signature : u32 payload 0x20 + 0x100 ≤ u32 payload 0x28 ∨
    u32 payload 0x28 + 0x100 ≤ u32 payload 0x20

/-- The parity bytes of the header. -/
theorem parityOffset_lt {offset : Nat}
    (h : offset ∈ [0x24, 0x25, 0x26, 0x27, 0x2C, 0x2D, 0x2E, 0x2F]) :
    offset < 0x30 ∧ (offset < 0x28 → 0x24 ≤ offset) ∧ (0x28 ≤ offset → 0x2C ≤ offset) := by
  revert offset
  decide

/-- A run of `main` inside the file, byte by byte: `metadata` and the numbers `s` and `t` are what it
computes, `offset` and `value` what the second search changes. -/
structure Run (sha1 : List UInt8 → Digest) (payload new : List UInt8) where
  metadata : List UInt8
  s : Nat
  offset : Nat
  value : UInt8
  block : List UInt8
  t : Nat
  search : makeHashOdd sha1 [0, 1, 2, 3] (metadataBlock payload) = some metadata
  search_block : makeHashOdd (fun block => sha1 (block.take (u32 payload 0x28)))
    [0x24, 0x25, 0x26, 0x27, 0x2C, 0x2D, 0x2E, 0x2F]
    (patchPayload payload metadata (leBytes 256 s)) = some block
  s_lt : s < 2 ^ 160
  t_lt : t < 2 ^ 160
  cube_s : s ^ 3 % 2 ^ 160 = (sha1 metadata).toInt
  cube_t : t ^ 3 % 2 ^ 160 = (sha1 (block.take (u32 payload 0x28))).toInt
  length_metadata : metadata.length = 0x118
  length_block : block.length = payload.length
  length_new : new.length = payload.length
  offset_mem : offset ∈ [0x24, 0x25, 0x26, 0x27, 0x2C, 0x2D, 0x2E, 0x2F]
  block_bytes : ∀ i, i ≠ offset →
    block[i]? = (patchPayload payload metadata (leBytes 256 s))[i]?
  block_offset : block[offset]? = some value
  new_bytes : ∀ i, new[i]? =
    if u32 payload 0x28 ≤ i ∧ i < u32 payload 0x28 + 0x100 then
      (leBytes 256 t)[i - u32 payload 0x28]? else block[i]?

theorem run_of_resign (hfile : InFile payload) (h : resign sha1 payload = some new) :
    Nonempty (Run sha1 payload new) := by
  obtain ⟨metadata, s, block, t, hmetadata, hs, hcube, hblock, ht, hcube', rfl⟩ := resign_cases h
  have hfits := hfile.signature
  obtain ⟨⟨metaOffset, -, metaValue, hmetaSet⟩, -⟩ := makeHashOdd_spec hmetadata
  have hmetaLength : metadata.length = 0x118 := by
    rw [hmetaSet, List.length_set, metadataBlock_length hfile]
  have hpatch := patchPayload_length hfile hmetaLength (leBytes_length 256 s)
  obtain ⟨⟨offset, hoffset, value, hset⟩, -⟩ := makeHashOdd_spec hblock
  have hlength : block.length = payload.length := by rw [hset, List.length_set, hpatch]
  have hroot : (leBytes 256 t).length = 0x100 := leBytes_length _ _
  have hsmall := (parityOffset_lt hoffset).1
  refine ⟨{ metadata, s, offset, value, block, t, search := hmetadata, search_block := hblock,
            s_lt := hs, t_lt := ht, cube_s := hcube, cube_t := hcube',
            length_metadata := hmetaLength, length_block := hlength, length_new := ?_,
            offset_mem := hoffset, block_bytes := ?_, block_offset := ?_, new_bytes := ?_ }⟩
  · rw [length_assignSlice_of_le hroot (by omega), hlength]
  · intro i hi
    rw [hset, List.getElem?_set_ne (Ne.symm hi)]
  · rw [hset, List.getElem?_set_self (by omega)]
  · exact getElem?_assignSlice hroot (by omega)

namespace Run

/-- The bytes the payload signature and the second search leave alone. -/
theorem bytes_patched (run : Run sha1 payload new) {i : Nat} (hoffset : i ≠ run.offset)
    (hsig : i < u32 payload 0x28 ∨ u32 payload 0x28 + 0x100 ≤ i) :
    new[i]? = (patchPayload payload run.metadata (leBytes 256 run.s))[i]? := by
  rw [run.new_bytes, if_neg (by omega), run.block_bytes i hoffset]

theorem window_signature (run : Run sha1 payload new) :
    window new (u32 payload 0x28) 0x100 = leBytes 256 run.t := by
  have hlength : (leBytes 256 run.t).length = 0x100 := leBytes_length _ _
  rw [← window_length (leBytes 256 run.t), hlength]
  apply window_congr
  intro i hi
  rw [run.new_bytes, if_pos (by omega), Nat.add_sub_cancel_left, Nat.zero_add]

theorem take_signature (run : Run sha1 payload new) :
    new.take (u32 payload 0x28) = run.block.take (u32 payload 0x28) := by
  apply List.ext_getElem?
  intro i
  rw [List.getElem?_take, List.getElem?_take]
  split_ifs with hi
  · rw [run.new_bytes, if_neg (by omega)]
  · rfl

/-- The signature of the payload is always valid: it is written last, and behind what it signs. -/
theorem signed (run : Run sha1 payload new) :
    lowCube (window new (u32 payload 0x28) 0x100)
      = (sha1 (new.take (u32 payload 0x28))).toInt := by
  rw [run.window_signature, lowCube_leBytes run.t_lt, run.cube_t, run.take_signature]

/-- The metadata, where neither the constant, the second search nor the signature reaches it. -/
theorem window_metadata (run : Run sha1 payload new) (hfile : InFile payload)
    (hmetadata : 0x30 ≤ u32 payload 0x14) (hsig : u32 payload 0x14 + 0x118 ≤ u32 payload 0x28)
    (hr2 : u32 payload 0x20 + 0x100 ≤ u32 payload 0x14 ∨
      u32 payload 0x14 + 0x118 ≤ u32 payload 0x20) :
    window new (u32 payload 0x14) 0x118 = run.metadata := by
  have hparity := (parityOffset_lt run.offset_mem).1
  have hwindow := window_length run.metadata
  rw [run.length_metadata] at hwindow
  rw [← hwindow]
  apply window_congr
  intro i hi
  rw [run.bytes_patched (by omega) (by omega),
    getElem?_patchPayload hfile run.length_metadata (leBytes_length _ _), if_neg (by omega),
    if_neg (by omega), if_pos (by omega), Nat.add_sub_cancel_left, Nat.zero_add]

/-- The low bytes of the metadata's signature, where nothing reaches them. -/
theorem lowCube_metadata (run : Run sha1 payload new) (hfile : InFile payload)
    (hsig : u32 payload 0x14 + 0x12C ≤ u32 payload 0x28)
    (hr2 : u32 payload 0x20 + 0x100 ≤ u32 payload 0x14 + 0x118 ∨
      u32 payload 0x14 + 0x12C ≤ u32 payload 0x20) :
    lowCube (window new (u32 payload 0x14 + 0x118) 0x100) = (sha1 run.metadata).toInt := by
  have hparity := (parityOffset_lt run.offset_mem).1
  have hfits := hfile.metadata
  have hlength := length_window (show u32 payload 0x14 + 0x118 + 0x100 ≤ new.length by
    rw [run.length_new]
    omega)
  have hlow : window (window new (u32 payload 0x14 + 0x118) 0x100) 0 20
      = window (leBytes 256 run.s) 0 20 := by
    rw [window_window _ (by decide)]
    apply window_congr
    intro i hi
    rw [run.bytes_patched (by omega) (by omega),
      getElem?_patchPayload hfile run.length_metadata (leBytes_length _ _), if_neg (by omega),
      if_pos (by omega), Nat.add_zero, Nat.add_sub_cancel_left, Nat.zero_add]
  rw [lowCube_congr hlow (by omega) (by rw [leBytes_length]; decide), lowCube_leBytes run.s_lt,
    run.cube_s]

/-- The constant, where neither the second search nor the signature reaches it. -/
theorem window_r2 (run : Run sha1 payload new) (hfile : InFile payload)
    (hr2 : 0x30 ≤ u32 payload 0x20)
    (hsig : u32 payload 0x20 + 0x100 ≤ u32 payload 0x28 ∨
      u32 payload 0x28 + 0x100 ≤ u32 payload 0x20) :
    window new (u32 payload 0x20) 0x100 = r2Bytes run.metadata := by
  have hparity := (parityOffset_lt run.offset_mem).1
  have hwindow := window_length (r2Bytes run.metadata)
  rw [r2Bytes_length] at hwindow
  rw [← hwindow]
  apply window_congr
  intro i hi
  rw [run.bytes_patched (by omega) (by omega),
    getElem?_patchPayload hfile run.length_metadata (leBytes_length _ _), if_pos (by omega),
    Nat.add_sub_cancel_left, Nat.zero_add]

end Run

/-- In a file with a proper layout, what is written is what the ROM wants. -/
theorem resigned_of_layoutOk (hlayout : LayoutOk payload) (h : resign sha1 payload = some new) :
    Resigned sha1 payload new := by
  obtain ⟨run⟩ := run_of_resign hlayout.inFile h
  have hsig := hlayout.signature
  have hr2 := hlayout.r2_metadata
  have hmetadata := run.window_metadata hlayout.inFile hlayout.metadata_ge (by omega) (by omega)
  constructor
  case length_eq => exact run.length_new
  case metadata =>
      rw [hmetadata]
      exact run.lowCube_metadata hlayout.inFile hsig (by omega)
  case signed => exact run.signed
  case r2 =>
      rw [run.window_r2 hlayout.inFile hlayout.r2_ge hlayout.r2_signature, r2Bytes, ← hmetadata,
        window_window _ (by decide)]
  case fields =>
      intro field hfield
      have hparity := parityOffset_lt run.offset_mem
      have hge := hlayout.metadata_ge
      have hge' := hlayout.r2_ge
      have hbounds : field + 4 ≤ 0x2C ∧ (0x18 < field + 4 → 0x20 ≤ field) ∧
          (0x24 < field + 4 → 0x28 ≤ field) := by
        revert field
        decide
      rw [u32, u32, window_congr]
      intro i hi
      rw [run.bytes_patched (by omega) (by omega),
        getElem?_patchPayload hlayout.inFile run.length_metadata (leBytes_length _ _),
        if_neg (by omega), if_neg (by omega), if_neg (by omega)]

end Pmb887x.Fakesign
