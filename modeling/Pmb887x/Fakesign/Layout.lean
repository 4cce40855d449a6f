import Pmb887x.Fakesign.Main

set_option autoImplicit false

/-! # The layouts for which the signed payload is right

`main` compares one offset with a bound, and that one without room for the signature. For every
other layout than those of `LayoutOk` there is a hash with which the file it writes is wrong: an
assignment makes the file longer, or one region is written over another. -/

namespace Pmb887x.Fakesign

open Library

variable {sha1 hashInput : List UInt8 → Digest} {payload new : List UInt8}

/-! ## Hashes to choose from -/

/-- The digest of a small number. -/
def digestOf (b : UInt8) : Digest where
  bytes := List.replicate 19 0 ++ [b]
  length_eq := rfl

theorem digestOf_toInt (b : UInt8) : (digestOf b).toInt = b.toNat := by
  show b.toNat + 256 * ofLeBytes (List.replicate 19 0) = b.toNat
  rw [show ofLeBytes (List.replicate 19 0) = 0 by decide]
  omega

theorem digestOf_isOdd {b : UInt8} : (digestOf b).isOdd = true ↔ b.toNat % 2 = 1 := by
  rw [Digest.isOdd_iff, digestOf_toInt]

/-- The search comes to an end if some value at some offset makes the hash odd. -/
theorem makeHashOdd_exists {offsets : List Nat} {block : List UInt8} (offset i : Nat)
    (hoffset : offset ∈ offsets) (hi : i < 256)
    (hodd : (hashInput (block.set offset (UInt8.ofNat i))).isOdd = true) :
    ∃ block', makeHashOdd hashInput offsets block = some block' := by
  induction offsets with
  | nil => exact absurd hoffset List.not_mem_nil
  | cons off offsets ih =>
      rw [makeHashOdd]
      cases hfind : (List.range 256).find? fun i =>
          (hashInput (block.set off (UInt8.ofNat i))).isOdd with
      | some j => exact ⟨_, rfl⟩
      | none =>
          rcases List.mem_cons.mp hoffset with rfl | hmem
          · exact absurd hodd (by simpa using List.find?_eq_none.mp hfind i (List.mem_range.mpr hi))
          · exact ih hmem

/-- A run of `main`, for a hash that its two searches can make odd. -/
theorem resign_exists {metadata : List UInt8}
    (hsearch : makeHashOdd sha1 [0, 1, 2, 3] (metadataBlock payload) = some metadata)
    (hsearch' : ∀ patched, (∃ signature : List UInt8, signature.length = 0x100 ∧
        patched = patchPayload payload metadata signature) →
      ∃ block, makeHashOdd (fun block => sha1 (block.take (u32 payload 0x28)))
        [0x24, 0x25, 0x26, 0x27, 0x2C, 0x2D, 0x2E, 0x2F] patched = some block) :
    ∃ new, resign sha1 payload = some new := by
  obtain ⟨s, -, hforge, -⟩ := forgeSignature_spec (makeHashOdd_spec hsearch).2
  obtain ⟨block, hblock⟩ := hsearch' _ ⟨leBytes 256 s, leBytes_length _ _, rfl⟩
  obtain ⟨t, -, hforge', -⟩ := forgeSignature_spec (makeHashOdd_spec hblock).2
  refine ⟨assignSlice block (u32 payload 0x28) 0x100 (leBytes 256 t), ?_⟩
  simp only [resign, hsearch, hforge, hblock, hforge', Option.bind_eq_bind, Option.bind_some]
  rfl

theorem resign_exists_of_odd (payload : List UInt8) (sha1 : List UInt8 → Digest)
    (hodd : ∀ bytes, (sha1 bytes).isOdd = true) :
    ∃ new, resign sha1 payload = some new :=
  resign_exists (makeHashOdd_of_odd hodd) fun _ _ =>
    ⟨_, makeHashOdd_of_odd fun _ => hodd _⟩

/-! ## The bytes of small numbers -/

theorem getElem?_leBytes_of_lt {k r j : Nat} (hr : r < 256) (hj : j < k) :
    (leBytes k r)[j]? = some (if j = 0 then UInt8.ofNat r else 0) := by
  have hzero : ∀ k, leBytes k 0 = List.replicate k 0 := by
    intro k
    induction k with
    | zero => rfl
    | succ k ih => rw [leBytes, Nat.zero_div, ih, List.replicate_succ]; rfl
  cases k with
  | zero => exact absurd hj (Nat.not_lt_zero j)
  | succ k =>
      rw [leBytes, Nat.div_eq_of_lt hr, hzero]
      cases j with
      | zero => rfl
      | succ j =>
          rw [List.getElem?_cons_succ, List.getElem?_replicate, if_pos (by omega),
            if_neg (by omega)]

/-- The root of a small cube is the number itself. -/
theorem root_of_cube {v r : Nat} (hr : r % 2 = 1) (hr' : r < 256)
    (h : v ^ 3 % 2 ^ 160 = r ^ 3) : v % 2 ^ 160 = r := by
  have hcube : r ^ 3 < 2 ^ 160 :=
    calc r ^ 3 < 256 ^ 3 := Nat.pow_lt_pow_left hr' (by decide)
      _ ≤ 2 ^ 160 := by decide
  have hodd : v % 2 = 1 := by
    by_contra heven
    have h2 := congrArg (· % 2) h
    simp only [Nat.mod_mod_of_dvd _ (show 2 ∣ 2 ^ 160 from ⟨2 ^ 159, by decide⟩)] at h2
    rw [Nat.pow_mod, Nat.pow_mod r, hr, show v % 2 = 0 by omega] at h2
    cases h2
  have heq := eq_of_cube_eq hodd hr (h.trans (Nat.mod_eq_of_lt hcube).symm)
  rwa [Nat.mod_eq_of_lt (show r < 2 ^ 160 by omega)] at heq

/-- No cube has two for its low bits. -/
theorem cube_ne_two (v : Nat) : v ^ 3 % 2 ^ 160 ≠ 2 := by
  intro h
  have h8 := congrArg (· % 8) h
  simp only [Nat.mod_mod_of_dvd _ (show 8 ∣ 2 ^ 160 from ⟨2 ^ 157, by decide⟩)] at h8
  rw [Nat.pow_mod] at h8
  have hcases : ∀ x < 8, x ^ 3 % 8 ≠ 2 % 8 := by decide
  exact hcases _ (Nat.mod_lt _ (by decide)) h8

/-- A signature for a small cube: its low bytes are those of the root. -/
theorem signature_bytes {offset r j : Nat} (hr : r % 2 = 1) (hr' : r < 256)
    (hfits : offset + 0x100 ≤ new.length) (h : lowCube (window new offset 0x100) = r ^ 3)
    (hj : j < 20) : new[offset + j]? = some (if j = 0 then UInt8.ofNat r else 0) := by
  have hlength := length_window hfits
  have hlow : ofLeBytes (window (window new offset 0x100) 0 20) = r := by
    rw [← ofLeBytes_low (by omega)]
    exact root_of_cube hr hr' h
  have hbytes : window (window new offset 0x100) 0 20 = leBytes 20 r := by
    apply ofLeBytes_inj
    · rw [length_window (by omega), leBytes_length]
    · rw [hlow, ofLeBytes_leBytes_of_lt (Nat.lt_of_lt_of_le hr' (by decide))]
  rw [window_window _ (by decide), Nat.add_zero] at hbytes
  rw [← getElem?_leBytes_of_lt hr' hj, ← hbytes, getElem?_window, if_pos hj]

/-! ## The constant -/

/-- `r2` for the modulus of the program. -/
def payloadR2 : List UInt8 := leBytes 256 (2 ^ 4096 % ofLeBytes payloadModulus)

theorem payloadR2_ne_zero : ∀ j < 0x100, payloadR2[j]? ≠ some 0 := by
  have hzero : 0 ∉ payloadR2 := by decide +kernel
  exact fun j _ h => hzero (List.mem_of_getElem? h)

theorem payloadR2_last : payloadR2[0xFF]? = some 0x3f := by decide +kernel

/-- The modulus has no byte like the last of the constant behind its start, and no zero. -/
theorem payloadModulus_bytes : ∀ j < 0x100, payloadModulus[j]? ≠ some 0 ∧
    (0xE8 ≤ j → payloadModulus[j]? ≠ some 0x3f) := by
  have hzero : 0 ∉ payloadModulus := by decide +kernel
  have hlast : 0x3f ∉ payloadModulus.drop 0xE8 := by decide +kernel
  refine fun j _ => ⟨fun h => hzero (List.mem_of_getElem? h), fun hle h => hlast ?_⟩
  have hdrop : (payloadModulus.drop 0xE8)[j - 0xE8]? = some 0x3f := by
    rw [List.getElem?_drop, Nat.add_sub_cancel' hle, h]
  exact List.mem_of_getElem? hdrop

theorem metadata_modulus {metadata : List UInt8} (hfile : InFile payload)
    (hsearch : makeHashOdd sha1 [0, 1, 2, 3] (metadataBlock payload) = some metadata) (j : Nat) :
    metadata[0x18 + j]? = payloadModulus[j]? := by
  obtain ⟨⟨offset, hoffset, value, rfl⟩, -⟩ := makeHashOdd_spec hsearch
  have hsmall : ∀ o ∈ [0, 1, 2, 3], o < 0x18 := by decide
  have hlength := length_window (show u32 payload 0x14 + 0x18 ≤ payload.length by
    have := hfile.metadata
    omega)
  have hoff := hsmall offset hoffset
  rw [List.getElem?_set_ne (by omega), metadataBlock,
    List.getElem?_append_right (by omega), hlength, Nat.add_sub_cancel_left]

theorem r2Bytes_metadata {metadata : List UInt8} (hfile : InFile payload)
    (hsearch : makeHashOdd sha1 [0, 1, 2, 3] (metadataBlock payload) = some metadata) :
    r2Bytes metadata = payloadR2 := by
  have hwindow : window metadata 0x18 0x100 = window payloadModulus 0 0x100 := by
    apply window_congr
    intro j _
    rw [metadata_modulus hfile hsearch, Nat.zero_add]
  have hall : window payloadModulus 0 0x100 = payloadModulus := by
    have := window_length payloadModulus
    rwa [payloadModulus_length] at this
  rw [r2Bytes, hwindow, hall, payloadR2]

/-! ## The length of the file -/

/-- With a region that is not inside the file, what is written is longer. -/
theorem inFile_of_length (h : resign sha1 payload = some new)
    (hlength : new.length = payload.length) : InFile payload := by
  obtain ⟨metadata, s, block, t, hmetadata, -, -, hblock, -, -, rfl⟩ := resign_cases h
  obtain ⟨⟨_, -, _, hmetaSet⟩, -⟩ := makeHashOdd_spec hmetadata
  obtain ⟨⟨_, -, _, hset⟩, -⟩ := makeHashOdd_spec hblock
  have hmeta : metadata.length = min 0x18 (payload.length - u32 payload 0x14) + 0x100 := by
    rw [hmetaSet, List.length_set, metadataBlock, List.length_append, payloadModulus_length,
      window, List.length_take, List.length_drop]
  -- each assignment keeps the length or makes the file longer
  have h1 := length_assignSlice payload metadata (u32 payload 0x14) 0x118
  have h2 := length_assignSlice (assignSlice payload (u32 payload 0x14) 0x118 metadata)
    (leBytes 256 s) (u32 payload 0x14 + 0x118) 0x100
  have h3 := length_assignSlice (assignSlice (assignSlice payload (u32 payload 0x14) 0x118
    metadata) (u32 payload 0x14 + 0x118) 0x100 (leBytes 256 s)) (r2Bytes metadata)
    (u32 payload 0x20) 0x100
  have h4 := length_assignSlice block (leBytes 256 t) (u32 payload 0x28) 0x100
  have hblockLength : block.length = (patchPayload payload metadata (leBytes 256 s)).length := by
    rw [hset, List.length_set]
  rw [patchPayload] at hblockLength
  rw [leBytes_length] at h2 h4
  rw [r2Bytes_length] at h3
  constructor
  · omega
  · omega
  · omega

/-! ## The signature behind the metadata -/

namespace Run

/-- The bytes of the payload signature. -/
theorem signature_bytes (run : Run sha1 payload new) (hroot : run.t < 256) {j : Nat}
    (hj : j < 0x100) :
    new[u32 payload 0x28 + j]? = some (if j = 0 then UInt8.ofNat run.t else 0) := by
  rw [run.new_bytes, if_pos (by omega), Nat.add_sub_cancel_left, getElem?_leBytes_of_lt hroot hj]

/-- The roots, for a hash that is the cube of a small number. -/
theorem t_of_const (run : Run sha1 payload new) {r : Nat} (hr : r % 2 = 1) (hr' : r < 256)
    (hsha1 : ∀ bytes, (sha1 bytes).toInt = r ^ 3) : run.t = r := by
  have hcube := run.cube_t
  rw [hsha1] at hcube
  have := root_of_cube hr hr' hcube
  rwa [Nat.mod_eq_of_lt run.t_lt] at this

/-- The constant, where the payload signature does not reach. -/
theorem r2_byte (run : Run sha1 payload new) (hfile : InFile payload) {j : Nat} (hj : j < 0x100)
    (hsig : u32 payload 0x20 + j < u32 payload 0x28 ∨
      u32 payload 0x28 + 0x100 ≤ u32 payload 0x20 + j)
    (hparity : 0x30 ≤ u32 payload 0x20 + j) :
    new[u32 payload 0x20 + j]? = payloadR2[j]? := by
  have hoffset := (parityOffset_lt run.offset_mem).1
  rw [run.bytes_patched (by omega) hsig,
    getElem?_patchPayload hfile run.length_metadata (leBytes_length _ _), if_pos (by omega),
    Nat.add_sub_cancel_left, r2Bytes_metadata hfile run.search]

end Run

/-- With a hash that is the cube of a small number, both signatures begin with that number. -/
theorem const_run (hfile : InFile payload) {b : UInt8} {r : Nat} (hb : b.toNat = r ^ 3)
    (hr : r % 2 = 1) (hr' : r < 256)
    (hall : ∀ sha1 new, resign sha1 payload = some new → Resigned sha1 payload new) :
    ∃ new, ∃ run : Run (fun _ => digestOf b) payload new, run.t = r ∧
      Resigned (fun _ => digestOf b) payload new ∧
      ∀ j < 20, new[u32 payload 0x14 + 0x118 + j]? = some (if j = 0 then UInt8.ofNat r else 0) := by
  have hdigest : (digestOf b).toInt = r ^ 3 := by rw [digestOf_toInt, hb]
  have hodd : (digestOf b).isOdd = true := by
    rw [Digest.isOdd_iff, hdigest, Nat.pow_mod, hr]
  obtain ⟨new, hnew⟩ := resign_exists_of_odd payload (fun _ => digestOf b) fun _ => hodd
  obtain ⟨run⟩ := run_of_resign hfile hnew
  have hres := hall _ _ hnew
  refine ⟨new, run, run.t_of_const hr hr' fun _ => hdigest, hres, fun j hj => ?_⟩
  refine signature_bytes hr hr' ?_ (hres.metadata.trans hdigest) hj
  rw [run.length_new]
  have := hfile.metadata
  omega

/-- A signature over the modulus would make it a number whose constant is one. -/
theorem signature_not_over_modulus (hfile : InFile payload)
    (hall : ∀ sha1 new, resign sha1 payload = some new → Resigned sha1 payload new) :
    u32 payload 0x28 ≠ u32 payload 0x14 + 0x18 := by
  intro hat
  obtain ⟨new, run, ht, hres, -⟩ :=
    const_run hfile (show (27 : UInt8).toNat = 3 ^ 3 from rfl) rfl (by decide) hall
  have hmodulus := run.window_signature
  rw [ht, hat] at hmodulus
  have hr2 := hres.r2
  rw [hmodulus, show 2 ^ 4096 % ofLeBytes (leBytes 256 3) = 1 by decide +kernel] at hr2
  by_cases hover : u32 payload 0x20 ≤ u32 payload 0x28 ∧ u32 payload 0x28 < u32 payload 0x20 + 0x100
  · have hbyte := getElem?_of_window hr2
      (show u32 payload 0x28 - u32 payload 0x20 < 0x100 by omega)
    have hsig := run.signature_bytes (by omega) (show 0 < 0x100 by decide)
    rw [Nat.add_sub_cancel' hover.1, ← Nat.add_zero (u32 payload 0x28), hsig, ht, if_pos rfl,
      getElem?_leBytes_of_lt (by decide) (by omega)] at hbyte
    split_ifs at hbyte
    · exact absurd (Option.some.inj hbyte) (by decide)
    · exact absurd (Option.some.inj hbyte) (by decide)
  · have hbyte := getElem?_of_window hr2 (show 0xFF < 0x100 by decide)
    rw [run.r2_byte hfile (by decide) (by omega) (by omega), payloadR2_last,
      getElem?_leBytes_of_lt (by decide) (by decide)] at hbyte
    exact absurd (Option.some.inj hbyte) (by decide)

/-- A hash that tells a metadata block from longer data. -/
def lengthHash (bytes : List UInt8) : Digest :=
  if bytes.length = 0x118 then digestOf 1 else digestOf 27

theorem lengthHash_isOdd (bytes : List UInt8) : (lengthHash bytes).isOdd = true := by
  rw [lengthHash]
  split_ifs
  · exact digestOf_isOdd.mpr rfl
  · exact digestOf_isOdd.mpr rfl

/-- One signature is not valid for two hashes, and a header is not metadata. -/
theorem signature_not_behind_metadata (hfile : InFile payload)
    (hall : ∀ sha1 new, resign sha1 payload = some new → Resigned sha1 payload new) :
    u32 payload 0x28 ≠ u32 payload 0x14 + 0x118 := by
  intro hat
  have hfits := hfile.metadata
  obtain ⟨new, hnew⟩ := resign_exists_of_odd payload _ lengthHash_isOdd
  obtain ⟨run⟩ := run_of_resign hfile hnew
  have hres := hall _ _ hnew
  have hlength := run.length_new
  by_cases hmetadata : u32 payload 0x14 = 0
  · -- the field of the signature's offset is a part of the metadata or of the constant
    have hfield : window new 0x28 4 = leBytes 4 0x118 := by
      apply ofLeBytes_inj
      · rw [length_window (by omega), leBytes_length]
      · have := hres.fields 0x28 (by decide)
        rw [hat, hmetadata] at this
        rw [ofLeBytes_leBytes_of_lt (by decide)]
        exact this
    have hzero : new[0x2A]? = some 0 := getElem?_of_window hfield (show 2 < 4 by decide)
    have hparity := parityOffset_lt run.offset_mem
    rw [run.bytes_patched (by omega) (by omega),
      getElem?_patchPayload hfile run.length_metadata (leBytes_length _ _)] at hzero
    split_ifs at hzero with hr2
    · rw [r2Bytes_metadata hfile run.search] at hzero
      exact payloadR2_ne_zero _ (by omega) hzero
    · omega
    · rw [hmetadata, show 0x2A - 0 = 0x18 + 0x12 from rfl,
        metadata_modulus hfile run.search] at hzero
      exact (payloadModulus_bytes 0x12 (by decide)).1 hzero
    · omega
  · have hsigned := hres.signed
    rw [lengthHash, List.length_take, if_neg (by omega), digestOf_toInt, hat, hres.metadata,
      lengthHash, if_pos (length_window (by omega)), digestOf_toInt] at hsigned
    exact absurd hsigned (by decide)

/-- The payload signature begins behind the metadata and the part of its signature that counts. -/
theorem signature_ge (hfile : InFile payload) (hbound : u32 payload 0x14 + 0x18 ≤ u32 payload 0x28)
    (hall : ∀ sha1 new, resign sha1 payload = some new → Resigned sha1 payload new) :
    u32 payload 0x14 + 0x12C ≤ u32 payload 0x28 := by
  by_contra hlt
  obtain ⟨new, run, ht, hres, hlow⟩ :=
    const_run hfile (show (1 : UInt8).toNat = 1 ^ 3 from rfl) rfl (by decide) hall
  rcases Nat.lt_trichotomy (u32 payload 0x28) (u32 payload 0x14 + 0x118) with hin | hat | hbehind
  · rcases Nat.eq_or_lt_of_le hbound with hmodulus | hinside
    · exact signature_not_over_modulus hfile hall hmodulus.symm
    · -- the first byte of the metadata's signature is an upper one of the payload's
      have hfirst := hlow 0 (by decide)
      have hsig := run.signature_bytes (by omega)
        (show u32 payload 0x14 + 0x118 - u32 payload 0x28 < 0x100 by omega)
      rw [Nat.add_sub_cancel' (by omega), if_neg (by omega)] at hsig
      rw [Nat.add_zero, hsig] at hfirst
      cases hfirst
  · exact signature_not_behind_metadata hfile hall hat
  · -- an upper byte of the metadata's signature is the first one of the payload's
    have hupper := hlow (u32 payload 0x28 - (u32 payload 0x14 + 0x118)) (by omega)
    have hsig := run.signature_bytes (by omega) (show 0 < 0x100 by decide)
    rw [Nat.add_zero, if_pos rfl, ht] at hsig
    rw [Nat.add_sub_cancel' (by omega), hsig, if_neg (by omega)] at hupper
    cases hupper

/-! ## The other regions -/

/-- A hash that is odd for one metadata block only, and for longer data if the last byte the second
search changes is `w`. -/
def pickyHash (payload : List UInt8) (w : UInt8) (bytes : List UInt8) : Digest :=
  if bytes.length = 0x118 then
    if bytes = (metadataBlock payload).set 0 0 then digestOf 1 else digestOf 2
  else if bytes[0x2F]? = some w then digestOf 27
  else digestOf 2

/-- What a file written with `pickyHash` must be like: `w` at its offset, and each region as it is
computed. -/
structure Probe (payload : List UInt8) (w : UInt8) (new : List UInt8) : Prop where
  parity : new[0x2F]? = some w
  metadata : ∀ j < 0x118, new[u32 payload 0x14 + j]? = ((metadataBlock payload).set 0 0)[j]?
  metaSignature : ∀ j < 20,
    new[u32 payload 0x14 + 0x118 + j]? = some (if j = 0 then 1 else 0)
  r2 : ∀ j < 0x100, new[u32 payload 0x20 + j]? = payloadR2[j]?
  signature : ∀ j < 0x100, new[u32 payload 0x28 + j]? = some (if j = 0 then 3 else 0)

theorem pickyHash_longer {w : UInt8} {bytes : List UInt8} (hlength : bytes.length ≠ 0x118)
    (hw : bytes[0x2F]? = some w) : pickyHash payload w bytes = digestOf 27 := by
  rw [pickyHash, if_neg hlength, if_pos hw]

theorem pickyHash_run (w : UInt8) (hfile : InFile payload)
    (hsig : u32 payload 0x14 + 0x12C ≤ u32 payload 0x28) :
    makeHashOdd (pickyHash payload w) [0, 1, 2, 3] (metadataBlock payload)
        = some ((metadataBlock payload).set 0 0) ∧
      ∃ new, resign (pickyHash payload w) payload = some new := by
  have hlength : ((metadataBlock payload).set 0 0).length = 0x118 := by
    rw [List.length_set, metadataBlock_length hfile]
  have hodd : (pickyHash payload w ((metadataBlock payload).set 0 0)).isOdd = true := by
    rw [pickyHash, if_pos hlength, if_pos rfl]
    exact digestOf_isOdd.mpr rfl
  have hsearch : makeHashOdd (pickyHash payload w) [0, 1, 2, 3] (metadataBlock payload)
      = some ((metadataBlock payload).set 0 0) := by
    have hfind : ((List.range 256).find? fun i => (pickyHash payload w
        ((metadataBlock payload).set 0 (UInt8.ofNat i))).isOdd) = some 0 := by
      rw [List.range_succ_eq_map, List.find?_cons]
      have hodd' : (pickyHash payload w
          ((metadataBlock payload).set 0 (UInt8.ofNat 0))).isOdd = true := hodd
      rw [hodd']
    rw [makeHashOdd, hfind]
    rfl
  refine ⟨hsearch, resign_exists hsearch ?_⟩
  rintro patched ⟨signature, hsignature, rfl⟩
  have hpatch := patchPayload_length hfile hlength hsignature
  have hfits := hfile.signature
  refine makeHashOdd_exists 0x2F w.toNat (by decide) w.toNat_lt ?_
  rw [pickyHash_longer]
  · exact digestOf_isOdd.mpr rfl
  · rw [List.length_take, List.length_set]
    omega
  · rw [List.getElem?_take, if_pos (by omega), List.getElem?_set_self (by omega),
      UInt8.ofNat_toNat]

theorem probe_of_resigned (w : UInt8) (hfile : InFile payload)
    (hsig : u32 payload 0x14 + 0x12C ≤ u32 payload 0x28)
    (hall : ∀ sha1 new, resign sha1 payload = some new → Resigned sha1 payload new) :
    ∃ new, Probe payload w new := by
  obtain ⟨hsearch, new, hnew⟩ := pickyHash_run w hfile hsig
  obtain ⟨run⟩ := run_of_resign hfile hnew
  have hres := hall _ _ hnew
  have hlength := run.length_new
  have hfits := hfile.signature
  have hmetaFits := hfile.metadata
  -- the file is hashed as longer data, and must have `w`
  have hlonger : (run.block.take (u32 payload 0x28)).length ≠ 0x118 := by
    rw [List.length_take, run.length_block]
    omega
  have hodd := (makeHashOdd_spec run.search_block).2
  have hparity : run.block[0x2F]? = some w := by
    rw [pickyHash, if_neg hlonger] at hodd
    split_ifs at hodd with hw
    · rwa [List.getElem?_take, if_pos (by omega)] at hw
    · exact absurd (digestOf_isOdd.mp hodd) (by decide)
  have hhash : (pickyHash payload w (run.block.take (u32 payload 0x28))).toInt = 3 ^ 3 := by
    rw [pickyHash_longer hlonger, digestOf_toInt]
    · rfl
    · rw [List.getElem?_take, if_pos (by omega), hparity]
  have ht : run.t = 3 := by
    have hroot := root_of_cube rfl (by decide) (run.cube_t.trans hhash)
    rwa [Nat.mod_eq_of_lt run.t_lt] at hroot
  -- the metadata is hashed as such, and must be the block
  have hmetadata : window new (u32 payload 0x14) 0x118 = (metadataBlock payload).set 0 0 ∧
      lowCube (window new (u32 payload 0x14 + 0x118) 0x100) = 1 ^ 3 := by
    have hcube := hres.metadata
    rw [pickyHash, if_pos (length_window (by omega))] at hcube
    split_ifs at hcube with hblock
    · exact ⟨hblock, by rw [hcube, digestOf_toInt]; rfl⟩
    · rw [digestOf_toInt] at hcube
      exact absurd hcube (cube_ne_two _)
  have hsearched : run.metadata = (metadataBlock payload).set 0 0 :=
    Option.some.inj (run.search.symm.trans hsearch)
  have hmodulus : ofLeBytes (window new (u32 payload 0x14 + 0x18) 0x100)
      = ofLeBytes payloadModulus := by
    rw [← window_window new (show 0x18 + 0x100 ≤ 0x118 by decide), hmetadata.1, ← hsearched]
    congr 1
    apply List.ext_getElem?
    intro j
    rw [getElem?_window]
    split_ifs with hj
    · exact metadata_modulus hfile run.search j
    · rw [List.getElem?_eq_none]
      rw [payloadModulus_length]
      omega
  refine ⟨new, ?_, ?_, ?_, ?_, ?_⟩
  case refine_1 => rw [run.new_bytes, if_neg (by omega), hparity]
  case refine_2 => exact fun j hj => getElem?_of_window hmetadata.1 hj
  case refine_3 => exact fun j hj => signature_bytes rfl (by decide) (by omega) hmetadata.2 hj
  case refine_4 =>
      intro j hj
      rw [getElem?_of_window hres.r2 hj, hmodulus, payloadR2]
  case refine_5 =>
      intro j hj
      rw [run.signature_bytes (by omega) hj, ht]
      rfl

namespace Probe

variable {w : UInt8}

/-- Where the constant and a signature overlap, a byte would have to have two values: a signature is
zero but for its first byte, the constant nowhere. -/
theorem r2_apart_from_root (h : Probe payload w new) {offset n : Nat} {root : UInt8} (hn : 2 ≤ n)
    (hn' : n ≤ 0x100) (hroot : root ≠ 0x3f)
    (hbytes : ∀ j < n, new[offset + j]? = some (if j = 0 then root else 0)) :
    u32 payload 0x20 + 0x100 ≤ offset ∨ offset + n ≤ u32 payload 0x20 := by
  by_contra hover
  rcases Nat.eq_or_lt_of_le (show offset ≤ u32 payload 0x20 + 0xFF by omega) with hlast | hbehind
  · -- the last byte of the constant begins the signature
    have hbyte := hbytes 0 (by omega)
    rw [hlast, Nat.add_zero, h.r2 0xFF (by decide), payloadR2_last, if_pos rfl] at hbyte
    exact hroot (Option.some.inj hbyte).symm
  · -- an upper byte of the signature is in the constant
    have hj : ∃ j, 0 < j ∧ j < n ∧ u32 payload 0x20 ≤ offset + j ∧
        offset + j < u32 payload 0x20 + 0x100 := by
      rcases Nat.lt_or_ge offset (u32 payload 0x20) with hlt | hge
      · exact ⟨u32 payload 0x20 - offset, by omega, by omega, by omega, by omega⟩
      · exact ⟨1, by decide, by omega, by omega, by omega⟩
    obtain ⟨j, hpos, hj, hlow, hhigh⟩ := hj
    have hbyte := hbytes j hj
    have hr2 := h.r2 (offset + j - u32 payload 0x20) (by omega)
    rw [Nat.add_sub_cancel' hlow, hbyte, if_neg (by omega)] at hr2
    exact payloadR2_ne_zero _ (by omega) hr2.symm

theorem r2_apart_from_metadata (h : Probe payload w new) (hfile : InFile payload) :
    u32 payload 0x20 + 0x100 ≤ u32 payload 0x14 ∨
      u32 payload 0x14 + 0x12C ≤ u32 payload 0x20 := by
  have hlength := metadataBlock_length hfile
  have hstruct := length_window (show u32 payload 0x14 + 0x18 ≤ payload.length by
    have := hfile.metadata
    omega)
  rcases h.r2_apart_from_root (by decide) (by decide) (by decide) h.metaSignature
    with hends | hbehind
  · by_contra hover
    rcases Nat.lt_or_ge (u32 payload 0x14) (u32 payload 0x20) with hinside | hbegins
    · -- the last byte of the constant is in the modulus
      have hr2 := h.r2 0xFF (by decide)
      have hbyte := h.metadata (u32 payload 0x20 + 0xFF - u32 payload 0x14) (by omega)
      rw [Nat.add_sub_cancel' (by omega), hr2, payloadR2_last, List.getElem?_set_ne (by omega),
        metadataBlock, List.getElem?_append_right (by omega), hstruct] at hbyte
      exact (payloadModulus_bytes _ (by omega)).2 (by omega) hbyte.symm
    · -- the first byte of the metadata is in the constant
      have hbyte := h.metadata 0 (by decide)
      have hr2 := h.r2 (u32 payload 0x14 - u32 payload 0x20) (by omega)
      rw [Nat.add_sub_cancel' hbegins] at hr2
      rw [Nat.add_zero, hr2, List.getElem?_set_self (by omega)] at hbyte
      exact payloadR2_ne_zero _ (by omega) hbyte
  · exact .inr (by omega)

end Probe

/-- A layout for which such files exist is proper: where two regions overlap, or one reaches into
the header, a byte would have to have two values. -/
theorem layoutOk_of_probes {new₀ new₁ : List UInt8} (hfile : InFile payload)
    (hsig : u32 payload 0x14 + 0x12C ≤ u32 payload 0x28) (h₀ : Probe payload 0 new₀)
    (h₁ : Probe payload 1 new₁) : LayoutOk payload := by
  have hmetadata_ge : 0x30 ≤ u32 payload 0x14 := by
    by_contra hlow
    have hj : 0x2F - u32 payload 0x14 < 0x118 := by omega
    have hat := Nat.add_sub_cancel' (show u32 payload 0x14 ≤ 0x2F by omega)
    have hzero := h₀.metadata _ hj
    have hone := h₁.metadata _ hj
    rw [hat, h₀.parity] at hzero
    rw [hat, h₁.parity, ← hzero] at hone
    cases hone
  have hr2_ge : 0x30 ≤ u32 payload 0x20 := by
    by_contra hlow
    have hj : 0x2F - u32 payload 0x20 < 0x100 := by omega
    have hzero := h₀.r2 _ hj
    rw [Nat.add_sub_cancel' (by omega), h₀.parity] at hzero
    exact payloadR2_ne_zero _ hj hzero.symm
  refine ⟨hfile, hmetadata_ge, hr2_ge, hsig, ?_, ?_⟩
  case refine_1 => exact h₀.r2_apart_from_metadata hfile
  case refine_2 =>
      exact h₀.r2_apart_from_root (by decide) (Nat.le_refl _) (by decide) h₀.signature

theorem layoutOk_of_resigned (hbound : u32 payload 0x14 + 0x18 ≤ u32 payload 0x28)
    (hall : ∀ sha1 new, resign sha1 payload = some new → Resigned sha1 payload new) :
    LayoutOk payload := by
  have hodd : ∀ bytes : List UInt8, ((fun _ => digestOf 1) bytes).isOdd = true :=
    fun _ => digestOf_isOdd.mpr rfl
  obtain ⟨new, hnew⟩ := resign_exists_of_odd payload _ hodd
  have hfile := inFile_of_length hnew (hall _ _ hnew).length_eq
  have hsig := signature_ge hfile hbound hall
  obtain ⟨new₀, h₀⟩ := probe_of_resigned 0 hfile hsig hall
  obtain ⟨new₁, h₁⟩ := probe_of_resigned 1 hfile hsig hall
  exact layoutOk_of_probes hfile hsig h₀ h₁

/-! ## The program -/

theorem metadata_bound_of_checks (h : sanityChecks payload = none) :
    u32 payload 0x14 + 0x18 ≤ u32 payload 0x28 := by
  rw [sanityChecks] at h
  split_ifs at h
  omega

theorem main_written (hchecks : sanityChecks payload = none) :
    main sha1 payload = .written new ↔ resign sha1 payload = some new := by
  rw [main, hchecks]
  cases resign sha1 payload with
  | none => exact ⟨nofun, nofun⟩
  | some written => exact ⟨fun h => by cases h; rfl, fun h => by cases h; rfl⟩

/-- **The program signs what it writes exactly where it rejects the payload or the layout is
proper.** For every other payload there is a hash for which it writes a file that the boot ROM does
not accept. -/
theorem main_resigns_iff (payload : List UInt8) :
    (∀ sha1 new, main sha1 payload = .written new → Resigned sha1 payload new) ↔
      sanityChecks payload ≠ none ∨ LayoutOk payload := by
  by_cases hchecks : sanityChecks payload = none
  · constructor
    · intro hall
      exact .inr (layoutOk_of_resigned (metadata_bound_of_checks hchecks)
        fun sha1 new h => hall sha1 new ((main_written hchecks).mpr h))
    · rintro (hrejected | hlayout) sha1 new h
      · exact absurd hchecks hrejected
      · exact resigned_of_layoutOk hlayout ((main_written hchecks).mp h)
  · refine ⟨fun _ => .inl hchecks, fun _ sha1 new h => ?_⟩
    obtain ⟨message, hmessage⟩ := Option.ne_none_iff_exists'.mp hchecks
    rw [main, hmessage] at h
    cases h

/-- A payload of 0x358 bytes that wants the constant at 0x300. -/
def grownPayload : List UInt8 :=
  leBytes 4 0 ++ [0x6C, 0x69, 0x48, 0x55] ++ leBytes 8 0 ++ leBytes 4 0x358 ++ leBytes 4 0x40 ++
    leBytes 8 0 ++ leBytes 4 0x300 ++ leBytes 4 0 ++ leBytes 4 0x258 ++ leBytes 16 0 ++
    [0x43, 0x4A, 0x4B, 0x54] ++ List.replicate 0x318 0

/-- It gets past the checks, and whatever the hash, the file that is written is longer. -/
theorem main_grows : sanityChecks grownPayload = none ∧
    (∃ sha1 new, main sha1 grownPayload = .written new) ∧
    ∀ sha1 new, main sha1 grownPayload = .written new →
      new.length ≠ grownPayload.length ∧ ¬ Resigned sha1 grownPayload new := by
  have hchecks : sanityChecks grownPayload = none := by decide
  refine ⟨hchecks, ?_, fun sha1 new h => ?_⟩
  · have hodd : ∀ bytes : List UInt8, ((fun _ => digestOf 1) bytes).isOdd = true :=
      fun _ => digestOf_isOdd.mpr rfl
    obtain ⟨new, hnew⟩ := resign_exists_of_odd grownPayload _ hodd
    exact ⟨_, new, (main_written hchecks).mpr hnew⟩
  · have hlength : new.length ≠ grownPayload.length := by
      intro heq
      have hr2 := (inFile_of_length ((main_written hchecks).mp h) heq).r2
      exact absurd hr2 (by decide +kernel)
    exact ⟨hlength, fun hres => hlength hres.length_eq⟩

end Pmb887x.Fakesign
