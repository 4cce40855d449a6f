import Pmb887x.Library.BitFields
import Pmb887x.GsmL1.Calls

set_option autoImplicit false

/-! # The 25 bits of an SCH burst

The synchronization burst carries the base station's BSIC and the frame number, the latter as
`T1 = FN div 1326`, `T2 = FN mod 26` and `T3' = (FN mod 51 - 1) / 10`, in split pieces. Two programs
put them together again: `sch_data_to_frame_number` of `gsm-l1.c`, and the check of
`sch-decoder-vectors.c`, which also builds the bits. -/

namespace Pmb887x.GsmL1

open Library

/-! ## The functions -/

/-- `sch_information_bits`, for any fields; the C function has one set of them as constants. -/
def schInformationBits (t1 bsic t2 t3p : Nat) : List Nat :=
  [t1 >>> 9 &&& 1, t1 >>> 10 &&& 1] ++
    (List.range 6).map (fun i => bsic >>> i &&& 1) ++
    (List.range 8).map (fun i => t1 >>> (i + 1) &&& 1) ++
    [t3p >>> 1 &&& 1, t3p >>> 2 &&& 1] ++
    (List.range 5).map (fun i => t2 >>> i &&& 1) ++
    [t1 &&& 1, t3p &&& 1]

/-- `data[0] | ((uint32_t) data[1] << 16)`, the word of the two 16-bit results. -/
def schData (data : UInt16 × UInt16) : Nat := data.1.toNat ||| (data.2.toNat <<< 16)

/-- `result->bsic` in `gsm_l1_decode_sch`. -/
def schDataToBsic (data : Nat) : Nat := data >>> 2 &&& 0x3F

/-- What `check_decoded_fields` compares with its constants. -/
structure SchFields where
  t1 : Nat
  bsic : Nat
  t2 : Nat
  t3p : Nat
  frameNumber : Nat
  deriving DecidableEq

/-- The fields of `check_decoded_fields`: `t1` is a `uint16_t`, the others but the frame number are
`uint8_t`, and the expressions for them are of type `uint32_t` or `int`. -/
def checkDecodedFields (packed : Nat) : SchFields :=
  let t1 := ((packed >>> 23 &&& 1) ||| wrap32 ((packed >>> 8 &&& 0xFF) <<< 1) |||
    wrap32 ((packed >>> 0 &&& 0x03) <<< 9)) % 2 ^ 16
  let bsic := (packed >>> 2 &&& 0x3F) % 2 ^ 8
  let t2 := (packed >>> 18 &&& 0x1F) % 2 ^ 8
  let t3p := ((packed >>> 24 &&& 1) ||| wrap32 ((packed >>> 16 &&& 0x03) <<< 1)) % 2 ^ 8
  let t3 := (t3p * 10 + 1) % 2 ^ 8
  let tt : Int := (if t3 < t2 then (t3 : Int) + 26 - t2 else ((t3 : Int) - t2) % 26) % 2 ^ 8
  { t1, bsic, t2, t3p, frameNumber := wrap32 (t1 * 51 * 26 + tt.toNat * 51 + t3) }

/-! ## The packed word -/

/-- The word the 25 bits stand for. -/
def schPacked (t1 bsic t2 t3p : Nat) : Nat := packBits (schInformationBits t1 bsic t2 t3p)

theorem schPacked_eq {t1 bsic t2 t3p : Nat} (h1 : t1 < 2 ^ 11) (hb : bsic < 2 ^ 6)
    (h2 : t2 < 2 ^ 5) (h3 : t3p < 2 ^ 3) :
    schPacked t1 bsic t2 t3p = t1 / 2 ^ 9 + 2 ^ 2 * bsic + 2 ^ 8 * (t1 / 2 % 2 ^ 8)
      + 2 ^ 16 * (t3p / 2) + 2 ^ 18 * t2 + 2 ^ 23 * (t1 % 2) + 2 ^ 24 * (t3p % 2) := by
  have hfield : ∀ n k, packBits ((List.range k).map fun i => n >>> i &&& 1) = n % 2 ^ k :=
    fun n k => by simpa using packBits_field n 0 k
  simp only [schPacked, schInformationBits, packBits_append, hfield, packBits_field, packBits,
    List.length_append, List.length_cons, List.length_nil, List.length_map, List.length_range]
  simp only [shiftRight_and_one]
  simp only [Nat.and_one_is_mod]
  omega

/-! ## Taking it apart -/

/-- A mask of low bits. -/
theorem shiftRight_and_low (n a k : Nat) : n >>> a &&& (2 ^ k - 1) = n / 2 ^ a % 2 ^ k := by
  rw [Nat.and_two_pow_sub_one_eq_mod, Nat.shiftRight_eq_div_pow]

/-- The pieces of `T1`, as `sch_data_to_frame_number` puts them together. -/
theorem schDataT1_eq (data : Nat) :
    (data >>> 23 &&& 1) ||| (data >>> 7 &&& 0x1FE) ||| (data <<< 9 &&& 0x600)
      = data / 2 ^ 23 % 2 + 2 * (data / 2 ^ 8 % 2 ^ 8) + 2 ^ 9 * (data % 4) := by
  have hlow : data >>> 23 &&& 1 = data / 2 ^ 23 % 2 := shiftRight_and_one data 23
  have hmiddle : data >>> 7 &&& 0x1FE = (data / 2 ^ 8 % 2 ^ 8) <<< 1 := by
    rw [show (0x1FE : Nat) = (2 ^ 8 - 1) <<< 1 from rfl, and_mask, Nat.shiftRight_eq_div_pow,
      Nat.div_div_eq_div_mul, ← Nat.pow_add, Nat.shiftLeft_eq]
  have hhigh : data <<< 9 &&& 0x600 = (data % 4) <<< 9 := by
    rw [show (0x600 : Nat) = (2 ^ 2 - 1) <<< 9 from rfl, and_mask, Nat.shiftLeft_eq,
      Nat.shiftLeft_eq, Nat.mul_div_cancel _ (Nat.two_pow_pos 9)]
    rfl
  have hbit : data / 2 ^ 23 % 2 < 2 ^ 1 := Nat.mod_lt _ (by decide)
  rw [hlow, hmiddle, hhigh, or_shiftLeft hbit, or_shiftLeft (by omega), Nat.pow_one]

/-- The same three pieces, as `check_decoded_fields` takes them. -/
theorem checkT1_eq (packed : Nat) :
    ((packed >>> 23 &&& 1) ||| wrap32 ((packed >>> 8 &&& 0xFF) <<< 1) |||
      wrap32 ((packed >>> 0 &&& 0x03) <<< 9)) % 2 ^ 16
      = packed / 2 ^ 23 % 2 + 2 * (packed / 2 ^ 8 % 2 ^ 8) + 2 ^ 9 * (packed % 4) := by
  have hlow : packed >>> 23 &&& 1 = packed / 2 ^ 23 % 2 := shiftRight_and_one packed 23
  have hmiddle : packed >>> 8 &&& 0xFF = packed / 2 ^ 8 % 2 ^ 8 := shiftRight_and_low packed 8 8
  have hhigh : packed >>> 0 &&& 0x03 = packed % 4 := by
    simpa using shiftRight_and_low packed 0 2
  have hsmall : ∀ n k, n < 2 ^ 8 → k ≤ 9 → wrap32 (n <<< k) = n <<< k := by
    intro n k hn hk
    rw [wrap32, Nat.shiftLeft_eq, Nat.mod_eq_of_lt]
    calc n * 2 ^ k < 2 ^ 8 * 2 ^ 9 :=
          Nat.mul_lt_mul_of_lt_of_le hn (Nat.pow_le_pow_right (by decide) hk) (by decide)
      _ ≤ 2 ^ 32 := by decide
  have hbit : packed / 2 ^ 23 % 2 < 2 ^ 1 := Nat.mod_lt _ (by decide)
  rw [hlow, hmiddle, hhigh, hsmall _ 1 (Nat.mod_lt _ (by decide)) (by decide),
    hsmall _ 9 (by omega) (by decide), or_shiftLeft hbit, or_shiftLeft (by omega), Nat.pow_one]
  exact Nat.mod_eq_of_lt (by omega)

/-- The two pieces of `T3'`. -/
theorem schDataT3_eq (data : Nat) :
    (data >>> 24 &&& 1) ||| (data >>> 15 &&& 6) = data / 2 ^ 24 % 2 + 2 * (data / 2 ^ 16 % 4) := by
  have hlow : data >>> 24 &&& 1 = data / 2 ^ 24 % 2 := shiftRight_and_one data 24
  have hhigh : data >>> 15 &&& 6 = (data / 2 ^ 16 % 4) <<< 1 := by
    rw [show (6 : Nat) = (2 ^ 2 - 1) <<< 1 from rfl, and_mask, Nat.shiftRight_eq_div_pow,
      Nat.div_div_eq_div_mul, ← Nat.pow_add, Nat.shiftLeft_eq]
    rfl
  have hbit : data / 2 ^ 24 % 2 < 2 ^ 1 := Nat.mod_lt _ (by decide)
  rw [hlow, hhigh, or_shiftLeft hbit, Nat.pow_one]

theorem checkT3_eq (packed : Nat) :
    ((packed >>> 24 &&& 1) ||| wrap32 ((packed >>> 16 &&& 0x03) <<< 1)) % 2 ^ 8
      = packed / 2 ^ 24 % 2 + 2 * (packed / 2 ^ 16 % 4) := by
  have hlow : packed >>> 24 &&& 1 = packed / 2 ^ 24 % 2 := shiftRight_and_one packed 24
  have hhigh : packed >>> 16 &&& 0x03 = packed / 2 ^ 16 % 4 := shiftRight_and_low packed 16 2
  have hshift : wrap32 ((packed / 2 ^ 16 % 4) <<< 1) = (packed / 2 ^ 16 % 4) <<< 1 := by
    rw [wrap32, Nat.shiftLeft_eq]
    omega
  have hbit : packed / 2 ^ 24 % 2 < 2 ^ 1 := Nat.mod_lt _ (by decide)
  rw [hlow, hhigh, hshift, or_shiftLeft hbit, Nat.pow_one]
  exact Nat.mod_eq_of_lt (by omega)

/-- The fields of a packed word. -/
structure CarriesFields (data t1 bsic t2 t3p : Nat) : Prop where
  lt : data < 2 ^ 25
  t1 : data / 2 ^ 23 % 2 + 2 * (data / 2 ^ 8 % 2 ^ 8) + 2 ^ 9 * (data % 4) = t1
  bsic : data / 2 ^ 2 % 2 ^ 6 = bsic
  t2 : data / 2 ^ 18 % 2 ^ 5 = t2
  t3p : data / 2 ^ 24 % 2 + 2 * (data / 2 ^ 16 % 4) = t3p

/-- The word `u v w x y` and two whole fields make, read by its pieces. -/
theorem carriesFields_of_pieces {u bsic v x t2 w y data : Nat} (hu : u < 4) (hb : bsic < 2 ^ 6)
    (hv : v < 2 ^ 8) (hx : x < 4) (h2 : t2 < 2 ^ 5) (hw : w < 2) (hy : y < 2)
    (hdata : data = u + 2 ^ 2 * bsic + 2 ^ 8 * v + 2 ^ 16 * x + 2 ^ 18 * t2 + 2 ^ 23 * w
      + 2 ^ 24 * y) :
    CarriesFields data (w + 2 * v + 2 ^ 9 * u) bsic t2 (y + 2 * x) := by
  -- each quotient is the piece at its low end, and the next quotient
  have q24 : data / 2 ^ 24 = y := by omega
  have q23 : data / 2 ^ 23 = w + 2 * (data / 2 ^ 24) := by omega
  have q18 : data / 2 ^ 18 = t2 + 2 ^ 5 * (data / 2 ^ 23) := by omega
  have q16 : data / 2 ^ 16 = x + 4 * (data / 2 ^ 18) := by omega
  have q8 : data / 2 ^ 8 = v + 2 ^ 8 * (data / 2 ^ 16) := by omega
  have q2 : data / 2 ^ 2 = bsic + 2 ^ 6 * (data / 2 ^ 8) := by omega
  have q0 : data = u + 4 * (data / 2 ^ 2) := by omega
  have hlow : ∀ {a k : Nat} (n : Nat), a < k → (a + k * n) % k = a := fun n ha => by
    rw [Nat.add_mul_mod_self_left, Nat.mod_eq_of_lt ha]
  have m0 : data % 4 = u := by rw [q0, hlow _ hu]
  have m23 : data / 2 ^ 23 % 2 = w := by rw [q23, hlow _ hw]
  have m24 : data / 2 ^ 24 % 2 = y := by rw [q24, Nat.mod_eq_of_lt hy]
  have m16 : data / 2 ^ 16 % 4 = x := by rw [q16, hlow _ hx]
  have m8 : data / 2 ^ 8 % 2 ^ 8 = v := by rw [q8, hlow _ hv]
  constructor
  case lt => omega
  case t1 => rw [m23, m8, m0]
  case bsic => rw [q2, hlow _ hb]
  case t2 => rw [q18, hlow _ h2]
  case t3p => rw [m24, m16]

theorem schPacked_carriesFields {t1 bsic t2 t3p : Nat} (h1 : t1 < 2 ^ 11) (hb : bsic < 2 ^ 6)
    (h2 : t2 < 2 ^ 5) (h3 : t3p < 2 ^ 3) :
    CarriesFields (schPacked t1 bsic t2 t3p) t1 bsic t2 t3p := by
  have hpieces := carriesFields_of_pieces (u := t1 / 2 ^ 9) (v := t1 / 2 % 2 ^ 8) (w := t1 % 2)
    (x := t3p / 2) (y := t3p % 2) (by omega) hb (by omega) (by omega) h2 (by omega) (by omega)
    (schPacked_eq h1 hb h2 h3)
  have ht1 : t1 % 2 + 2 * (t1 / 2 % 2 ^ 8) + 2 ^ 9 * (t1 / 2 ^ 9) = t1 := by omega
  rwa [ht1, Nat.mod_add_div] at hpieces

/-- The two words of the shared memory that hold a packed word. -/
def schHalves (packed : Nat) : UInt16 × UInt16 :=
  (UInt16.ofNat packed, UInt16.ofNat (packed / 2 ^ 16))

theorem schData_halves {packed : Nat} (h : packed < 2 ^ 25) :
    schData (schHalves packed) = packed := by
  have hlow : (UInt16.ofNat packed).toNat = packed % 2 ^ 16 := UInt16.toNat_ofNat'
  have hhigh : (UInt16.ofNat (packed / 2 ^ 16)).toNat = packed / 2 ^ 16 :=
    UInt16.toNat_ofNat'.trans (Nat.mod_eq_of_lt (by omega))
  rw [schData, schHalves, hlow, hhigh, or_shiftLeft (Nat.mod_lt _ (by decide)), Nat.mod_add_div]

/-! ## The frame number -/

/-- The Chinese remainder step: `FN mod 1326 div 51` from the remainders modulo 26 and 51. As 51 is
-1 modulo 26, it is the difference of the two, and the sign case only keeps it from going below
zero. -/
theorem frameModulo_eq {fn t3 : Nat} (h3 : fn % 51 = t3) :
    (if t3 < fn % 26 then t3 + 26 - fn % 26 else (t3 - fn % 26) % 26) = fn % 1326 / 51 := by
  by_cases h : t3 < fn % 26
  · rw [if_pos h]
    omega
  · rw [if_neg h]
    omega

/-- The same difference in `int`, stored in the `uint8_t` of `check_decoded_fields`. -/
theorem signedModulo_eq {t3 t2 : Nat} (h3 : t3 < 51) (h2 : t2 < 26) :
    ((if t3 < t2 then (t3 : Int) + 26 - t2 else ((t3 : Int) - t2) % 26) % 2 ^ 8).toNat
      = if t3 < t2 then t3 + 26 - t2 else (t3 - t2) % 26 := by
  by_cases hsign : t3 < t2
  · rw [if_pos hsign, if_pos hsign]
    omega
  · obtain ⟨d, rfl⟩ : ∃ d, t3 = t2 + d := ⟨t3 - t2, by omega⟩
    rw [if_neg hsign, if_neg hsign]
    omega

/-- A frame number from its three parts. -/
theorem frameNumber_parts (fn : Nat) :
    fn / 1326 * 51 * 26 + fn % 1326 / 51 * 51 + fn % 51 = fn := by
  have hmod : fn % 1326 % 51 = fn % 51 := Nat.mod_mod_of_dvd fn (by decide)
  omega

/-- The frame numbers of the SCH: those of the frames 1, 11, 21, 31 and 41 of a multiframe of 51. -/
def CarriesSch (fn : Nat) : Prop := fn < 2048 * 26 * 51 ∧ fn % 51 ∈ [1, 11, 21, 31, 41]

/-- The packed word of a frame number and a BSIC. -/
def schWord (fn bsic : Nat) : Nat :=
  schPacked (fn / 1326) bsic (fn % 26) ((fn % 51 - 1) / 10)

theorem schWord_carriesFields {fn bsic : Nat} (hfn : CarriesSch fn) (hb : bsic < 2 ^ 6) :
    CarriesFields (schWord fn bsic) (fn / 1326) bsic (fn % 26) ((fn % 51 - 1) / 10) := by
  have hlt : fn < 2048 * 26 * 51 := hfn.1
  exact schPacked_carriesFields (by omega) hb (by omega) (by omega)

/-- `T3` from `T3'`. -/
theorem t3_eq {fn : Nat} (hfn : CarriesSch fn) : (fn % 51 - 1) / 10 * 10 + 1 = fn % 51 := by
  have hmem := hfn.2
  simp only [List.mem_cons, List.not_mem_nil, or_false] at hmem
  rcases hmem with h | h | h | h | h <;> rw [h]

theorem schDataToFrameNumber_eq {fn bsic data : Nat} (hfn : CarriesSch fn)
    (h : CarriesFields data (fn / 1326) bsic (fn % 26) ((fn % 51 - 1) / 10)) :
    schDataToFrameNumber data = fn := by
  have hlt : fn < 2048 * 26 * 51 := hfn.1
  have ht1 : (data >>> 23 &&& 1) ||| (data >>> 7 &&& 0x1FE) ||| (data <<< 9 &&& 0x600)
      = fn / 1326 := (schDataT1_eq data).trans h.t1
  have ht2 : data >>> 18 &&& 0x1F = fn % 26 := (shiftRight_and_low data 18 5).trans h.t2
  have ht3p : (data >>> 24 &&& 1) ||| (data >>> 15 &&& 6) = (fn % 51 - 1) / 10 :=
    (schDataT3_eq data).trans h.t3p
  have hframe : (if fn % 51 < fn % 26 then sub32 (fn % 51 + 26) (fn % 26)
      else (fn % 51 - fn % 26) % 26) = fn % 1326 / 51 := by
    rw [← frameModulo_eq rfl]
    by_cases hsign : fn % 51 < fn % 26
    · rw [if_pos hsign, if_pos hsign, sub32]
      omega
    · rw [if_neg hsign, if_neg hsign]
  simp only [schDataToFrameNumber, ht1, ht2, ht3p, t3_eq hfn, hframe, frameNumber_parts]
  exact wrap32_of_lt (by omega)

theorem checkDecodedFields_eq {fn bsic packed : Nat} (hfn : CarriesSch fn)
    (h : CarriesFields packed (fn / 1326) bsic (fn % 26) ((fn % 51 - 1) / 10)) :
    checkDecodedFields packed
      = ⟨fn / 1326, bsic, fn % 26, (fn % 51 - 1) / 10, fn⟩ := by
  have hlt : fn < 2048 * 26 * 51 := hfn.1
  have ht1 := (checkT1_eq packed).trans h.t1
  have hb : (packed >>> 2 &&& 0x3F) % 2 ^ 8 = bsic := by
    rw [show packed >>> 2 &&& 0x3F = _ from shiftRight_and_low packed 2 6, ← h.bsic]
    exact Nat.mod_eq_of_lt (Nat.lt_trans (Nat.mod_lt _ (by decide)) (by decide))
  have ht2 : (packed >>> 18 &&& 0x1F) % 2 ^ 8 = fn % 26 := by
    rw [show packed >>> 18 &&& 0x1F = _ from shiftRight_and_low packed 18 5, h.t2]
    omega
  have ht3p := (checkT3_eq packed).trans h.t3p
  have ht3 : fn % 51 % 2 ^ 8 = fn % 51 := by omega
  have hframe := (signedModulo_eq (show fn % 51 < 51 by omega)
    (show fn % 26 < 26 by omega)).trans (frameModulo_eq rfl)
  simp only [checkDecodedFields, ht1, hb, ht2, ht3p, t3_eq hfn, ht3, hframe, frameNumber_parts]
  rw [wrap32_of_lt (by omega)]

/-- **Both decoders invert the layout**: for every frame number that can carry a synchronization
burst and every BSIC, `gsm-l1.c` reads the frame number and the BSIC back from the two words, and
the vector test all the fields. -/
theorem sch_roundTrip {fn bsic : Nat} (hfn : CarriesSch fn) (hb : bsic < 64) :
    let data := schData (schHalves (schWord fn bsic))
    schDataToFrameNumber data = fn ∧ schDataToBsic data = bsic ∧
      checkDecodedFields data = ⟨fn / 1326, bsic, fn % 26, (fn % 51 - 1) / 10, fn⟩ := by
  have hfields := schWord_carriesFields hfn hb
  rw [schData_halves hfields.lt]
  refine ⟨schDataToFrameNumber_eq hfn hfields, ?_, checkDecodedFields_eq hfn hfields⟩
  exact (shiftRight_and_low _ 2 6).trans hfields.bsic

/-- The frame of the vector test. -/
theorem sch_roundTrip_vector :
    schDataToFrameNumber (schData (schHalves (schWord 1062871 0x2A))) = 1062871 :=
  (sch_roundTrip (show CarriesSch 1062871 by unfold CarriesSch; decide)
    (show 0x2A < 64 by decide)).1

/-- What `gsm_l1_decode_sch` reports of a burst that the DSP decoded. -/
theorem schReport_of_schWord {fn bsic : Nat} (hfn : CarriesSch fn) (hb : bsic < 64) {s : L1}
    (hcount : s.schAttemptCount ≠ 0) (hflags : s.schResult.communicationFlags = 0)
    (hstatus : s.schResult.status = 0) (hdata : s.schResult.data = schHalves (schWord fn bsic)) :
    (schReport s).decoded = true ∧ (schReport s).bsic = bsic ∧
      (schReport s).frameNumber = fn := by
  have hfields := schWord_carriesFields hfn hb
  have hword : s.schResult.data.1.toNat ||| (s.schResult.data.2.toNat <<< 16)
      = schWord fn bsic := by
    rw [hdata]
    exact schData_halves hfields.lt
  have hdecoded : decide (s.schAttemptCount ≠ 0 ∧ s.schResult.communicationFlags = 0 ∧
      s.schResult.status = 0) = true := decide_eq_true ⟨hcount, hflags, hstatus⟩
  simp only [schReport, hdecoded, if_true, hword]
  exact ⟨trivial, (shiftRight_and_low _ 2 6).trans hfields.bsic,
    schDataToFrameNumber_eq hfn hfields⟩

end Pmb887x.GsmL1
