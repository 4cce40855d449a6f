import Mathlib
import Pmb887x.Library.Bytes

set_option autoImplicit false

/-! # Forged signatures (`forge_signature`)

The boot ROM cubes a signature, a little-endian number, and compares the low 160 bits with the
SHA-1 of what is signed. An odd number has one cube root modulo `2^160`, and an exponent finds it. -/

namespace Pmb887x.Fakesign

open Library

/-! ## Powers modulo a number -/

/-- Python's `pow(base, exponent, modulus)`. -/
def powMod (base exponent modulus : Nat) : Nat :=
  if exponent = 0 then 1 % modulus
  else
    let rest := powMod (base * base % modulus) (exponent / 2) modulus
    if exponent % 2 = 1 then base * rest % modulus else rest
termination_by exponent

theorem powMod_eq (base exponent modulus : Nat) :
    powMod base exponent modulus = base ^ exponent % modulus := by
  induction base, exponent using powMod.induct modulus with
  | case1 base => rw [powMod, if_pos rfl, Nat.pow_zero]
  | case2 base exponent hpos hodd ih =>
      have hsplit : base ^ exponent = base * (base * base) ^ (exponent / 2) := by
        rw [← Nat.pow_two, ← Nat.pow_mul, ← Nat.pow_succ']
        congr 1
        omega
      rw [powMod, if_neg hpos]
      simp only [if_pos hodd]
      rw [ih, hsplit, Nat.mul_mod_mod, Nat.mul_mod,
        Nat.pow_mod (base * base % modulus), Nat.mod_mod, ← Nat.pow_mod, ← Nat.mul_mod]
  | case3 base exponent hpos heven ih =>
      have hsplit : base ^ exponent = (base * base) ^ (exponent / 2) := by
        rw [← Nat.pow_two, ← Nat.pow_mul]
        congr 1
        omega
      rw [powMod, if_neg hpos]
      simp only [if_neg heven]
      rw [ih, hsplit, ← Nat.pow_mod]

/-! ## Cube roots -/

/-- `pow(3, -1, 1 << 159)` -/
def inverseOfThree : Nat := (2 ^ 159 + 1) / 3

theorem three_mul_inverseOfThree : 3 * inverseOfThree = 2 ^ 159 + 1 := by decide

/-- Raising to the inverse of three gives a cube root of an odd number. -/
theorem cube_root {target : Nat} (hodd : target % 2 = 1) :
    (powMod target inverseOfThree (2 ^ 160)) ^ 3 % 2 ^ 160 = target % 2 ^ 160 := by
  have hcoprime : Nat.Coprime target (2 ^ 160) :=
    Nat.Coprime.pow_right 160 (Nat.coprime_two_right.mpr (Nat.odd_iff.mpr hodd))
  have htotient : Nat.totient (2 ^ 160) = 2 ^ 159 := by
    rw [Nat.totient_prime_pow Nat.prime_two (by decide)]
    rfl
  have hunit : target ^ 2 ^ 159 ≡ 1 [MOD 2 ^ 160] := htotient ▸ Nat.ModEq.pow_totient hcoprime
  rw [powMod_eq, ← Nat.pow_mod, ← Nat.pow_mul, Nat.mul_comm, three_mul_inverseOfThree, Nat.pow_succ]
  calc target ^ 2 ^ 159 * target % 2 ^ 160 = 1 * target % 2 ^ 160 := hunit.mul_right target
    _ = target % 2 ^ 160 := by rw [Nat.one_mul]

/-- Odd numbers with the same cube modulo a power of two are the same. -/
theorem eq_of_cube_eq {x y k : Nat} (hx : x % 2 = 1) (hy : y % 2 = 1)
    (h : x ^ 3 % 2 ^ k = y ^ 3 % 2 ^ k) : x % 2 ^ k = y % 2 ^ k := by
  have hcubes : (2 ^ k : ℤ) ∣ (y : ℤ) ^ 3 - (x : ℤ) ^ 3 := by
    have := (Nat.modEq_iff_dvd (n := 2 ^ k)).mp h
    push_cast at this
    exact this
  have hfactor : (y : ℤ) ^ 3 - (x : ℤ) ^ 3 = (y - x) * (y ^ 2 + x * y + x ^ 2) := by ring
  -- the second factor is odd
  have hcoprime : IsCoprime (2 ^ k : ℤ) ((y : ℤ) ^ 2 + x * y + x ^ 2) := by
    apply IsCoprime.pow_left
    have hodd : ((y : ℤ) ^ 2 + x * y + x ^ 2) % 2 = 1 := by
      have hx2 : (x : ℤ) % 2 = 1 := by omega
      have hy2 : (y : ℤ) % 2 = 1 := by omega
      simp [Int.add_emod, Int.mul_emod, pow_two, hx2, hy2]
    obtain ⟨n, hn⟩ := Int.odd_iff.mpr hodd
    exact ⟨-n, 1, by rw [hn]; ring⟩
  rw [hfactor] at hcubes
  have hdvd := hcoprime.dvd_of_dvd_mul_right hcubes
  exact Nat.modEq_iff_dvd.mpr (by push_cast; exact hdvd)

/-! ## `forge_signature` -/

/-- The 20 bytes of a SHA-1. -/
structure Digest where
  bytes : List UInt8
  length_eq : bytes.length = 20

/-- `int.from_bytes(hash, "big")` -/
def Digest.toInt (hash : Digest) : Nat := ofLeBytes hash.bytes.reverse

/-- `hash[-1] % 2 == 1` -/
def Digest.isOdd (hash : Digest) : Bool := (hash.bytes.getLastD 0).toNat % 2 == 1

/-- The cube root as 256 little-endian bytes; no value where the function raises an exception. -/
def forgeSignature (hash : Digest) : Option (List UInt8) :=
  let targetInt := hash.toInt
  if targetInt % 2 = 0 then none
  else
    let target160 := targetInt &&& ((1 <<< 160) - 1)
    let s := powMod target160 inverseOfThree (1 <<< 160)
    if s ^ 3 &&& ((1 <<< 160) - 1) = target160 then some (leBytes 256 s) else none

/-- What the ROM compares with a hash: the low 160 bits of the cube of the little-endian number. -/
def lowCube (signature : List UInt8) : Nat := ofLeBytes signature ^ 3 % 2 ^ 160

theorem Digest.toInt_lt (hash : Digest) : hash.toInt < 2 ^ 160 := by
  have h := ofLeBytes_lt hash.bytes.reverse
  rwa [List.length_reverse, hash.length_eq, show (256 : Nat) ^ 20 = 2 ^ 160 by decide] at h

/-- The last byte has the parity of the number. -/
theorem Digest.isOdd_iff (hash : Digest) : hash.isOdd = true ↔ hash.toInt % 2 = 1 := by
  obtain ⟨b, rest, hrest⟩ : ∃ b rest, hash.bytes.reverse = b :: rest := by
    apply List.exists_cons_of_ne_nil
    intro hnil
    have hlength := congrArg List.length hnil
    rw [List.length_reverse, hash.length_eq] at hlength
    cases hlength
  have hlast : hash.bytes.getLastD 0 = b := by
    rw [← List.reverse_reverse hash.bytes, hrest, List.reverse_cons, List.getLastD_eq_getLast?,
      List.getLast?_concat]
    rfl
  rw [Digest.isOdd, hlast, Digest.toInt, hrest, ofLeBytes, beq_iff_eq]
  omega

/-- A forged signature is 256 bytes, only the lowest 20 of which are not zero, and has the hash for
its low cube. -/
theorem forgeSignature_spec {hash : Digest} (hodd : hash.isOdd = true) :
    ∃ s < 2 ^ 160, forgeSignature hash = some (leBytes 256 s) ∧ s ^ 3 % 2 ^ 160 = hash.toInt := by
  rw [Digest.isOdd_iff] at hodd
  have hlt := hash.toInt_lt
  have hroot := cube_root hodd
  rw [Nat.mod_eq_of_lt hlt] at hroot
  refine ⟨powMod hash.toInt inverseOfThree (2 ^ 160), ?_, ?_, hroot⟩
  · rw [powMod_eq]
    exact Nat.mod_lt _ (Nat.two_pow_pos 160)
  · rw [forgeSignature, if_neg (by omega)]
    simp only [Nat.one_shiftLeft, Nat.and_two_pow_sub_one_eq_mod, Nat.mod_eq_of_lt hlt]
    exact if_pos hroot

theorem lowCube_leBytes {s : Nat} (h : s < 2 ^ 160) : lowCube (leBytes 256 s) = s ^ 3 % 2 ^ 160 := by
  rw [lowCube, ofLeBytes_leBytes_of_lt]
  exact Nat.lt_of_lt_of_le h (by norm_num)

/-! ## The only cube root -/

/-- `ROM_METADATA_EXPONENT` -/
def romMetadataExponent : Nat := 3

/-- RSA with the exponent of the ROM, of which only the low 160 bits are compared. -/
def Verifies (modulus : Nat) (hash : Digest) (signature : List UInt8) : Prop :=
  ofLeBytes signature ^ romMetadataExponent % modulus % 2 ^ 160 = hash.toInt

/-- Three has one inverse modulo `2^159`. -/
theorem eq_inverseOfThree {d : Nat} (hlt : d < 2 ^ 159) (hinverse : 3 * d % 2 ^ 159 = 1) :
    d = inverseOfThree := by
  have hthree := three_mul_inverseOfThree
  generalize 2 ^ 159 = n at *
  have hdivision := Nat.div_add_mod (3 * d) n
  have hquotient : 3 * d / n < 3 := Nat.div_lt_of_lt_mul (by omega)
  -- only the quotient one leaves a multiple of three
  interval_cases 3 * d / n
  · omega
  · omega
  · omega

/-- A number with an odd cube is odd. -/
theorem odd_of_cube_eq {x target : Nat} (hodd : target % 2 = 1)
    (hcube : x ^ 3 % 2 ^ 160 = target) : x % 2 = 1 := by
  have hmod : x ^ 3 % 2 = 1 := by
    rw [← hodd, ← hcube, Nat.mod_mod_of_dvd _ (dvd_pow_self 2 (by decide))]
  rcases Nat.mod_two_eq_zero_or_one x with heven | hx
  · rw [Nat.pow_mod, heven] at hmod
    exact absurd hmod (by decide)
  · exact hx

/-- The cube of a 160-bit number is below every modulus in use, so RSA does not reduce it. -/
theorem verifies_of_cube {modulus s : Nat} {hash : Digest} (hmodulus : (2 ^ 160) ^ 3 ≤ modulus)
    (hlt : s < 2 ^ 160) (hcube : s ^ 3 % 2 ^ 160 = hash.toInt) :
    Verifies modulus hash (leBytes 256 s) := by
  have hsmall : s ^ 3 < modulus :=
    calc s ^ 3 < (2 ^ 160) ^ 3 := Nat.pow_lt_pow_left hlt (by decide)
      _ ≤ modulus := hmodulus
  have hread : ofLeBytes (leBytes 256 s) = s :=
    ofLeBytes_leBytes_of_lt (Nat.lt_of_lt_of_le hlt (by norm_num))
  rw [Verifies, hread, romMetadataExponent, Nat.mod_eq_of_lt hsmall]
  exact hcube

/-- **The signature is the only cube root.** The power that `forge_signature` takes is odd, has the
target for its cube and no other residue has; so the function returns it, and what it returns is a
signature for every modulus of more than 480 bits. -/
theorem forgeSignature_root {target d : Nat} (htarget : target < 2 ^ 160) (hodd : target % 2 = 1)
    (hd : d < 2 ^ 159) (hinverse : 3 * d % 2 ^ 159 = 1) :
    powMod target d (2 ^ 160) < 2 ^ 160 ∧
      powMod target d (2 ^ 160) ^ 3 % 2 ^ 160 = target ∧
      powMod target d (2 ^ 160) % 2 = 1 ∧
      (∀ x, x < 2 ^ 160 → x ^ 3 % 2 ^ 160 = target → x = powMod target d (2 ^ 160)) ∧
      ∀ hash : Digest, hash.toInt = target →
        ∃ signature, forgeSignature hash = some signature ∧ signature.length = 256 ∧
          ofLeBytes signature = powMod target d (2 ^ 160) ∧
          ∀ modulus, (2 ^ 160) ^ 3 ≤ modulus → Verifies modulus hash signature := by
  obtain rfl := eq_inverseOfThree hd hinverse
  have hlt : powMod target inverseOfThree (2 ^ 160) < 2 ^ 160 := by
    rw [powMod_eq]
    exact Nat.mod_lt _ (Nat.two_pow_pos 160)
  have hcube : powMod target inverseOfThree (2 ^ 160) ^ 3 % 2 ^ 160 = target := by
    rw [cube_root hodd, Nat.mod_eq_of_lt htarget]
  have hroot : powMod target inverseOfThree (2 ^ 160) % 2 = 1 := odd_of_cube_eq hodd hcube
  have hunique : ∀ x, x < 2 ^ 160 → x ^ 3 % 2 ^ 160 = target →
      x = powMod target inverseOfThree (2 ^ 160) := by
    intro x hx hxcube
    have heq := eq_of_cube_eq (odd_of_cube_eq hodd hxcube) hroot (hxcube.trans hcube.symm)
    rwa [Nat.mod_eq_of_lt hx, Nat.mod_eq_of_lt hlt] at heq
  refine ⟨hlt, hcube, hroot, hunique, ?_⟩
  rintro hash rfl
  obtain ⟨s, hs, hforged, hscube⟩ := forgeSignature_spec (hash.isOdd_iff.2 hodd)
  have hread : ofLeBytes (leBytes 256 s) = s :=
    ofLeBytes_leBytes_of_lt (Nat.lt_of_lt_of_le hs (by norm_num))
  exact ⟨leBytes 256 s, hforged, leBytes_length 256 s, hread.trans (hunique s hs hscube),
    fun modulus hmodulus => verifies_of_cube hmodulus hs hscube⟩

/-- The hash whose number is 27 has the cube root three. -/
theorem forgeSignature_root_twentySeven :
    forgeSignature ⟨List.replicate 19 0 ++ [27], rfl⟩ = some (leBytes 256 3) := by
  have hnumber : Digest.toInt ⟨List.replicate 19 0 ++ [27], rfl⟩ = 27 := by decide
  have hinverse : 3 * inverseOfThree % 2 ^ 159 = 1 := by
    rw [three_mul_inverseOfThree]
    norm_num
  obtain ⟨-, -, -, hunique, hforged⟩ := forgeSignature_root (show 27 < 2 ^ 160 by norm_num)
    (by decide) (show inverseOfThree < 2 ^ 159 by decide) hinverse
  have hthree : 3 = powMod 27 inverseOfThree (2 ^ 160) := hunique 3 (by norm_num) (by norm_num)
  obtain ⟨signature, heq, hlength, hvalue, -⟩ := hforged _ hnumber
  have hbytes : signature = leBytes 256 3 := by
    apply ofLeBytes_inj
    · rw [hlength, leBytes_length]
    · rw [hvalue, ← hthree, ofLeBytes_leBytes_of_lt]
      exact Nat.lt_of_lt_of_le (show 3 < 2 ^ 2 by decide) (by norm_num)
  rw [heq, hbytes]

end Pmb887x.Fakesign
