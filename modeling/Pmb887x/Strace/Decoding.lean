import Pmb887x.Strace.Arguments
import Mathlib.Data.List.Basic
import Mathlib.Data.Nat.Bitwise
import Mathlib.Tactic.SplitIfs

set_option autoImplicit false

/-! # When the tracer prints the right arguments

`resolveRef` reads whole words for the inner pointers of a chain but keeps only as many bits of them as the
type has, and `readFuncArg` goes down the stack where the arguments go up. `decodes_iff` says for which
registers and memories this makes no difference. -/

namespace Pmb887x.Strace

open Library

variable {memory : Nat → UInt8} {regs : Registers} {size : Size}

/-! ## Reading memory -/

theorem Size.bits_div_eight (size : Size) : size.bits / 8 ≤ 4 := by
  cases size <;> decide

theorem valueAt_lt (memory : Nat → UInt8) (size : Size) (addr : Nat) :
    valueAt memory size addr < 2 ^ size.bits := by
  have hlt := ofLeBytes_lt ((List.range (size.bits / 8)).map fun i => memory (addr + i))
  rw [List.length_map, List.length_range] at hlt
  have hpow : 256 ^ (size.bits / 8) = 2 ^ size.bits := by cases size <;> rfl
  rwa [hpow] at hlt

theorem two_pow_bits_le (size : Size) : 2 ^ size.bits ≤ 2 ^ 32 := by
  cases size <;> decide

theorem valueAt_lt_word (memory : Nat → UInt8) (size : Size) (addr : Nat) :
    valueAt memory size addr < 2 ^ 32 :=
  Nat.lt_of_lt_of_le (valueAt_lt memory size addr) (two_pow_bits_le size)

theorem Registers.r_lt (regs : Registers) (n : Nat) : regs.r n < 2 ^ 32 := by
  match n with
  | 0 => exact regs.r0.toNat_lt
  | 1 => exact regs.r1.toNat_lt
  | 2 => exact regs.r2.toNat_lt
  | n + 3 => exact regs.r3.toNat_lt

theorem aapcsArgument_lt (memory : Nat → UInt8) (regs : Registers) (i : Nat) :
    aapcsArgument memory regs i < 2 ^ 32 := by
  rw [aapcsArgument]
  split_ifs
  · exact regs.r_lt i
  · exact valueAt_lt_word memory .s32 _

theorem mirroredArgument_lt (memory : Nat → UInt8) (regs : Registers) (i : Nat) :
    mirroredArgument memory regs i < 2 ^ 32 := by
  rw [mirroredArgument]
  split_ifs
  · exact regs.r_lt i
  · exact valueAt_lt_word memory .s32 _

theorem hexAddress_natCast {v : Nat} (h : v < 2 ^ 32) : hexAddress v = v := by
  unfold hexAddress
  omega

/-- The low bytes of what is read are the value there. -/
theorem unpack_readMem {n : Nat} (h : size.bits / 8 ≤ n) (addr : Nat) :
    size.unpack ((List.range n).map fun i => memory (addr + i)) = valueAt memory size addr := by
  rw [Size.unpack, ← List.map_take, List.take_range, Nat.min_eq_left h, valueAt]

/-- The low bits of a word are the value of their size there. -/
theorem valueAt_word (memory : Nat → UInt8) (size : Size) (addr : Nat) :
    valueAt memory .s32 addr % 2 ^ size.bits = valueAt memory size addr := by
  have hword : valueAt memory .s32 addr = (memory addr).toNat + 256 * ((memory (addr + 1)).toNat
      + 256 * ((memory (addr + 2)).toNat + 256 * (memory (addr + 3)).toNat)) := rfl
  have h0 := (memory addr).toNat_lt
  have h1 := (memory (addr + 1)).toNat_lt
  have h2 := (memory (addr + 2)).toNat_lt
  have h3 := (memory (addr + 3)).toNat_lt
  cases size with
  | s32 => exact Nat.mod_eq_of_lt (valueAt_lt memory .s32 addr)
  | s16 =>
      have hvalue : valueAt memory .s16 addr = (memory addr).toNat + 256 * (memory (addr + 1)).toNat :=
        rfl
      rw [hword, hvalue, Size.bits]
      omega
  | s8 =>
      have hvalue : valueAt memory .s8 addr = (memory addr).toNat := rfl
      rw [hword, hvalue, Size.bits]
      omega

/-- The code takes the mirrored word. -/
theorem readFuncArg_eq (memory : Nat → UInt8) (regs : Registers) (i : Nat) :
    readFuncArg (readMem memory) regs i = mirroredArgument memory regs i := by
  rw [readFuncArg, if_neg (by omega), mirroredArgument]
  by_cases h : i < 4
  · rw [if_pos (by omega), if_pos h, Int.toNat_natCast]
  · have haddr : (regs.sp.toNat : Int) + 4 * (4 - i) = regs.sp.toNat - 4 * ((i : Int) - 4) := by ring
    rw [if_neg (by omega), if_neg h, haddr]
    exact unpack_readMem (show Size.s32.bits / 8 ≤ 4 from Nat.le_refl 4) _

/-! ## Following pointers -/

/-- What `resolveRef` makes of a chain: every pointer read from memory loses its high bits. -/
def followShort (memory : Nat → UInt8) (size : Size) : (levels v : Nat) → List Nat × Nat
  | 0, v => ([], v)
  | levels + 1, v =>
      let (ptr, value) := followShort memory size levels (valueAt memory size v)
      (v :: ptr, value)

theorem endsInStar_append (arg : List Char) : endsInStar (arg ++ ['*']) = true := by
  rw [endsInStar, List.getLast?_append, List.getLast?_singleton, Option.some_or, beq_self_eq_true]

/-- `resolveRef`, on a type with any number of stars. -/
theorem resolveRef_eq {base : List Char} (hbase : endsInStar base = false) (levels : Nat) :
    ∀ {v : Nat}, v < 2 ^ 32 →
      resolveRef (readMem memory) v (base ++ List.replicate levels '*') size
        = followShort memory size levels v := by
  induction levels with
  | zero =>
      intro v _
      rw [List.replicate_zero, List.append_nil, resolveRef, dif_neg (by rw [hbase]; exact Bool.false_ne_true)]
      rfl
  | succ levels ih =>
      intro v hv
      have hread : (readMem memory) v
          (if endsInStars (base ++ List.replicate levels '*' ++ ['*']) then 4 else size.bits / 8)
          = some ((List.range (if endsInStars (base ++ List.replicate levels '*' ++ ['*']) then 4
              else size.bits / 8)).map fun i => memory (v + i)) := by
        rw [readMem, hexAddress_natCast hv]
      have henough : size.bits / 8 ≤
          if endsInStars (base ++ List.replicate levels '*' ++ ['*']) then 4 else size.bits / 8 := by
        split_ifs
        · exact size.bits_div_eight
        · exact Nat.le_refl _
      rw [List.replicate_succ', ← List.append_assoc, resolveRef, dif_pos (endsInStar_append _), hread]
      simp only [unpack_readMem henough, List.dropLast_concat]
      rw [ih (valueAt_lt_word memory size v)]
      rfl

theorem follow_succ (memory : Nat → UInt8) (size : Size) (levels v : Nat) :
    ∃ rest, (follow memory size (levels + 1) v).1 = v :: rest := by
  cases levels with
  | zero => exact ⟨[], rfl⟩
  | succ levels => exact ⟨_, rfl⟩

theorem follow_length (memory : Nat → UInt8) (size : Size) (levels : Nat) :
    ∀ v, (follow memory size levels v).1.length = levels := by
  induction levels with
  | zero => intro v; rfl
  | succ levels ih =>
      intro v
      cases levels with
      | zero => rfl
      | succ levels => exact congrArg (· + 1) (ih (valueAt memory .s32 v))

theorem followShort_length (memory : Nat → UInt8) (size : Size) (levels : Nat) :
    ∀ v, (followShort memory size levels v).1.length = levels := by
  induction levels with
  | zero => intro v; rfl
  | succ levels ih =>
      intro v
      exact congrArg (· + 1) (ih (valueAt memory size v))

/-- The pointers of a chain are words. -/
theorem follow_lt (memory : Nat → UInt8) (size : Size) (levels : Nat) :
    ∀ {v : Nat}, v < 2 ^ 32 → ∀ p ∈ (follow memory size levels v).1, p < 2 ^ 32 := by
  induction levels with
  | zero =>
      intro v _ p hp
      cases hp
  | succ levels ih =>
      intro v hv p hp
      cases levels with
      | zero =>
          rw [List.mem_singleton.1 hp]
          exact hv
      | succ levels =>
          rcases List.mem_cons.1 hp with rfl | hp
          · exact hv
          · exact ih (valueAt_lt_word memory .s32 v) p hp

theorem followShort_lt (memory : Nat → UInt8) (size : Size) (levels : Nat) :
    ∀ {v : Nat}, v < 2 ^ 32 → ∀ p ∈ (followShort memory size levels v).1, p < 2 ^ 32 := by
  induction levels with
  | zero =>
      intro v _ p hp
      cases hp
  | succ levels ih =>
      intro v hv p hp
      rcases List.mem_cons.1 hp with rfl | hp
      · exact hv
      · exact ih (valueAt_lt_word memory size v) p hp

/-- Short inner pointers lose nothing. -/
theorem followShort_eq_follow (levels : Nat) : ∀ {v : Nat},
    (∀ p ∈ (follow memory size (levels + 1) v).1.tail, p < 2 ^ size.bits) →
      followShort memory size (levels + 1) v = follow memory size (levels + 1) v := by
  induction levels with
  | zero => intro v _; rfl
  | succ levels ih =>
      intro v hshort
      have htail : (follow memory size (levels + 2) v).1.tail
          = (follow memory size (levels + 1) (valueAt memory .s32 v)).1 := rfl
      rw [htail] at hshort
      obtain ⟨rest, hrest⟩ := follow_succ memory size levels (valueAt memory .s32 v)
      have hfirst : valueAt memory .s32 v < 2 ^ size.bits :=
        hshort _ (by rw [hrest]; exact List.mem_cons_self)
      have hsame : valueAt memory size v = valueAt memory .s32 v := by
        rw [← valueAt_word, Nat.mod_eq_of_lt hfirst]
      have hchain := ih (v := valueAt memory .s32 v)
        fun p hp => hshort p (List.mem_of_mem_tail hp)
      rw [followShort, hsame, hchain]
      rfl

/-- Where the trails agree the inner pointers are short. -/
theorem short_of_trail_eq (levels : Nat) : ∀ {v : Nat},
    (followShort memory size levels v).1 = (follow memory size levels v).1 →
      ∀ p ∈ (follow memory size levels v).1.tail, p < 2 ^ size.bits := by
  induction levels with
  | zero =>
      intro v _ p hp
      cases hp
  | succ levels ih =>
      intro v htrail p hp
      cases levels with
      | zero => cases hp
      | succ levels =>
          have htails : (followShort memory size (levels + 1) (valueAt memory size v)).1
              = (follow memory size (levels + 1) (valueAt memory .s32 v)).1 :=
            (List.cons.inj htrail).2
          obtain ⟨rest, hrest⟩ := follow_succ memory size levels (valueAt memory .s32 v)
          have hhead : valueAt memory size v = valueAt memory .s32 v := by
            rw [hrest] at htails
            exact (List.cons.inj htails).1
          have hp : p ∈ (follow memory size (levels + 1) (valueAt memory .s32 v)).1 := hp
          rw [hrest] at hp
          rcases List.mem_cons.1 hp with rfl | hp
          · rw [← hhead]
            exact valueAt_lt memory size v
          · rw [hhead] at htails
            refine ih htails p ?_
            rw [hrest]
            exact hp

/-- The value behind a pointer has the bits of its size. -/
theorem follow_value_lt (memory : Nat → UInt8) (size : Size) (levels : Nat) :
    ∀ v, (follow memory size (levels + 1) v).2 < 2 ^ size.bits := by
  induction levels with
  | zero => exact fun v => valueAt_lt memory size v
  | succ levels ih => exact fun v => ih (valueAt memory .s32 v)

/-! ## Signs -/

/-- `$v & ~$sign` takes away a bit that is set. -/
theorem and_not_bit {v n : Nat} (hn : n < 64) (hset : v / 2 ^ n % 2 = 1) (hv : v < 2 ^ 64) :
    v &&& (2 ^ 64 - 1 - 2 ^ n) = v - 2 ^ n := by
  have hlow : v % 2 ^ n < 2 ^ n := Nat.mod_lt _ (Nat.two_pow_pos n)
  have hpow : 2 ^ (n + 1) = 2 ^ n + 2 ^ n := by rw [Nat.pow_succ, Nat.mul_two]
  have hsplit : v = 2 ^ (n + 1) * (v / 2 ^ (n + 1)) + (2 ^ n + v % 2 ^ n) := by
    have hhigh := Nat.div_add_mod v (2 ^ (n + 1))
    have hrest : v % 2 ^ (n + 1) = v % 2 ^ n + 2 ^ n := by
      rw [Nat.pow_succ, Nat.mod_mul, hset, Nat.mul_one]
    omega
  have hcleared : v - 2 ^ n = 2 ^ (n + 1) * (v / 2 ^ (n + 1)) + v % 2 ^ n := by omega
  have hmask : ∀ j, (2 ^ 64 - 1 - 2 ^ n).testBit j = (decide (j < 64) && !decide (n = j)) := by
    intro j
    have hlt : 2 ^ n < 2 ^ 64 := Nat.pow_lt_pow_right (by decide) hn
    rw [Nat.sub_sub, Nat.add_comm 1, Nat.testBit_two_pow_sub_succ hlt, Nat.testBit_two_pow]
  apply Nat.eq_of_testBit_eq
  intro j
  rw [Nat.testBit_and, hmask, hcleared, Nat.testBit_two_pow_mul_add _ (by omega)]
  by_cases hj : j < 64
  · conv_lhs => rw [hsplit, Nat.testBit_two_pow_mul_add _ (by omega)]
    rcases Nat.lt_trichotomy j n with hjn | rfl | hjn
    · -- below the bit nothing changes
      rw [if_pos (by omega), if_pos (by omega), Nat.testBit_two_pow_add_gt hjn]
      simp [hj, Nat.ne_of_gt hjn]
    · rw [if_pos (by omega), if_pos (by omega), Nat.testBit_lt_two_pow hlow]
      simp
    · rw [if_neg (by omega), if_neg (by omega)]
      simp [hj, Nat.ne_of_lt hjn]
  · have hhigh : v - 2 ^ n < 2 ^ j :=
      Nat.lt_of_le_of_lt (Nat.sub_le _ _)
        (Nat.lt_of_lt_of_le hv (Nat.pow_le_pow_right (by decide) (Nat.le_of_not_lt hj)))
    have hzero := Nat.testBit_lt_two_pow hhigh
    rw [hcleared, Nat.testBit_two_pow_mul_add _ (by omega)] at hzero
    rw [hzero]
    simp [hj]

/-- The code's sign rule. -/
theorem applySign_eq {v : Nat} (hv : v < 2 ^ 32) (size : Size) :
    applySign v size
      = if v / 2 ^ size.bits % 2 = 1 then (2 : Int) ^ size.bits - v else v := by
  have hbits : size.bits < 64 := by cases size <;> decide
  have hword : v < 2 ^ 64 := Nat.lt_trans hv (by decide)
  have hsign : v &&& 1 <<< size.bits = if v / 2 ^ size.bits % 2 = 1 then 2 ^ size.bits else 0 := by
    rw [Nat.one_shiftLeft, Nat.and_two_pow, Nat.testBit_eq_decide_div_mod_eq]
    split_ifs with h
    · simp [h]
    · simp [h]
  rw [applySign, hsign]
  by_cases h : v / 2 ^ size.bits % 2 = 1
  · have hle : 2 ^ size.bits ≤ v := by
      by_contra hlt
      rw [Nat.div_eq_of_lt (Nat.lt_of_not_le hlt)] at h
      cases h
    have hne : 2 ^ size.bits ≠ 0 := Nat.ne_of_gt (Nat.two_pow_pos _)
    simp only [if_pos h, if_pos hne, and_not_bit hbits h hword, Nat.cast_sub hle]
    push_cast
    ring
  · have hself : v &&& (2 ^ 64 - 1 - 0) = v := by
      rw [Nat.sub_zero, Nat.and_two_pow_sub_one_eq_mod, Nat.mod_eq_of_lt hword]
    simp only [if_neg h, hself]
    rw [if_neg (fun hne => hne rfl), Int.one_mul]

/-- The printed number is the one of `a` where the two words agree. -/
theorem applySign_eq_bmod_iff {w a : Nat} (hw : w < 2 ^ 32) (size : Size) :
    applySign w size = Int.bmod a (2 ^ size.bits) ↔ SignedAgree size w a := by
  rw [applySign_eq hw, SignedAgree, Int.bmod_def]
  cases size with
  | s32 =>
      simp only [Size.bits]
      split_ifs <;> omega
  | s16 =>
      simp only [Size.bits]
      split_ifs <;> omega
  | s8 =>
      simp only [Size.bits]
      split_ifs <;> omega

/-! ## Texts -/

theorem hexText_inj {m n : Nat} (h : hexText m = hexText n) : m = n := by
  have hdigits : hexNat m = hexNat n := (List.cons.inj (List.cons.inj h).2).2
  have hnumber := congrArg hexNumber hdigits
  rw [hexNumber_hexNat, hexNumber_hexNat] at hnumber
  exact Option.some.inj hnumber

theorem toDigits_inj {m n : Nat} (h : Nat.toDigits 10 m = Nat.toDigits 10 n) : m = n := by
  rw [← Nat.ofDigitChars_ten_toDigits (n := m), h, Nat.ofDigitChars_ten_toDigits]

/-- A sign is no digit. -/
theorem cons_minus_ne_toDigits (digits : List Char) (n : Nat) : '-' :: digits ≠ Nat.toDigits 10 n := by
  intro h
  have hdigit : ('-').isDigit = true :=
    Nat.isDigit_of_mem_toDigits (by decide) (Nat.le_refl 10) (h ▸ List.mem_cons_self)
  exact absurd hdigit (by decide)

theorem decimal_inj {y z : Int} (h : decimal y = decimal z) : y = z := by
  rw [decimal, decimal] at h
  split_ifs at h with hy hz hz
  · have habs := toDigits_inj (List.cons.inj h).2
    omega
  · exact absurd h (cons_minus_ne_toDigits _ _)
  · exact absurd h.symm (cons_minus_ne_toDigits _ _)
  · have habs := toDigits_inj h
    omega

theorem pointerText_length {v : Nat} (h : v < 2 ^ 32) : (pointerText v).length = 11 := by
  rw [pointerText, hexPadded_of_lt (by decide) (Nat.lt_of_lt_of_le h (by decide))]
  exact congrArg (· + 3) (hexFixed_length 8 v)

theorem pointerText_inj {u v : Nat} (hu : u < 2 ^ 32) (hv : v < 2 ^ 32)
    (h : pointerText u = pointerText v) : u = v := by
  have hpow : 2 ^ 32 ≤ 16 ^ 8 := by decide
  have hdigits : hexPadded 8 u = hexPadded 8 v := (List.cons.inj (List.cons.inj (List.cons.inj h).2).2).2
  rw [hexPadded_of_lt (by decide) (Nat.lt_of_lt_of_le hu hpow),
    hexPadded_of_lt (by decide) (Nat.lt_of_lt_of_le hv hpow)] at hdigits
  have hnumber := congrArg hexNumber hdigits
  rw [hexNumber_hexFixed (Nat.lt_of_lt_of_le hu hpow),
    hexNumber_hexFixed (Nat.lt_of_lt_of_le hv hpow)] at hnumber
  exact Option.some.inj hnumber

/-- The trail of a pointer chain can be read back from its text, whatever follows. -/
theorem trailText_inj : ∀ {ptr ptr' : List Nat} {x y : List Char}, ptr.length = ptr'.length →
    (∀ p ∈ ptr, p < 2 ^ 32) → (∀ p ∈ ptr', p < 2 ^ 32) →
    List.intercalate ['-', '>'] (ptr.map pointerText) ++ x
      = List.intercalate ['-', '>'] (ptr'.map pointerText) ++ y → ptr = ptr' ∧ x = y := by
  intro ptr
  induction ptr with
  | nil =>
      intro ptr' x y hlen _ _ h
      obtain rfl := List.eq_nil_of_length_eq_zero hlen.symm
      exact ⟨rfl, h⟩
  | cons p ptr ih =>
      intro ptr' x y hlen hp hp' h
      obtain _ | ⟨p', ptr'⟩ := ptr'
      · cases hlen
      have hplt : p < 2 ^ 32 := hp p List.mem_cons_self
      have hplt' : p' < 2 ^ 32 := hp' p' List.mem_cons_self
      have hlengths : (pointerText p).length = (pointerText p').length := by
        rw [pointerText_length hplt, pointerText_length hplt']
      obtain _ | ⟨q, ptr⟩ := ptr
      · obtain rfl := List.eq_nil_of_length_eq_zero (Nat.succ.inj hlen).symm
        rw [List.map_singleton, List.map_singleton, List.intercalate_singleton,
          List.intercalate_singleton] at h
        obtain ⟨hfirst, hrest⟩ := List.append_inj h hlengths
        exact ⟨by rw [pointerText_inj hplt hplt' hfirst], hrest⟩
      · obtain _ | ⟨q', ptr'⟩ := ptr'
        · cases hlen
        rw [List.map_cons, List.map_cons, List.map_cons, List.map_cons, List.intercalate_cons_cons,
          List.intercalate_cons_cons, List.append_assoc, List.append_assoc, List.append_assoc,
          List.append_assoc] at h
        obtain ⟨hfirst, hrest⟩ := List.append_inj h hlengths
        obtain ⟨htail, hxy⟩ := ih (Nat.succ.inj hlen) (fun r hr => hp r (List.mem_cons_of_mem p hr))
          (fun r hr => hp' r (List.mem_cons_of_mem p' hr)) (List.append_cancel_left hrest)
        exact ⟨by rw [pointerText_inj hplt hplt' hfirst, htail], hxy⟩

theorem argumentText_eq_iff {ptr ptr' : List Nat} {x y : List Char} (hlen : ptr.length = ptr'.length)
    (hp : ∀ p ∈ ptr, p < 2 ^ 32) (hp' : ∀ p ∈ ptr', p < 2 ^ 32) :
    argumentText ptr x = argumentText ptr' y ↔ ptr = ptr' ∧ x = y := by
  constructor
  · intro h
    obtain _ | ⟨p, rest⟩ := ptr
    · obtain rfl := List.eq_nil_of_length_eq_zero hlen.symm
      exact ⟨rfl, h⟩
    · obtain _ | ⟨p', rest'⟩ := ptr'
      · cases hlen
      rw [argumentText, argumentText, if_neg (List.cons_ne_nil _ _), if_neg (List.cons_ne_nil _ _)] at h
      obtain ⟨htrail, hvalue⟩ := trailText_inj hlen hp hp' (List.cons.inj h).2
      exact ⟨htrail, (List.cons.inj hvalue).2⟩
  · rintro ⟨rfl, rfl⟩
    rfl

/-! ## One argument -/

/-- What the code prints for a value. -/
def IntegerType.printed (type : IntegerType) (v : Nat) : List Char :=
  if type.signed then decimal (applySign v type.size) else hexText v

theorem endsInStar_base (type : IntegerType) : endsInStar type.base = false := by
  obtain ⟨signed, size, levels⟩ := type
  cases signed <;> cases size <;> rfl

/-- An integer type is recognised by its text. -/
theorem readFuncArgWithType_eq (memory : Nat → UInt8) (regs : Registers) (i : Nat)
    (type : IntegerType) :
    readFuncArgWithType (readMem memory) regs i type.text
      = some ((followShort memory type.size type.levels (mirroredArgument memory regs i)).1,
          type.printed (followShort memory type.size type.levels (mirroredArgument memory regs i)).2) := by
  have hresolve : resolveRef (readMem memory) (mirroredArgument memory regs i)
      (type.base ++ List.replicate type.levels '*') type.size
        = followShort memory type.size type.levels (mirroredArgument memory regs i) :=
    resolveRef_eq (endsInStar_base type) type.levels (mirroredArgument_lt memory regs i)
  rw [readFuncArgWithType, readFuncArg_eq]
  obtain ⟨signed, size, levels⟩ := type
  cases signed with
  | false =>
      have hmatch : matchUint (IntegerType.text ⟨false, size, levels⟩) = some size := by
        cases size <;> rfl
      simp only [hmatch]
      rw [IntegerType.text, hresolve]
      rfl
  | true =>
      have hnone : matchUint (IntegerType.text ⟨true, size, levels⟩) = none := by
        cases size <;> rfl
      have hmatch : matchInt (IntegerType.text ⟨true, size, levels⟩) = some size := by
        cases size <;> rfl
      simp only [hnone, hmatch]
      rw [IntegerType.text, hresolve]
      rfl

theorem signedAgree_self_iff {v : Nat} (h : v < 2 ^ size.bits) :
    SignedAgree size v v ↔ v < 2 ^ (size.bits - 1) := by
  rw [SignedAgree, Nat.mod_eq_of_lt h]
  constructor
  · rintro (⟨hlt, -⟩ | ⟨hle, -⟩)
    · exact hlt
    · omega
  · exact fun hlt => .inl ⟨hlt, rfl⟩

/-- The printed value is right for one word if the sign rule is. -/
theorem printed_eq_print_iff {w a : Nat} (hw : w < 2 ^ 32) (type : IntegerType) :
    type.printed w = type.print a ↔
      if type.signed then SignedAgree type.size w a else w = a % 2 ^ type.size.bits := by
  rw [IntegerType.printed, IntegerType.print]
  split_ifs
  · rw [← applySign_eq_bmod_iff hw]
    exact ⟨decimal_inj, congrArg decimal⟩
  · exact ⟨hexText_inj, congrArg hexText⟩

/-- The text of an argument is right exactly under its condition. -/
theorem argument_iff (memory : Nat → UInt8) (regs : Registers) (i : Nat) (type : IntegerType) :
    argumentText (followShort memory type.size type.levels (mirroredArgument memory regs i)).1
        (type.printed (followShort memory type.size type.levels (mirroredArgument memory regs i)).2)
      = type.expected memory (aapcsArgument memory regs i) ↔ ArgumentOk memory regs i type := by
  have hw := mirroredArgument_lt memory regs i
  have ha := aapcsArgument_lt memory regs i
  rw [IntegerType.expected, argumentText_eq_iff (by rw [followShort_length, follow_length])
    (followShort_lt memory type.size type.levels hw) (follow_lt memory type.size type.levels ha),
    ArgumentOk]
  generalize mirroredArgument memory regs i = w at *
  generalize aapcsArgument memory regs i = a at *
  obtain ⟨signed, size, levels⟩ := type
  cases levels with
  | zero =>
      dsimp only
      rw [if_pos rfl, ← printed_eq_print_iff hw ⟨signed, size, 0⟩]
      exact ⟨And.right, fun h => ⟨rfl, h⟩⟩
  | succ levels =>
      dsimp only
      rw [if_neg (Nat.succ_ne_zero levels)]
      have hvalue := follow_value_lt memory size levels a
      -- where the chain is right its value prints right unless it is negative
      have hprint : IntegerType.printed ⟨signed, size, levels + 1⟩ (follow memory size (levels + 1) a).2
          = IntegerType.print ⟨signed, size, levels + 1⟩ (follow memory size (levels + 1) a).2 ↔
            (signed = true → (follow memory size (levels + 1) a).2 < 2 ^ (size.bits - 1)) := by
        rw [printed_eq_print_iff (Nat.lt_of_lt_of_le hvalue (two_pow_bits_le size))]
        cases signed with
        | false => exact ⟨fun _ h => absurd h Bool.false_ne_true, fun _ => (Nat.mod_eq_of_lt hvalue).symm⟩
        | true => exact (signedAgree_self_iff hvalue).trans ⟨fun h _ => h, fun h => h rfl⟩
      constructor
      · rintro ⟨htrail, htext⟩
        have hwa : w = a := by
          obtain ⟨rest, hrest⟩ := follow_succ memory size levels a
          rw [hrest] at htrail
          exact (List.cons.inj htrail).1
        subst hwa
        have hshort := short_of_trail_eq (levels + 1) htrail
        rw [followShort_eq_follow levels hshort] at htext
        exact ⟨rfl, hshort, hprint.1 htext⟩
      · rintro ⟨rfl, hshort, hsign⟩
        rw [followShort_eq_follow levels hshort]
        exact ⟨rfl, hprint.2 hsign⟩

/-! ## All arguments -/

/-- `@decoded`, argument by argument. -/
theorem decodeArgs_eq (memory : Nat → UInt8) (regs : Registers) (types : List IntegerType) :
    ∀ argId : Nat, decodeArgs (readMem memory) regs argId (types.map IntegerType.text)
      = some (types.mapIdx fun i type =>
          argumentText
            (followShort memory type.size type.levels (mirroredArgument memory regs (argId + i))).1
            (type.printed
              (followShort memory type.size type.levels (mirroredArgument memory regs (argId + i))).2)) := by
  induction types with
  | nil => exact fun _ => rfl
  | cons type types ih =>
      intro argId
      have hnext := ih (argId + 1)
      rw [List.map_cons, decodeArgs, readFuncArgWithType_eq, hnext, List.mapIdx_cons]
      simp only [Option.bind_eq_bind, Option.bind_some, Option.pure_def, Nat.add_zero,
        Nat.add_assoc, Nat.add_comm 1]

theorem decodesFrom_iff (memory : Nat → UInt8) (regs : Registers) (argId : Nat)
    (types : List IntegerType) :
    DecodesFrom memory regs argId types ↔
      ∀ (i : Nat) (h : i < types.length), ArgumentOk memory regs (argId + i) types[i] := by
  rw [DecodesFrom, decodeArgs_eq, Option.some_inj, List.mapIdx_eq_mapIdx_iff]
  exact forall_congr' fun i => forall_congr' fun h => argument_iff memory regs (argId + i) types[i]

/-- **When a call is traced right.** The tracer prints the arguments of a call as the calling convention and
their types say if and only if every one of them meets its condition. -/
theorem decodes_iff (memory : Nat → UInt8) (regs : Registers) (types : List IntegerType) :
    Decodes memory regs types ↔
      ∀ (i : Nat) (h : i < types.length), ArgumentOk memory regs i types[i] := by
  rw [Decodes, decodesFrom_iff]
  simp only [Nat.zero_add]

/-- A first argument of `-1` is printed as `4294967295`. -/
theorem minusOne_not_decodes :
    ¬ Decodes (fun _ => 0) ⟨0xFFFFFFFF, 0, 0, 0, 0⟩ [⟨true, .s32, 0⟩] := by
  intro h
  have hok : ArgumentOk (fun _ => 0) ⟨0xFFFFFFFF, 0, 0, 0, 0⟩ 0 ⟨true, .s32, 0⟩ :=
    (decodesFrom_iff _ _ 0 _).1 h 0 Nat.one_pos
  have hagree : SignedAgree .s32 0xFFFFFFFF 0xFFFFFFFF := hok
  rcases hagree with ⟨hlt, -⟩ | ⟨hle, -⟩
  · exact absurd hlt (by decide)
  · exact absurd hle (by decide)

end Pmb887x.Strace
