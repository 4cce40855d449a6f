import Pmb887x.Library.BitFields
import Pmb887x.Library.Convolution

set_option autoImplicit false

/-! # The SCH vectors (`sch-decoder-vectors.c`)

`sch_encode` builds the 78 coded bits of a synchronization burst from its 25 information bits: ten check bits
and four tail bits behind them, and a convolutional code of rate 1/2. The check bits are always ones, since
the feedback of the CRC loop looks at bit 10 before the shift, where the register has no such bit
(`schUncoded_eq`). The code alone keeps the bursts apart: any two differ in seven places and over a span of
ten, so the vector with eight erased bits still has one reading (`schEncode_apart`). -/

namespace Pmb887x.Dsp

open Library

/-! ## The encoder -/

def parity (value : UInt8) : UInt8 :=
  let value := value ^^^ (value >>> 4)
  let value := value ^^^ (value >>> 2)
  let value := value ^^^ (value >>> 1)
  value &&& 1

/-- The body of the CRC loop; `crc & BIT(10)` is evaluated before `crc` is assigned. -/
def schCrcStep (crc : UInt16) (bit : Bool) : UInt16 :=
  let crc := crc ^^^ (bit.toUInt16 <<< 9)
  let crc := (crc <<< 1) ^^^ (if crc &&& 0x400 ≠ 0 then 0x175 else 0)
  crc &&& 0x3FF

/-- `uncoded`: the information, the check bits and the tail. -/
def schUncoded (information : List Bool) : List Bool :=
  let crc := information.foldl schCrcStep 0 ^^^ 0x3FF
  information ++ (List.range 10).map (fun i => (crc >>> UInt16.ofNat (9 - i)) &&& 1 == 1) ++
    List.replicate 4 false

/-- `(state << 1) | uncoded[i]` -/
def history (state : UInt8) (bit : Bool) : UInt8 := (state <<< 1) ||| bit.toUInt8

/-- The convolution loop, from `state` on. -/
def schEncodeFrom : UInt8 → List Bool → List Bool
  | _, [] => []
  | state, bit :: bits =>
      [parity (history state bit &&& 0x19) == 1, parity (history state bit &&& 0x1B) == 1]
        ++ schEncodeFrom (history state bit &&& 0x0F) bits

def schEncode (information : List Bool) : List Bool := schEncodeFrom 0 (schUncoded information)

inductive SchVectorKind where
  | valid
  | disturbed
  | invalid
  deriving DecidableEq

def softOne : Int8 := -127
def softZero : Int8 := 127

/-- `soft` of `prepare_input` for the coded bit `i`. -/
def softValue (kind : SchVectorKind) (i : Nat) (bit : Bool) : Int8 :=
  let bit := if kind = .invalid ∧ i < 24 then !bit else bit
  let soft := if bit then softOne else softZero
  if kind = .disturbed ∧ i ≥ 24 ∧ i < 32 then 0 else soft

def prepareInput (kind : SchVectorKind) (information : List Bool) : List UInt16 :=
  let soft := fun i => (softValue kind i ((schEncode information).getD i false)).toUInt8.toUInt16
  (List.range 39).map fun n => soft (2 * n) ||| (soft (2 * n + 1) <<< 8)

/-! ## The check bits -/

theorem schCrcStep_zero (bit : Bool) : schCrcStep 0 bit = 0 := by
  cases bit <;> decide

/-- The check bits do not depend on the information. -/
theorem schUncoded_eq (information : List Bool) :
    schUncoded information = information ++ (List.replicate 10 true ++ List.replicate 4 false) := by
  have hcrc : information.foldl schCrcStep 0 = 0 := by
    induction information with
    | nil => rfl
    | cons bit information ih => rw [List.foldl_cons, schCrcStep_zero, ih]
  rw [schUncoded, hcrc, List.append_assoc]
  congr 2

/-! ## The code -/

/-- `G0 = 1 + D^3 + D^4` and `G1 = 1 + D + D^3 + D^4`. -/
def schCode : ShiftCode 4 := ⟨[0x19#5, 0x1B#5]⟩

theorem schEncodeFrom_eq (state : BitVec 4) (bits : List Bool) :
    schEncodeFrom (UInt8.ofBitVec (state.setWidth 8)) bits = schCode.encode state bits := by
  have hstep : ∀ (state : BitVec 4) (bit : Bool),
      [parity (history (UInt8.ofBitVec (state.setWidth 8)) bit &&& 0x19) == 1,
        parity (history (UInt8.ofBitVec (state.setWidth 8)) bit &&& 0x1B) == 1] = schCode.output state bit ∧
      history (UInt8.ofBitVec (state.setWidth 8)) bit &&& 0x0F
        = UInt8.ofBitVec ((ShiftCode.next state bit).setWidth 8) := by
    decide
  induction bits generalizing state with
  | nil => rfl
  | cons bit bits ih => rw [schEncodeFrom, ShiftCode.encode, (hstep state bit).1, (hstep state bit).2, ih]

theorem schEncode_eq (information : List Bool) :
    schEncode information = schCode.encode 0#4 (schUncoded information) :=
  schEncodeFrom_eq 0#4 _

/-- The least weight of a way back to the empty register. -/
def schPotential (state : BitVec 4) : Nat :=
  [0, 5, 4, 4, 4, 5, 4, 3, 2, 5, 5, 4, 2, 5, 2, 3].getD state.toNat 0

theorem isPotential_schPotential : schCode.IsPotential schPotential := by
  unfold ShiftCode.IsPotential
  decide

/-! ## Two bursts -/

theorem differences_append_self {xs ys : List Bool} (h : xs.length = ys.length) (zs : List Bool) :
    differences (xs ++ zs) (ys ++ zs) = differences xs ys ++ List.replicate zs.length false := by
  have hself : differences zs zs = List.replicate zs.length false := by
    rw [differences, List.zipWith_self, ← List.map_const']
    exact List.map_congr_left fun b _ => Bool.xor_self b
  rw [← hself]
  exact List.zipWith_append h

/-- The tail empties the register. -/
theorem endState_tail (s : BitVec 4) (bits : List Bool) :
    ShiftCode.endState s (bits ++ List.replicate 14 false) = 0#4 := by
  have hall : ∀ t : BitVec 4, ShiftCode.endState t (List.replicate 14 false) = 0#4 := by
    unfold ShiftCode.endState
    decide
  rw [ShiftCode.endState, List.foldl_append]
  exact hall _

theorem differences_schEncode {information information' : List Bool}
    (hlength : information.length = information'.length) :
    differences (schEncode information) (schEncode information')
      = schCode.encode 0#4 (differences information information' ++ List.replicate 14 false) := by
  rw [schEncode_eq, schEncode_eq, schUncoded_eq, schUncoded_eq,
    ShiftCode.differences_encode _ _ _ (by simp [hlength]), BitVec.xor_self,
    differences_append_self hlength]
  rfl

/-- The last one of a string. -/
theorem exists_last_true {bits : List Bool} (h : true ∈ bits) :
    ∃ front m, bits = front ++ true :: List.replicate m false := by
  obtain ⟨m, back, hback⟩ := exists_first_true (List.mem_reverse.mpr h)
  refine ⟨back.reverse, m, ?_⟩
  have hbits := congrArg List.reverse hback
  rw [List.reverse_reverse] at hbits
  rw [hbits, List.reverse_append, List.reverse_cons, List.reverse_replicate, List.append_assoc]
  rfl

/-- The first one of the difference shows at once. -/
theorem encode_first (n : Nat) (back : List Bool) :
    (schCode.encode 0#4 (List.replicate n false ++ true :: back))[2 * n]? = some true := by
  have hfirst : schCode.output 0#4 true = [true, true] := by decide
  rw [ShiftCode.encode_append, ShiftCode.encode_zeros, ShiftCode.endState_zeros, ShiftCode.encode, hfirst,
    List.getElem?_append_right (by rw [List.length_replicate]; exact Nat.le_refl _), List.length_replicate]
  rw [show schCode.masks.length * n = 2 * n from rfl, Nat.sub_self]
  rfl

/-- The last one of the difference shows until it leaves the register. -/
theorem encode_last (front : List Bool) (m : Nat) :
    (schCode.encode 0#4 (front ++ true :: List.replicate (4 + m) false))[2 * front.length + 9]?
      = some true := by
  have hlast : ∀ s : BitVec 4, ∃ coded, coded.length = 8 ∧
      schCode.encode s (true :: List.replicate 4 false) = coded ++ [true, true] := by
    intro s
    refine ⟨(schCode.encode s (true :: List.replicate 4 false)).take 8, ?_, ?_⟩
    · rw [List.length_take, ShiftCode.length_encode]
      rfl
    · revert s
      decide
  obtain ⟨coded, hlength, hcoded⟩ := hlast (ShiftCode.endState 0#4 front)
  have hfront : (schCode.encode 0#4 front).length = 2 * front.length := ShiftCode.length_encode _ _ _
  rw [List.replicate_add, ← List.cons_append, ShiftCode.encode_append, ShiftCode.encode_append, hcoded,
    List.getElem?_append_right (by omega), hfront, Nat.add_sub_cancel_left,
    List.append_assoc, List.getElem?_append_right (by omega), hlength]
  rfl

theorem ne_of_differences {xs ys : List Bool} {i : Nat} (h : (differences xs ys)[i]? = some true) :
    xs[i]? ≠ ys[i]? := by
  intro hsame
  rw [differences, List.getElem?_zipWith, hsame] at h
  cases hy : ys[i]? with
  | none => simp [hy] at h
  | some y => simp [hy] at h

/-- The burst of one information cannot pass for another's within nine places. -/
theorem not_differWithin_schEncode {information information' : List Bool}
    (hlength : information.length = information'.length) (hne : information ≠ information') :
    ¬ DifferWithin 9 (schEncode information) (schEncode information') := by
  rintro ⟨-, -, start, hsame⟩
  have hdiff := differences_schEncode hlength
  have hmem := true_mem_differences hlength hne
  obtain ⟨n, back, hfirst⟩ := exists_first_true hmem
  obtain ⟨front, m, hlast⟩ := exists_last_true hmem
  -- the first place and the last one
  have hplace := encode_first n (back ++ List.replicate 14 false)
  rw [← List.cons_append, ← List.append_assoc, ← hfirst, ← hdiff] at hplace
  have hplace' := encode_last front (m + 10)
  rw [show 4 + (m + 10) = m + 14 by omega, List.replicate_add, ← List.cons_append, ← List.append_assoc,
    ← hlast, ← hdiff] at hplace'
  have hstart : start ≤ 2 * n := by
    by_contra hbefore
    exact ne_of_differences hplace (hsame _ (.inl (by omega)))
  have hend : 2 * front.length + 9 < start + 9 := by
    by_contra hbehind
    exact ne_of_differences hplace' (hsame _ (.inr (by omega)))
  have horder : n ≤ front.length := by
    by_contra hless
    have hzero : (differences information information')[front.length]? = some false := by
      rw [hfirst, List.getElem?_append_left (by rw [List.length_replicate]; omega),
        List.getElem?_replicate, if_pos (by omega)]
    have hone : (differences information information')[front.length]? = some true := by
      rw [hlast, List.getElem?_append_right (Nat.le_refl _), Nat.sub_self]
      rfl
    rw [hzero] at hone
    cases hone
  omega

theorem seven_le_distance {information information' : List Bool}
    (hlength : information.length = information'.length) (hne : information ≠ information') :
    7 ≤ (differences (schEncode information) (schEncode information')).count true := by
  rw [differences_schEncode hlength]
  have hweight := ShiftCode.weight_encode_ge isPotential_schPotential rfl
    (List.mem_append_left (List.replicate 14 false) (true_mem_differences hlength hne)) (endState_tail _ _)
  have hfirst : (schCode.output 0#4 true).count true + schPotential (ShiftCode.next 0#4 true) = 7 := by decide
  rwa [hfirst] at hweight

/-! ## The input words -/

theorem length_schEncode {information : List Bool} (h : information.length = 25) :
    (schEncode information).length = 78 := by
  rw [schEncode_eq, ShiftCode.length_encode, schUncoded_eq]
  simp [h, schCode]

/-- A word keeps both of its bytes. -/
theorem bytes_of_word {a b a' b' : UInt8}
    (h : a.toUInt16 ||| (b.toUInt16 <<< 8) = a'.toUInt16 ||| (b'.toUInt16 <<< 8)) : a = a' ∧ b = b' := by
  have hword : ∀ x y : UInt8, (x.toUInt16 ||| (y.toUInt16 <<< 8)).toNat = x.toNat + 2 ^ 8 * y.toNat := by
    intro x y
    have hx := x.toNat_lt
    have hy := y.toNat_lt
    rw [UInt16.toNat_or, UInt16.toNat_shiftLeft, UInt8.toNat_toUInt16, UInt8.toNat_toUInt16]
    change x.toNat ||| y.toNat <<< 8 % 2 ^ 16 = _
    rw [Nat.mod_eq_of_lt (by rw [Nat.shiftLeft_eq]; omega), or_shiftLeft hx]
  have hnat := congrArg UInt16.toNat h
  rw [hword, hword] at hnat
  have ha := a.toNat_lt
  have ha' := a'.toNat_lt
  exact ⟨UInt8.toNat_inj.mp (by omega), UInt8.toNat_inj.mp (by omega)⟩

/-- The places whose soft value says nothing. -/
def Erased (kind : SchVectorKind) (i : Nat) : Prop := kind = .disturbed ∧ i ≥ 24 ∧ i < 32

theorem softValue_inj {kind : SchVectorKind} {i : Nat} (herased : ¬ Erased kind i) {b b' : Bool}
    (h : softValue kind i b = softValue kind i b') : b = b' := by
  unfold Erased at herased
  simp only [softValue, if_neg herased] at h
  by_cases hinvert : kind = .invalid ∧ i < 24
  · rw [if_pos hinvert, if_pos hinvert] at h
    cases b <;> cases b' <;> first | rfl | exact absurd h (by decide)
  · rw [if_neg hinvert, if_neg hinvert] at h
    cases b <;> cases b' <;> first | rfl | exact absurd h (by decide)

/-- Equal input words have equal coded bits where they are not erased. -/
theorem coded_of_prepareInput {kind : SchVectorKind} {information information' : List Bool}
    (h : prepareInput kind information = prepareInput kind information') {i : Nat} (hi : i < 78)
    (herased : ¬ Erased kind i) :
    (schEncode information).getD i false = (schEncode information').getD i false := by
  unfold prepareInput at h
  have hword := bytes_of_word (List.map_inj_left.mp h (i / 2) (List.mem_range.mpr (by omega)))
  refine softValue_inj herased ?_
  rcases Nat.mod_two_eq_zero_or_one i with hparity | hparity
  · rw [show i = 2 * (i / 2) by omega]
    exact congrArg UInt8.toInt8 hword.1
  · rw [show i = 2 * (i / 2) + 1 by omega]
    exact congrArg UInt8.toInt8 hword.2

/-- **Any two bursts are apart.** The coded bits of two different informations differ in at least seven of
    the 78 places, and never within nine consecutive ones only; so each of the three vectors, the one with
    eight erased soft values among them, is built from one information only. -/
theorem schEncode_apart (information information' : List Bool) (h : information.length = 25)
    (h' : information'.length = 25) (hne : information ≠ information') :
    7 ≤ (differences (schEncode information) (schEncode information')).count true ∧
      ¬ DifferWithin 9 (schEncode information) (schEncode information') ∧
      ∀ kind, prepareInput kind information ≠ prepareInput kind information' := by
  have hlength : information.length = information'.length := h.trans h'.symm
  have hspan := not_differWithin_schEncode hlength hne
  have hcoded : schEncode information ≠ schEncode information' := by
    intro hsame
    have hdistance := seven_le_distance hlength hne
    rw [hsame, differences, List.zipWith_self] at hdistance
    have hnone : (List.map (fun b : Bool => b ^^ b) (schEncode information')).count true = 0 := by
      rw [List.count_eq_zero]
      simp
    omega
  refine ⟨seven_le_distance hlength hne, hspan, fun kind hwords => hspan ⟨?_, hcoded, 24, fun i hi => ?_⟩⟩
  · rw [length_schEncode h, length_schEncode h']
  · by_cases hin : i < 78
    · have hbit := coded_of_prepareInput hwords hin (fun he => by
        obtain ⟨-, hlow, hhigh⟩ := he
        omega)
      have hi₁ : i < (schEncode information).length := by rwa [length_schEncode h]
      have hi₂ : i < (schEncode information').length := by rwa [length_schEncode h']
      rw [List.getElem?_eq_getElem hi₁, List.getElem?_eq_getElem hi₂]
      rw [List.getD_eq_getElem _ _ hi₁, List.getD_eq_getElem _ _ hi₂] at hbit
      rw [hbit]
    · rw [List.getElem?_eq_none (by rw [length_schEncode h]; omega),
        List.getElem?_eq_none (by rw [length_schEncode h']; omega)]

/-- Two informations that differ in the first bit. -/
theorem schEncode_apart_first :
    7 ≤ (differences (schEncode (List.replicate 25 false))
      (schEncode (true :: List.replicate 24 false))).count true :=
  (schEncode_apart (List.replicate 25 false) (true :: List.replicate 24 false) rfl rfl (by decide)).1

end Pmb887x.Dsp
