import Pmb887x.Library.CrcDistance

set_option autoImplicit false

/-! # Convolutional codes of a shift register

The register holds the last `k` bits; with the new bit behind them each mask selects the bits of one parity.
The code is linear, so the distance of two coded strings is the weight of one (`differences_encode`). A
potential on the states bounds that weight from below (`potential_le_weight`). -/

namespace Pmb887x.Library

variable {k w : Nat}

/-- The parity of a word. -/
def parityOf (v : BitVec w) : Bool := (List.range w).foldr (fun i p => v.getLsbD i ^^ p) false

theorem parityOf_xor (a b : BitVec w) : parityOf (a ^^^ b) = (parityOf a ^^ parityOf b) := by
  have hall : ∀ l : List Nat, l.foldr (fun i p => (a ^^^ b).getLsbD i ^^ p) false
      = (l.foldr (fun i p => a.getLsbD i ^^ p) false ^^ l.foldr (fun i p => b.getLsbD i ^^ p) false) := by
    intro l
    induction l with
    | nil => rfl
    | cons i l ih =>
        rw [List.foldr_cons, List.foldr_cons, List.foldr_cons, ih, BitVec.getLsbD_xor]
        cases a.getLsbD i <;> cases b.getLsbD i <;> simp
  exact hall (List.range w)

/-- A code: one mask for each coded bit. -/
structure ShiftCode (k : Nat) where
  masks : List (BitVec (k + 1))

namespace ShiftCode

/-- The register behind the new bit. -/
def next (s : BitVec k) (b : Bool) : BitVec k := (s.concat b).setWidth k

def output (code : ShiftCode k) (s : BitVec k) (b : Bool) : List Bool :=
  code.masks.map fun mask => parityOf (s.concat b &&& mask)

def encode (code : ShiftCode k) : BitVec k → List Bool → List Bool
  | _, [] => []
  | s, b :: bits => code.output s b ++ code.encode (next s b) bits

/-- The register behind a string. -/
def endState (s : BitVec k) (bits : List Bool) : BitVec k := bits.foldl next s

variable (code : ShiftCode k)

theorem encode_append (s : BitVec k) (bits bits' : List Bool) :
    code.encode s (bits ++ bits') = code.encode s bits ++ code.encode (endState s bits) bits' := by
  induction bits generalizing s with
  | nil => rfl
  | cons b bits ih =>
      rw [List.cons_append, encode, encode, ih, List.append_assoc]
      rfl

theorem length_output (s : BitVec k) (b : Bool) : (code.output s b).length = code.masks.length :=
  List.length_map _

theorem length_encode (s : BitVec k) (bits : List Bool) :
    (code.encode s bits).length = code.masks.length * bits.length := by
  induction bits generalizing s with
  | nil => rfl
  | cons b bits ih =>
      rw [encode, List.length_append, length_output, ih, List.length_cons, Nat.mul_succ, Nat.add_comm]

/-! ## Linearity -/

theorem next_xor (s t : BitVec k) (a b : Bool) : next (s ^^^ t) (a ^^ b) = next s a ^^^ next t b := by
  rw [next, next, next, ← BitVec.setWidth_xor, BitVec.concat_xor_concat]

theorem output_xor (s t : BitVec k) (a b : Bool) :
    code.output (s ^^^ t) (a ^^ b) = differences (code.output s a) (code.output t b) := by
  rw [output, output, output, differences, List.zipWith_map, List.zipWith_self]
  refine List.map_congr_left fun mask _ => ?_
  rw [← parityOf_xor, ← BitVec.concat_xor_concat]
  congr 1
  refine BitVec.eq_of_getLsbD_eq fun i _ => ?_
  rw [BitVec.getLsbD_and, BitVec.getLsbD_xor, BitVec.getLsbD_xor, BitVec.getLsbD_and, BitVec.getLsbD_and,
    Bool.and_xor_distrib_right]

/-- **The code is linear.** -/
theorem differences_encode (s t : BitVec k) {bits bits' : List Bool} (h : bits.length = bits'.length) :
    differences (code.encode s bits) (code.encode t bits')
      = code.encode (s ^^^ t) (differences bits bits') := by
  induction bits generalizing s t bits' with
  | nil =>
      obtain rfl := List.length_eq_zero_iff.mp h.symm
      rfl
  | cons b bits ih =>
      cases bits' with
      | nil => cases h
      | cons b' bits' =>
          rw [encode, encode, differences, List.zipWith_append (by rw [length_output, length_output])]
          change differences _ _ ++ differences _ _
            = code.output (s ^^^ t) (b ^^ b') ++ code.encode (next (s ^^^ t) (b ^^ b')) (differences bits bits')
          rw [output_xor, next_xor, ih _ _ (Nat.succ.inj h)]

/-! ## Zeros -/

theorem next_zero : next (0#k) false = 0#k := by
  refine BitVec.eq_of_getLsbD_eq fun i hi => ?_
  rw [next, BitVec.getLsbD_setWidth, BitVec.getLsbD_concat]
  cases i with
  | zero => simp
  | succ i => simp

theorem parityOf_zero : parityOf (0#w) = false := by
  have h := parityOf_xor (0#w) (0#w)
  rw [BitVec.xor_self, Bool.xor_self] at h
  exact h

theorem output_zero : code.output (0#k) false = List.replicate code.masks.length false := by
  rw [output, ← List.map_const']
  refine List.map_congr_left fun mask _ => ?_
  have hzero : (0#k).concat false &&& mask = 0#(k + 1) := by
    refine BitVec.eq_of_getLsbD_eq fun i _ => ?_
    rw [BitVec.getLsbD_and, BitVec.getLsbD_concat]
    cases i with
    | zero => simp
    | succ i => simp
  rw [hzero, parityOf_zero]

theorem encode_zeros (n : Nat) :
    code.encode 0#k (List.replicate n false) = List.replicate (code.masks.length * n) false := by
  induction n with
  | zero => rfl
  | succ n ih =>
      rw [List.replicate_succ, encode, output_zero, next_zero, ih, ← List.replicate_add, Nat.mul_succ,
        Nat.add_comm]

theorem endState_zeros (n : Nat) : endState 0#k (List.replicate n false) = 0#k := by
  induction n with
  | zero => rfl
  | succ n ih =>
      rw [List.replicate_succ, endState, List.foldl_cons, next_zero]
      exact ih

/-! ## Distance -/

/-- No branch lowers the potential by more than its weight. -/
def IsPotential (potential : BitVec k → Nat) : Prop :=
  ∀ s b, potential s ≤ (code.output s b).count true + potential (next s b)

variable {code}

/-- The weight of a string is at least the potential it takes away. -/
theorem potential_le_weight {potential : BitVec k → Nat} (hpotential : code.IsPotential potential)
    (s : BitVec k) (bits : List Bool) :
    potential s ≤ (code.encode s bits).count true + potential (endState s bits) := by
  induction bits generalizing s with
  | nil => exact Nat.le_add_left _ _
  | cons b bits ih =>
      have hbranch := hpotential s b
      have hrest := ih (next s b)
      rw [encode, List.count_append]
      change _ ≤ _ + potential (endState (next s b) bits)
      omega

/-- **The free distance.** A string with a one that starts and ends with an empty register has at least the
    weight of the first branch and the potential behind it. -/
theorem weight_encode_ge {potential : BitVec k → Nat} (hpotential : code.IsPotential potential)
    (hzero : potential 0#k = 0) {bits : List Bool} (hmem : true ∈ bits) (hend : endState 0#k bits = 0#k) :
    (code.output 0#k true).count true + potential (next 0#k true) ≤ (code.encode 0#k bits).count true := by
  obtain ⟨n, back, rfl⟩ := exists_first_true hmem
  have hstart : endState 0#k (List.replicate n false ++ true :: back) = endState (next 0#k true) back := by
    rw [endState, List.foldl_append]
    change (true :: back).foldl next (endState 0#k (List.replicate n false)) = _
    rw [endState_zeros]
    rfl
  have hback := potential_le_weight hpotential (next 0#k true) back
  rw [← hstart, hend, hzero] at hback
  rw [encode_append, endState_zeros, encode, List.count_append, List.count_append]
  omega

end ShiftCode

end Pmb887x.Library
