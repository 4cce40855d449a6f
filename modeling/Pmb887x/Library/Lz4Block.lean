import Pmb887x.Library.Bytes
import Pmb887x.Library.Lz77

set_option autoImplicit false

/-! # The LZ4 block format

A block is a series of sequences: a token whose nibbles hold the literal length and the match
length less four, an extension of the literal length, the literals, a 16-bit distance and an
extension of the match length. A block may end with a sequence that stops after its literals.
`Block.bytes` is the encoding and `Block.expand` the text a block stands for; `Block.Valid` says
that no distance reaches before the start of the text. -/

namespace Pmb887x.Library.Lz4

/-- The value of a length nibble that announces extension bytes. -/
def lengthEscape : Nat := 0x0F

/-- The shortest match a sequence can express. -/
def minMatch : Nat := 4

/-- A run of `0xFF` bytes and the remainder below `0xFF`: the extension bytes of `excess`. -/
def extensionBytes (excess : Nat) : List UInt8 :=
  List.replicate (excess / 0xFF) 0xFF ++ [UInt8.ofNat (excess % 0xFF)]

/-- The bytes that follow the token for a length: none below the escape value. -/
def lengthBytes (length : Nat) : List UInt8 :=
  if length < lengthEscape then [] else extensionBytes (length - lengthEscape)

/-- The token of a sequence: literal length in the high nibble, match excess in the low one. -/
def token (literals excess : Nat) : UInt8 :=
  UInt8.ofNat (min literals lengthEscape * 16 + min excess lengthEscape)

/-- A complete sequence. `excess` is the match length less `minMatch`. -/
structure Sequence where
  literals : List UInt8
  distance : Nat
  excess : Nat
  deriving DecidableEq, Repr

/-- A sequence's encoding. -/
def Sequence.bytes (s : Sequence) : List UInt8 :=
  token s.literals.length s.excess :: (lengthBytes s.literals.length ++ s.literals
    ++ leBytes 2 s.distance ++ lengthBytes s.excess)

/-- The text after a sequence: its literals, then its match copied from the text so far. -/
def Sequence.expand (out : List UInt8) (s : Sequence) : List UInt8 :=
  copyMatch (out ++ s.literals) s.distance (s.excess + minMatch)

/-- The distance is a nonzero 16-bit number and does not reach before the start of the text. -/
def Sequence.Valid (out : List UInt8) (s : Sequence) : Prop :=
  0 < s.distance ∧ s.distance < 0x10000 ∧ s.distance ≤ out.length + s.literals.length

instance (out : List UInt8) (s : Sequence) : Decidable (s.Valid out) :=
  inferInstanceAs (Decidable (_ ∧ _ ∧ _))

/-- A final sequence that stops after its literals; a decoder ignores its low token nibble. -/
structure Tail where
  literals : List UInt8
  low : Nat
  deriving DecidableEq, Repr

def Tail.bytes (t : Tail) : List UInt8 :=
  token t.literals.length t.low :: (lengthBytes t.literals.length ++ t.literals)

/-- A block: complete sequences, and a literal-only one unless the last one ends the block. -/
structure Block where
  sequences : List Sequence
  tail : Option Tail
  deriving DecidableEq, Repr

def Block.bytes (b : Block) : List UInt8 :=
  (b.sequences.map Sequence.bytes).flatten ++ (b.tail.map Tail.bytes).getD []

/-- The text after a series of sequences. -/
def expandAll (out : List UInt8) (ss : List Sequence) : List UInt8 :=
  ss.foldl Sequence.expand out

/-- Every distance of the series stays inside the text produced so far. -/
def ValidAll : List UInt8 → List Sequence → Prop
  | _, [] => True
  | out, s :: ss => s.Valid out ∧ ValidAll (s.expand out) ss

def Block.expand (b : Block) : List UInt8 :=
  expandAll [] b.sequences ++ (b.tail.map Tail.literals).getD []

def Block.Valid (b : Block) : Prop := ValidAll [] b.sequences

/-! ## How the pieces compose -/

@[simp] theorem Sequence.expand_length (out : List UInt8) (s : Sequence) :
    (s.expand out).length = out.length + s.literals.length + s.excess + minMatch := by
  simp [Sequence.expand]
  omega

theorem expandAll_append (out : List UInt8) (ss ss' : List Sequence) :
    expandAll out (ss ++ ss') = expandAll (expandAll out ss) ss' := by
  simp [expandAll]

theorem validAll_append (out : List UInt8) (ss ss' : List Sequence) :
    ValidAll out (ss ++ ss') ↔ ValidAll out ss ∧ ValidAll (expandAll out ss) ss' := by
  induction ss generalizing out with
  | nil => simp [ValidAll, expandAll]
  | cons s ss ih => simp [ValidAll, ih, expandAll, and_assoc]

/-- A series never shortens the text. -/
theorem length_le_expandAll (out : List UInt8) (ss : List Sequence) :
    out.length ≤ (expandAll out ss).length := by
  induction ss generalizing out with
  | nil => simp [expandAll]
  | cons s ss ih =>
      have := ih (s.expand out)
      simp only [Sequence.expand_length] at this
      simp only [expandAll, List.foldl_cons] at this ⊢
      omega

theorem token_toNat (literals excess : Nat) :
    (token literals excess).toNat
      = min literals lengthEscape * 16 + min excess lengthEscape := by
  have h : (token literals excess).toNat
      = (min literals lengthEscape * 16 + min excess lengthEscape) % 256 := UInt8.toNat_ofNat'
  rw [h]
  simp only [lengthEscape]
  omega

theorem lengthBytes_of_lt {length : Nat} (h : length < lengthEscape) :
    lengthBytes length = [] := by
  simp [lengthBytes, h]

theorem lengthBytes_of_ge {length : Nat} (h : lengthEscape ≤ length) :
    lengthBytes length = extensionBytes (length - lengthEscape) := by
  simp [lengthBytes, Nat.not_lt.2 h]

theorem extensionBytes_of_lt {excess : Nat} (h : excess < 0xFF) :
    extensionBytes excess = [UInt8.ofNat excess] := by
  simp [extensionBytes, Nat.div_eq_of_lt h, Nat.mod_eq_of_lt h]

/-- A long extension starts with `0xFF` and goes on with the extension of what is left. -/
theorem extensionBytes_of_ge {excess : Nat} (h : 0xFF ≤ excess) :
    extensionBytes excess = 0xFF :: extensionBytes (excess - 0xFF) := by
  have hdiv : excess / 0xFF = (excess - 0xFF) / 0xFF + 1 := by omega
  have hmod : excess % 0xFF = (excess - 0xFF) % 0xFF := by omega
  rw [extensionBytes, hdiv, hmod, List.replicate_succ, extensionBytes, List.cons_append]

end Pmb887x.Library.Lz4
