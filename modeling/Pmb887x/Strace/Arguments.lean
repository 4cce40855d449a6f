import Pmb887x.Library.Bytes
import Pmb887x.Library.Hex
import Mathlib.Data.Int.Basic

set_option autoImplicit false

/-! # Arguments of a traced call (`strace.pl`)

At a breakpoint the tracer prints the arguments of the called function. A type such as `uint16**` says how
often the value is followed as a pointer and how the value at the end is printed. The decoders of the other
types (strings, memory dumps, formats) are not embedded. -/

namespace Pmb887x.Strace

open Library

/-! ## The target -/

/-- The registers that hold arguments, and the stack pointer. -/
structure Registers where
  r0 : UInt32
  r1 : UInt32
  r2 : UInt32
  r3 : UInt32
  sp : UInt32

/-- `$regs->{"r$n"}`, for the first four -/
def Registers.r (regs : Registers) : Nat → Nat
  | 0 => regs.r0.toNat
  | 1 => regs.r1.toNat
  | 2 => regs.r2.toNat
  | _ => regs.r3.toNat

/-- `$gdb->readMem`: the bytes at an address, or `undef`. -/
abbrev ReadMem := Int → Nat → Option (List UInt8)

/-- The address that `sprintf("%x", $addr)` asks for. -/
def hexAddress (addr : Int) : Nat := (addr % 2 ^ 64).toNat

/-- A target all of whose memory can be read. -/
def readMem (memory : Nat → UInt8) : ReadMem :=
  fun addr size => some ((List.range size).map fun i => memory (hexAddress addr + i))

/-! ## The code -/

/-- `$1` of `/^uint(32|16|8)/` -/
inductive Size where
  | s32
  | s16
  | s8
  deriving DecidableEq

def Size.bits : Size → Nat
  | .s32 => 32
  | .s16 => 16
  | .s8 => 8

/-- `unpack("V", $mem)`, `unpack("v", $mem)` or `ord($mem)` -/
def Size.unpack (size : Size) (mem : List UInt8) : Nat := ofLeBytes (mem.take (size.bits / 8))

/-- `unpack("L", $mem)`; what is not defined counts as zero. -/
def unpackL (mem : Option (List UInt8)) : Nat := ofLeBytes ((mem.getD []).take 4)

/-- `$arg =~ /\*$/` -/
def endsInStar (arg : List Char) : Bool := arg.getLast? == some '*'

/-- `$arg =~ /[*]{2,}$/` -/
def endsInStars (arg : List Char) : Bool := endsInStar arg && endsInStar arg.dropLast

/-- The loop of `resolveRef`: what is pushed to `$ptr`, and the value. -/
def resolveRef (gdb : ReadMem) (v : Nat) (arg : List Char) (size : Size) : List Nat × Nat :=
  if _h : endsInStar arg = true then
    match gdb v (if endsInStars arg then 4 else size.bits / 8) with
    | none => ([v], 0)
    | some mem =>
        let (ptr, v') := resolveRef gdb (size.unpack mem) arg.dropLast size
        (v :: ptr, v')
  else ([], v)
termination_by arg.length
decreasing_by
  have hne : arg ≠ [] := by
    rintro rfl
    exact absurd _h (by decide)
  rw [List.length_dropLast]
  exact Nat.sub_lt (List.length_pos_of_ne_nil hne) Nat.one_pos

def readFuncArg (gdb : ReadMem) (regs : Registers) (n : Int) : Nat :=
  if n < 0 then unpackL (gdb (regs.sp.toNat - 4 * n) 4)
  else if n < 4 then regs.r n.toNat
  else unpackL (gdb (regs.sp.toNat + 4 * (4 - n)) 4)

/-- The size at the beginning of a text. -/
def sizePrefix : List Char → Option Size
  | '3' :: '2' :: _ => some .s32
  | '1' :: '6' :: _ => some .s16
  | '8' :: _ => some .s8
  | _ => none

/-- `/^uint(32|16|8)/` -/
def matchUint : List Char → Option Size
  | 'u' :: 'i' :: 'n' :: 't' :: rest => sizePrefix rest
  | _ => none

/-- `/^int(32|16|8)/` -/
def matchInt : List Char → Option Size
  | 'i' :: 'n' :: 't' :: rest => sizePrefix rest
  | _ => none

/-- `($sign ? -1 : 1) * ($v & ~$sign)`, in the 64 bits of a Perl integer -/
def applySign (v : Nat) (size : Size) : Int :=
  let sign := v &&& 1 <<< size.bits
  (if sign ≠ 0 then -1 else 1) * ((v &&& (2 ^ 64 - 1 - sign) : Nat) : Int)

/-- An integer in decimal. -/
def decimal (z : Int) : List Char :=
  if z < 0 then '-' :: Nat.toDigits 10 z.natAbs else Nat.toDigits 10 z.natAbs

/-- `sprintf("0x%X", $v)` -/
def hexText (v : Nat) : List Char := '0' :: 'x' :: hexNat v

/-- `readFuncArgWithType` for debugging: `$ptr` and the printed value, for the integer types. -/
def readFuncArgWithType (gdb : ReadMem) (regs : Registers) (n : Int) (type : List Char) :
    Option (List Nat × List Char) :=
  let v := readFuncArg gdb regs n
  match matchUint type with
  | some size =>
      let (ptr, v) := resolveRef gdb v type size
      some (ptr, hexText v)
  | none =>
      match matchInt type with
      | some size =>
          let (ptr, v) := resolveRef gdb v type size
          some (ptr, decimal (applySign v size))
      | none => none

/-- `sprintf("*0x%08X", $v)` -/
def pointerText (v : Nat) : List Char := '*' :: '0' :: 'x' :: hexPadded 8 v

/-- `"(".join("->", @$ptr).")".$value`, or the value alone -/
def argumentText (ptr : List Nat) (value : List Char) : List Char :=
  if ptr = [] then value
  else '(' :: (List.intercalate ['-', '>'] (ptr.map pointerText) ++ ')' :: value)

/-- The loop of `decodeArgs`, from argument `argId` on: `@decoded`. -/
def decodeArgs (gdb : ReadMem) (regs : Registers) (argId : Nat) :
    List (List Char) → Option (List (List Char))
  | [] => some []
  | type :: rest => do
      let (ptr, value) ← readFuncArgWithType gdb regs argId type
      let decoded ← decodeArgs gdb regs (argId + 1) rest
      return argumentText ptr value :: decoded

/-! ## What is to be printed -/

/-- A value of a size in memory. -/
def valueAt (memory : Nat → UInt8) (size : Size) (addr : Nat) : Nat :=
  ofLeBytes ((List.range (size.bits / 8)).map fun i => memory (addr + i))

/-- Argument `i` of a call: four in registers, the others on the stack. -/
def aapcsArgument (memory : Nat → UInt8) (regs : Registers) (i : Nat) : Nat :=
  if i < 4 then regs.r i else valueAt memory .s32 (regs.sp.toNat + 4 * (i - 4))

/-- The pointers that are passed, all of them words, and the value behind the last. -/
def follow (memory : Nat → UInt8) (size : Size) : (levels v : Nat) → List Nat × Nat
  | 0, v => ([], v)
  | 1, v => ([v], valueAt memory size v)
  | levels + 2, v =>
      let (ptr, value) := follow memory size (levels + 1) (valueAt memory .s32 v)
      (v :: ptr, value)

/-- `int` or `uint`, a size, and stars. -/
structure IntegerType where
  signed : Bool
  size : Size
  levels : Nat

def Size.text : Size → List Char
  | .s32 => ['3', '2']
  | .s16 => ['1', '6']
  | .s8 => ['8']

/-- The type without its stars. -/
def IntegerType.base (type : IntegerType) : List Char :=
  (if type.signed then ['i', 'n', 't'] else ['u', 'i', 'n', 't']) ++ type.size.text

def IntegerType.text (type : IntegerType) : List Char :=
  type.base ++ List.replicate type.levels '*'

/-- The low bits of a value as the type prints them. -/
def IntegerType.print (type : IntegerType) (v : Nat) : List Char :=
  if type.signed then decimal (Int.bmod v (2 ^ type.size.bits)) else hexText (v % 2 ^ type.size.bits)

/-- The text for an argument whose value is `v`. -/
def IntegerType.expected (type : IntegerType) (memory : Nat → UInt8) (v : Nat) : List Char :=
  argumentText (follow memory type.size type.levels v).1
    (type.print (follow memory type.size type.levels v).2)

/-- The arguments from `argId` on are decoded as the calling convention and their types say. -/
def DecodesFrom (memory : Nat → UInt8) (regs : Registers) (argId : Nat) (types : List IntegerType) :
    Prop :=
  decodeArgs (readMem memory) regs argId (types.map IntegerType.text)
    = some (types.mapIdx fun i type => type.expected memory (aapcsArgument memory regs (argId + i)))

/-- The arguments of a call are decoded right. -/
def Decodes (memory : Nat → UInt8) (regs : Registers) (types : List IntegerType) : Prop :=
  DecodesFrom memory regs 0 types

/-! ## When it is -/

/-- The stack word as far below the stack pointer as argument `i` is above it. -/
def mirroredArgument (memory : Nat → UInt8) (regs : Registers) (i : Nat) : Nat :=
  if i < 4 then regs.r i else valueAt memory .s32 (hexAddress (regs.sp.toNat - 4 * ((i : Int) - 4)))

/-- Two words print as one signed number: the first is not negative and the low bits of the second, or it is
a negative number that has the bit above its sign bit set and none above that. -/
def SignedAgree (size : Size) (w a : Nat) : Prop :=
  (w < 2 ^ (size.bits - 1) ∧ a % 2 ^ size.bits = w) ∨
    (2 ^ size.bits ≤ w ∧ w ≤ 2 ^ size.bits + 2 ^ (size.bits - 1) ∧ (w + a) % 2 ^ size.bits = 0)

/-- The condition for argument `i`. -/
def ArgumentOk (memory : Nat → UInt8) (regs : Registers) (i : Nat) (type : IntegerType) : Prop :=
  let a := aapcsArgument memory regs i
  let w := mirroredArgument memory regs i
  if type.levels = 0 then
    if type.signed then SignedAgree type.size w a else w = a % 2 ^ type.size.bits
  else
    w = a ∧ (∀ p ∈ (follow memory type.size type.levels a).1.tail, p < 2 ^ type.size.bits) ∧
      (type.signed = true → (follow memory type.size type.levels a).2 < 2 ^ (type.size.bits - 1))

end Pmb887x.Strace
