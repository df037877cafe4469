import Sm83.RegisterFile.Effects

/-!
# Byte operations on integers

What the operations between the accumulator and a byte come to is told here without a machine word:
sums and differences are those of integers, taken modulo 256 only for the result, and the logical
operations go bit by bit. Every operation meets this description for all bytes and either carry.
-/

namespace Sm83

/-- A bit of a byte, counted from the lowest. -/
def bitOf (byte : UInt8) (index : Nat) : Bool := byte.toNat.testBit index

/-- A result and its flags are those of adding two bytes and a carry. -/
structure IsSum (left right : UInt8) (carry : Nat) (value : UInt8) (flags : Flags) : Prop where
  value : value.toNat = (left.toNat + right.toNat + carry) % 256
  subtracted : flags.n = false
  halfCarry : flags.h = true ↔ 16 ≤ left.toNat % 16 + right.toNat % 16 + carry
  carry : flags.c = true ↔ 256 ≤ left.toNat + right.toNat + carry

/-- A result and its flags are those of taking a byte and a borrow from a byte. -/
structure IsDifference (left right : UInt8) (borrow : Nat) (value : UInt8) (flags : Flags) :
    Prop where
  value : (value.toNat : Int) = ((left.toNat : Int) - right.toNat - borrow) % 256
  subtracted : flags.n = true
  halfCarry : flags.h = true ↔ left.toNat % 16 < right.toNat % 16 + borrow
  carry : flags.c = true ↔ left.toNat < right.toNat + borrow

/-- A result and its flags are those of joining two bytes bit by bit. The half carry tells which
connective it was rather than anything of the bytes. -/
structure IsBitwise (connective : Bool → Bool → Bool) (half : Bool) (left right value : UInt8)
    (flags : Flags) : Prop where
  value : ∀ index, bitOf value index = connective (bitOf left index) (bitOf right index)
  subtracted : flags.n = false
  halfCarry : flags.h = half
  carry : flags.c = false

namespace ByteOp

/-- The carry that an operation takes in, which only two of them do. -/
def carryIn (op : ByteOp) (carry : Bool) : Nat :=
  match op with
  | adc | sbc => carry.toNat
  | add | sub | cp | and | xor | or => 0

/-- A result and its flags are those of the operation between the accumulator and a byte. -/
def Meets (op : ByteOp) (a byte : UInt8) (carry : Nat) (value : UInt8) (flags : Flags) : Prop :=
  (flags.z = true ↔ value = 0) ∧
    match op with
    | add | adc => IsSum a byte carry value flags
    | sub | sbc | cp => IsDifference a byte carry value flags
    | and => IsBitwise (· && ·) true a byte value flags
    | xor => IsBitwise (· ^^ ·) false a byte value flags
    | or => IsBitwise (· || ·) false a byte value flags

end ByteOp

namespace Arithmetic

variable (left right : UInt8) (carry : Bool)

/-- The adder gives the sum of integers and its flags. -/
theorem isSum_addCarry :
    let sum := addCarry left right carry
    IsSum left right carry.toNat sum.value
      (Flags.ofResult sum.value false sum.halfCarry sum.carry) where
  value := toNat_value_addCarry left right carry
  subtracted := rfl
  halfCarry := decide_eq_true_iff
  carry := decide_eq_true_iff

/-- The subtracter gives the difference of integers and its flags. -/
theorem isDifference_subBorrow :
    let difference := subBorrow left right carry
    IsDifference left right carry.toNat difference.value
      (Flags.ofResult difference.value true difference.halfCarry difference.carry) where
  value := by
    have exact := subBorrow_exact left right carry
    have bound := (subBorrow left right carry).value.toNat_lt
    omega
  subtracted := rfl
  halfCarry := decide_eq_true_iff
  carry := decide_eq_true_iff

end Arithmetic

namespace ByteOp

/-- Every operation gives the result and the flags that it is described by. -/
theorem meets_apply (op : ByteOp) (a byte : UInt8) (carry : Bool) :
    op.Meets a byte (op.carryIn carry) (op.apply a byte carry).1 (op.apply a byte carry).2 := by
  have zero : (op.apply a byte carry).2.z = true ↔ (op.apply a byte carry).1 = 0 := by
    cases op <;> exact beq_iff_eq
  refine ⟨zero, ?_⟩
  cases op with
  | add => exact Arithmetic.isSum_addCarry a byte false
  | adc => exact Arithmetic.isSum_addCarry a byte carry
  | sub | cp => exact Arithmetic.isDifference_subBorrow a byte false
  | sbc => exact Arithmetic.isDifference_subBorrow a byte carry
  | and => exact ⟨fun index => by simp [bitOf, apply], rfl, rfl, rfl⟩
  | xor => exact ⟨fun index => by simp [bitOf, apply], rfl, rfl, rfl⟩
  | or => exact ⟨fun index => by simp [bitOf, apply], rfl, rfl, rfl⟩

end ByteOp

end Sm83
