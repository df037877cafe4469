import Sm83.Instruction.Schedule
import Sm83.Proofs.Arithmetic.Bytes
import Sm83.Proofs.Opcode.Table

/-!
# Shifts and single bits

What each shift does is told on the bits of the byte as a string: plain rotations turn the eight
bits, those through the carry turn nine, the arithmetic ones double or halve a number with or
without a sign. A mask stands for the one bit that a bit operation names, so such an operation looks
at that bit or changes it, and at no other.
-/

namespace Sm83

open Schedule

/-! ## Single bits -/

/-- There are eight bits in a byte. -/
theorem bitOf_of_le (byte : UInt8) {position : Nat} (outside : 8 ≤ position) :
    bitOf byte position = false :=
  BitVec.getLsbD_of_ge byte.toBitVec position outside

/-- A mask has the bit that it names, and no other. -/
theorem bitOf_bitMask (index : Fin 8) (position : Nat) :
    bitOf (bitMask index) position = decide (position = index) := by
  have mask : (bitMask index).toNat = 2 ^ index.val := by
    revert index
    decide
  rw [bitOf, mask, Nat.testBit_two_pow]
  exact decide_eq_decide.mpr eq_comm

/-- A bit that two bytes have in common. -/
theorem bitOf_and (left right : UInt8) (position : Nat) :
    bitOf (left &&& right) position = (bitOf left position && bitOf right position) := by
  rw [bitOf, UInt8.toNat_and, Nat.testBit_and]
  rfl

/-- A byte and a mask have a bit in common exactly if the bit that the mask names is set. -/
theorem and_bitMask_ne_zero (byte : UInt8) (index : Fin 8) :
    (byte &&& bitMask index != 0) = bitOf byte index := by
  have met : ∀ position, bitOf (byte &&& bitMask index) position =
      (bitOf byte position && decide (position = index)) := by
    intro position
    rw [bitOf_and, bitOf_bitMask]
  cases set : bitOf byte index with
  | true =>
    have differs : byte &&& bitMask index ≠ 0 := by
      intro zero
      have bit := met index
      rw [zero, set, decide_eq_true rfl, Bool.and_self] at bit
      cases (Nat.zero_testBit index).symm.trans bit
    exact bne_iff_ne.mpr differs
  | false =>
    have clear : ∀ position, bitOf (byte &&& bitMask index) position = false := by
      intro position
      rw [met]
      by_cases named : position = index
      · rw [named, set, Bool.false_and]
      · rw [decide_eq_false named, Bool.and_false]
    have zero : byte &&& bitMask index = 0 := by
      apply UInt8.toNat_inj.mp
      apply Nat.eq_of_testBit_eq
      intro position
      exact (clear position).trans (Nat.zero_testBit position).symm
    rw [zero]
    rfl

/-- A byte with one bit given a value. -/
def withBit (byte : UInt8) (index : Fin 8) (set : Bool) : UInt8 :=
  if set then byte ||| bitMask index else byte &&& ~~~bitMask index

/-- Giving a bit a value changes that bit at most. -/
theorem bitOf_withBit (byte : UInt8) (index : Fin 8) (set : Bool) (position : Nat) :
    bitOf (withBit byte index set) position =
      if position = index then set else bitOf byte position := by
  have mask := bitOf_bitMask index position
  cases set with
  | true =>
    have joined : bitOf (byte ||| bitMask index) position =
        (bitOf byte position || bitOf (bitMask index) position) := by simp [bitOf]
    change bitOf (byte ||| bitMask index) position = _
    rw [joined, mask]
    by_cases named : position = index <;> simp [named]
  | false =>
    change bitOf (byte &&& ~~~bitMask index) position = _
    by_cases inside : position < 8
    · have other : bitOf (~~~bitMask index) position = !bitOf (bitMask index) position := by
        change (~~~(bitMask index).toBitVec).getLsbD position =
          !(bitMask index).toBitVec.getLsbD position
        simp [inside]
      rw [bitOf_and, other, mask]
      by_cases named : position = index <;> simp [named]
    · have beyond : 8 ≤ position := Nat.le_of_not_lt inside
      rw [bitOf_of_le _ beyond, bitOf_of_le _ beyond, ite_self]

/-! ## Shifts -/

namespace Shift

/-- The bit that leaves a byte. -/
def leaving (kind : Shift) (byte : UInt8) : Bool :=
  match kind with
  | rlc | rl | sla => bitOf byte 7
  | rrc | rr | sra | srl => bitOf byte 0
  | swap => false

/-- What a shift makes of a byte, where the carry is the ninth bit of a rotation through it. -/
def Moves (kind : Shift) (byte : UInt8) (carry : Bool) (result : Carried) : Prop :=
  result.carry = kind.leaving byte ∧
    match kind with
    | rlc => result.value.toBitVec = byte.toBitVec.rotateLeft 1
    | rrc => result.value.toBitVec = byte.toBitVec.rotateRight 1
    | rl =>
      BitVec.cons result.carry result.value.toBitVec =
        (BitVec.cons carry byte.toBitVec).rotateLeft 1
    | rr =>
      BitVec.cons result.carry result.value.toBitVec =
        (BitVec.cons carry byte.toBitVec).rotateRight 1
    | sla => result.value.toNat = 2 * byte.toNat % 256
    | sra => result.value.toInt8.toInt = byte.toInt8.toInt / 2
    | swap => result.value.toNat = 16 * (byte.toNat % 16) + byte.toNat / 16
    | srl => result.value.toNat = byte.toNat / 2

/-- The halves of a byte, exchanged. -/
theorem toNat_value_swap (byte : UInt8) (carry : Bool) :
    (swap.apply byte carry).value.toNat = 16 * (byte.toNat % 16) + byte.toNat / 16 := by
  have bound := byte.toNat_lt
  have upper : (byte <<< 4).toNat = (byte.toNat % 16) <<< 4 := by
    simp only [UInt8.toNat_shiftLeft, UInt8.reduceToNat, Nat.reduceMod, Nat.shiftLeft_eq]
    omega
  have lower : (byte >>> 4).toNat = byte.toNat / 16 := by
    simp [Nat.shiftRight_eq_div_pow]
  have small : byte.toNat / 16 < 2 ^ 4 := by omega
  have disjoint := Nat.shiftLeft_add_eq_or_of_lt small (byte.toNat % 16)
  change (byte <<< 4 ||| byte >>> 4).toNat = _
  rw [UInt8.toNat_or, upper, lower, ← disjoint, Nat.shiftLeft_eq]
  omega

/-- Every shift does what it is described by. -/
theorem moves_apply (kind : Shift) (byte : UInt8) (carry : Bool) :
    kind.Moves byte carry (kind.apply byte carry) := by
  refine ⟨?leaving, ?value⟩
  case leaving =>
    have top := and_bitMask_ne_zero byte 7
    have bottom := and_bitMask_ne_zero byte 0
    cases kind with
    | rlc | rl | sla => exact top
    | rrc | rr | sra | srl => exact bottom
    | swap => rfl
  case value =>
    cases kind with
    | rlc | rrc => rfl
    | sla => simp [apply, Nat.shiftLeft_eq, Nat.mul_comm]
    | srl => simp [apply, Nat.shiftRight_eq_div_pow]
    | swap => exact toNat_value_swap byte carry
    | rl | rr | sra =>
      revert byte
      cases carry <;> exact forall_byte (by decide +kernel)

end Shift

end Sm83
