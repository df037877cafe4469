import Sm83.Word

/-!
# Arithmetic

The adders of the processor as pure functions: operands in, result and carries out. The half carry
leaves bit 3 of a byte and bit 11 of a word. Carries are decided on natural numbers, where nothing
wraps; a result and its carry together are the exact sum or difference.
-/

namespace Sm83

/-- A result with the carries, or borrows, that left its halves. -/
structure Flagged (α : Type) where
  /-- The result, reduced to its width. -/
  value : α
  /-- The carry into the topmost hexadecimal digit. -/
  halfCarry : Bool
  /-- The carry out of the topmost bit. -/
  carry : Bool
deriving DecidableEq, Repr

/-- A byte and the bit that left it. -/
structure Carried where
  /-- The byte. -/
  value : UInt8
  /-- The bit that left it. -/
  carry : Bool
deriving DecidableEq, Repr

namespace Arithmetic

/-- The sum of two bytes and a carry. -/
def addCarry (left right : UInt8) (carry : Bool) : Flagged UInt8 where
  value := left + right + carry.toUInt8
  halfCarry := 16 ≤ left.toNat % 16 + right.toNat % 16 + carry.toNat
  carry := 256 ≤ left.toNat + right.toNat + carry.toNat

/-- The sum of two bytes. -/
def add (left right : UInt8) : Flagged UInt8 := addCarry left right false

/-- The difference of two bytes less a borrow. -/
def subBorrow (left right : UInt8) (borrow : Bool) : Flagged UInt8 where
  value := left - right - borrow.toUInt8
  halfCarry := left.toNat % 16 < right.toNat % 16 + borrow.toNat
  carry := left.toNat < right.toNat + borrow.toNat

/-- The difference of two bytes. -/
def sub (left right : UInt8) : Flagged UInt8 := subBorrow left right false

/-- The successor of a byte. -/
def increment (byte : UInt8) : Flagged UInt8 := add byte 1

/-- The predecessor of a byte. -/
def decrement (byte : UInt8) : Flagged UInt8 := sub byte 1

/-- The sum of two words. -/
def addWords (left right : UInt16) : Flagged UInt16 where
  value := left + right
  halfCarry := 4096 ≤ left.toNat % 4096 + right.toNat % 4096
  carry := 65536 ≤ left.toNat + right.toNat

/-- A stack pointer moved by a signed offset. The carries are those of adding the offset byte to
the low half, whatever the sign of the offset. -/
def addOffset (pointer : UInt16) (offset : UInt8) : Flagged UInt16 where
  value := pointer + Word.ofOffset offset
  halfCarry := (add (Word.low pointer) offset).halfCarry
  carry := (add (Word.low pointer) offset).carry

/-- The packed decimal form of a byte that an addition or subtraction of packed decimal bytes
left. A digit is corrected by six when it carried, or, after an addition, when it is no decimal
digit; the carry that comes out is the correction of the upper digit. -/
def decimalAdjust (byte : UInt8) (subtracted halfCarry carry : Bool) : Carried :=
  let lower := halfCarry || (!subtracted && decide (9 < byte.toNat % 16))
  let upper := carry || (!subtracted && decide (0x99 < byte))
  let correction : UInt8 := (if upper then 0x60 else 0) + (if lower then 0x06 else 0)
  ⟨if subtracted then byte - correction else byte + correction, upper⟩

/-- Adding modulo 256 is what the value of a sum shows. -/
theorem toNat_value_addCarry (left right : UInt8) (carry : Bool) :
    (addCarry left right carry).value.toNat =
      (left.toNat + right.toNat + carry.toNat) % 256 := by
  have bit : carry.toUInt8.toNat = carry.toNat := by cases carry <;> rfl
  simp [addCarry, UInt8.toNat_add, bit]

/-- The value of a sum and its carry together are the exact sum. -/
theorem addCarry_exact (left right : UInt8) (carry : Bool) :
    (addCarry left right carry).value.toNat + 256 * (addCarry left right carry).carry.toNat =
      left.toNat + right.toNat + carry.toNat := by
  have hl := left.toNat_lt
  have hr := right.toNat_lt
  have hc := carry.toNat_le
  rw [toNat_value_addCarry]
  by_cases overflow : 256 ≤ left.toNat + right.toNat + carry.toNat
  · simp only [addCarry, overflow, decide_true, Bool.toNat_true]
    omega
  · simp only [addCarry, overflow, decide_false, Bool.toNat_false]
    omega

/-- The value of a difference and its borrow together are the exact difference. -/
theorem subBorrow_exact (left right : UInt8) (borrow : Bool) :
    (subBorrow left right borrow).value.toNat + right.toNat + borrow.toNat =
      left.toNat + 256 * (subBorrow left right borrow).carry.toNat := by
  have hl := left.toNat_lt
  have hr := right.toNat_lt
  have hb := borrow.toNat_le
  have bit : borrow.toUInt8.toNat = borrow.toNat := by cases borrow <;> rfl
  have value : (subBorrow left right borrow).value.toNat =
      (left.toNat + 512 - right.toNat - borrow.toNat) % 256 := by
    simp only [subBorrow, UInt8.toNat_sub, bit]
    omega
  rw [value]
  by_cases underflow : left.toNat < right.toNat + borrow.toNat
  · simp only [subBorrow, underflow, decide_true, Bool.toNat_true]
    omega
  · simp only [subBorrow, underflow, decide_false, Bool.toNat_false]
    omega

end Arithmetic

end Sm83
