import Sm83.Arithmetic

/-!
# Word arithmetic by bytes and by bits

A sum of words is the sum of their lower halves and then, with its carry, of their upper halves, and
both carries of the word are those of the upper byte. A stack pointer is moved by a signed offset,
but its carries are those of an unsigned addition of bytes: they are the carries into bits 4 and 8
of the one addition of words, whatever the sign of the offset.
-/

namespace Sm83

namespace Arithmetic

/-- A sum of words is made of sums of bytes, the upper one taking in the carry of the lower one. -/
theorem addWords_eq (left right : UInt16) :
    let low := add (Word.low left) (Word.low right)
    let high := addCarry (Word.high left) (Word.high right) low.carry
    addWords left right = ⟨Word.ofBytes high.value low.value, high.halfCarry, high.carry⟩ := by
  intro low high
  have lower : low.value.toNat + 256 * low.carry.toNat =
      left.toNat % 256 + right.toNat % 256 + 0 := by
    rw [← Word.toNat_low, ← Word.toNat_low]
    exact addCarry_exact (Word.low left) (Word.low right) false
  have upper : high.value.toNat + 256 * high.carry.toNat =
      left.toNat / 256 + right.toNat / 256 + low.carry.toNat := by
    rw [← Word.toNat_high, ← Word.toNat_high]
    exact addCarry_exact (Word.high left) (Word.high right) low.carry
  have lowBound := low.value.toNat_lt
  have highBound := high.value.toNat_lt
  have value : left + right = Word.ofBytes high.value low.value := by
    apply UInt16.toNat_inj.mp
    rw [UInt16.toNat_add, Word.toNat_ofBytes]
    have bit := high.carry.toNat_le
    omega
  have half : decide (4096 ≤ left.toNat % 4096 + right.toNat % 4096) = high.halfCarry := by
    have digits : 4096 ≤ left.toNat % 4096 + right.toNat % 4096 ↔
        16 ≤ left.toNat / 256 % 16 + right.toNat / 256 % 16 + low.carry.toNat := by omega
    rw [← Word.toNat_high, ← Word.toNat_high] at digits
    exact decide_eq_decide.mpr digits
  have carry : decide (65536 ≤ left.toNat + right.toNat) = high.carry := by
    have bytes : 65536 ≤ left.toNat + right.toNat ↔
        256 ≤ left.toNat / 256 + right.toNat / 256 + low.carry.toNat := by omega
    rw [← Word.toNat_high, ← Word.toNat_high] at bytes
    exact decide_eq_decide.mpr bytes
  unfold addWords
  rw [value, half, carry]

/-- The bits in which a sum differs from the sum of the bits alone are those a carry comes into. -/
theorem getLsbD_carries (left right : UInt16) {index : Nat} (inside : index < 16) :
    (left ^^^ right ^^^ (left + right)).toBitVec.getLsbD index =
      BitVec.carry index left.toBitVec right.toBitVec false := by
  have carried := BitVec.getLsbD_add inside left.toBitVec right.toBitVec
  rw [UInt16.toBitVec_xor, UInt16.toBitVec_xor, UInt16.toBitVec_add, BitVec.getLsbD_xor,
    BitVec.getLsbD_xor, carried]
  cases left.toBitVec.getLsbD index <;> cases right.toBitVec.getLsbD index <;> simp

end Arithmetic

namespace Word

/-- An offset extends the sign of its byte. -/
theorem toBitVec_ofOffset (byte : UInt8) :
    (ofOffset byte).toBitVec = byte.toBitVec.signExtend 16 := by
  apply BitVec.eq_of_toNat_eq
  have width : (byte.toBitVec.setWidth 16).toNat = byte.toNat := by
    have bound := byte.toNat_lt
    rw [BitVec.toNat_setWidth]
    exact Nat.mod_eq_of_lt (by omega)
  rw [BitVec.toNat_signExtend, width]
  unfold ofOffset
  by_cases positive : byte < 0x80
  · have sign : byte.toBitVec.msb = false :=
      (BitVec.msb_eq_decide _).trans (decide_eq_false (Nat.not_le.mpr positive))
    rw [if_pos positive, if_neg (Bool.eq_false_iff.mp sign)]
    exact UInt8.toNat_toUInt16 byte
  · have sign : byte.toBitVec.msb = true :=
      (BitVec.msb_eq_decide _).trans (decide_eq_true (Nat.not_lt.mp positive))
    have extended : (ofBytes 0xFF byte).toNat = 256 * 255 + byte.toNat := toNat_ofBytes 0xFF byte
    rw [if_neg positive, if_pos sign]
    exact extended.trans (Nat.add_comm _ _)

/-- The lower half of an offset is its byte. -/
theorem low_ofOffset (byte : UInt8) : low (ofOffset byte) = byte := by
  unfold ofOffset
  split
  · simp [low]
  · exact low_ofBytes 0xFF byte

end Word

namespace Arithmetic

/-- The carries of moving a stack pointer are those into bits 4 and 8 of the addition. -/
theorem carries_addOffset (pointer : UInt16) (offset : UInt8) :
    let moved := addOffset pointer offset
    let carries := (pointer ^^^ Word.ofOffset offset ^^^ moved.value).toBitVec
    moved.halfCarry = carries.getLsbD 4 ∧ moved.carry = carries.getLsbD 8 := by
  intro moved carries
  have lower : (Word.ofOffset offset).toNat % 256 = offset.toNat := by
    rw [← Word.toNat_low, Word.low_ofOffset]
  have half : carries.getLsbD 4 =
      decide (16 ≤ pointer.toNat % 16 + (Word.ofOffset offset).toNat % 16) :=
    getLsbD_carries pointer (Word.ofOffset offset) (by decide)
  have whole : carries.getLsbD 8 =
      decide (256 ≤ pointer.toNat % 256 + (Word.ofOffset offset).toNat % 256) :=
    getLsbD_carries pointer (Word.ofOffset offset) (by decide)
  have digit : (Word.ofOffset offset).toNat % 16 = offset.toNat % 16 := by omega
  have inner : pointer.toNat % 256 % 16 = pointer.toNat % 16 := by omega
  rw [half, whole, lower, digit, ← inner, ← Word.toNat_low]
  exact ⟨rfl, rfl⟩

end Arithmetic

end Sm83
