/-!
# Flags

The four flags of the processor. As a byte they stand in its upper half, and its lower half is zero.
-/

namespace Sm83

/-- The flags, from bit 7 down to bit 4 of their byte. -/
structure Flags where
  /-- The last result was zero. -/
  z : Bool := false
  /-- The last operation subtracted. -/
  n : Bool := false
  /-- The last operation carried out of a half. -/
  h : Bool := false
  /-- The last operation carried out of the result. -/
  c : Bool := false
deriving DecidableEq, Repr, Inhabited

namespace Flags

/-- The flags as a byte. -/
def toByte (flags : Flags) : UInt8 :=
  (if flags.z then 0x80 else 0) ||| (if flags.n then 0x40 else 0) |||
    (if flags.h then 0x20 else 0) ||| (if flags.c then 0x10 else 0)

/-- The flags in the upper half of a byte. -/
def ofByte (byte : UInt8) : Flags where
  z := byte &&& 0x80 != 0
  n := byte &&& 0x40 != 0
  h := byte &&& 0x20 != 0
  c := byte &&& 0x10 != 0

/-- No flag is lost in the byte. -/
@[simp] theorem ofByte_toByte (flags : Flags) : ofByte flags.toByte = flags := by
  rcases flags with ⟨z, n, h, c⟩
  cases z <;> cases n <;> cases h <;> cases c <;> decide

/-- Packing what was unpacked clears the lower half. -/
@[simp] theorem toByte_ofByte (byte : UInt8) : (ofByte byte).toByte = byte &&& 0xF0 := by
  obtain ⟨bits⟩ := byte
  revert bits
  decide +kernel

end Flags

end Sm83
