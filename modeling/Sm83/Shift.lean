import Sm83.Arithmetic

/-!
# Shifts and rotations

Eight ways to move the bits of a byte by one place (or, for the swap, by half a byte), each with
the bit that it moves out.
-/

namespace Sm83

/-- The ways to move the bits of a byte. -/
inductive Shift where
  /-- Rotate left; bit 7 comes back as bit 0. -/
  | rlc
  /-- Rotate right; bit 0 comes back as bit 7. -/
  | rrc
  /-- Rotate left through the carry. -/
  | rl
  /-- Rotate right through the carry. -/
  | rr
  /-- Double. -/
  | sla
  /-- Halve, keeping the sign bit. -/
  | sra
  /-- Exchange the two halves of the byte. -/
  | swap
  /-- Halve. -/
  | srl
deriving DecidableEq, Repr

namespace Shift

/-- The assembly name of a shift. -/
def text : Shift → String
  | rlc => "rlc"
  | rrc => "rrc"
  | rl => "rl"
  | rr => "rr"
  | sla => "sla"
  | sra => "sra"
  | swap => "swap"
  | srl => "srl"

/-- The moved byte and the bit moved out of it, given the bit that a rotation through the carry
moves in. -/
def apply (kind : Shift) (byte : UInt8) (carry : Bool) : Carried :=
  let top := byte &&& 0x80 != 0
  let bottom := byte &&& 0x01 != 0
  match kind with
  | rlc => ⟨byte <<< 1 ||| byte >>> 7, top⟩
  | rrc => ⟨byte >>> 1 ||| byte <<< 7, bottom⟩
  | rl => ⟨byte <<< 1 ||| carry.toUInt8, top⟩
  | rr => ⟨byte >>> 1 ||| carry.toUInt8 <<< 7, bottom⟩
  | sla => ⟨byte <<< 1, top⟩
  | sra => ⟨byte >>> 1 ||| byte &&& 0x80, bottom⟩
  | swap => ⟨byte <<< 4 ||| byte >>> 4, false⟩
  | srl => ⟨byte >>> 1, bottom⟩

end Shift

end Sm83
