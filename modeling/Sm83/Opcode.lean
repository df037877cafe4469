import Sm83.Instruction.Text

/-!
# Opcodes

An opcode is a byte in one of two spaces, the plain one and the one behind the prefix byte, with
the instruction that it stands for.
-/

namespace Sm83

/-- The byte that selects the second opcode space. -/
def prefixByte : UInt8 := 0xCB

/-- A byte of one of the two opcode spaces. -/
structure Encoding where
  /-- The opcode byte. -/
  code : UInt8
  /-- Whether the byte stands behind the prefix byte. -/
  prefixed : Bool
deriving DecidableEq, Repr

/-- The text of an encoding: its byte, behind the prefix byte where it has one. -/
def Encoding.text (encoding : Encoding) : String :=
  if encoding.prefixed then
    "$" ++ Text.hexByte prefixByte ++ " $" ++ Text.hexByte encoding.code
  else
    "$" ++ Text.hexByte encoding.code

/-- An encoding and the instruction that it stands for. -/
structure Opcode extends Encoding where
  /-- The instruction. -/
  instruction : Instruction
deriving DecidableEq, Repr

namespace Opcode

/-- The encoding and the instruction as text. -/
def text (opcode : Opcode) : String := opcode.toEncoding.text ++ " " ++ opcode.instruction.text

/-- The number of the last cycle of the opcode. The fetch of the prefix is no cycle of it. -/
def lastCycle (opcode : Opcode) : Nat :=
  opcode.instruction.duration.max - opcode.instruction.isPrefixed.toNat

end Opcode

end Sm83
