import Sm83.Register

/-!
# Operands

Where an eight-bit instruction takes its value from and where it puts its result.
-/

namespace Sm83

/-- How the address of a memory operand is formed. -/
inductive AddressMode where
  /-- The word in a pair. -/
  | pair (rr : RegisterPair)
  /-- HL, which is incremented after use. -/
  | hlIncrement
  /-- HL, which is decremented after use. -/
  | hlDecrement
  /-- The word that follows the opcode. -/
  | absolute
  /-- The byte that follows the opcode, in the topmost page. -/
  | highPage
  /-- The byte in C, in the topmost page. -/
  | highPageC
deriving DecidableEq, Repr

/-- A place for a byte. -/
inductive Operand where
  /-- A byte register. -/
  | register (r : Register)
  /-- The byte that follows the opcode. -/
  | immediate
  /-- The byte in memory at an address. -/
  | memory (mode : AddressMode)
deriving DecidableEq, Repr

namespace AddressMode

/-- The number of bytes after the opcode that form the address. -/
def size : AddressMode → Nat
  | absolute => 2
  | highPage => 1
  | pair _ | hlIncrement | hlDecrement | highPageC => 0

end AddressMode

namespace Operand

/-- The number of bytes after the opcode that encode the operand. -/
def size : Operand → Nat
  | register _ => 0
  | immediate => 1
  | memory mode => mode.size

/-- Whether using the operand goes out on the memory bus. -/
def isMemory : Operand → Bool
  | memory _ => true
  | register _ | immediate => false

/-- The machine cycles that using the operand takes on the memory bus. -/
def accessCycles (operand : Operand) : Nat := operand.isMemory.toNat

/-- An operand is used on the memory bus at most once. -/
theorem accessCycles_le (operand : Operand) : operand.accessCycles ≤ 1 := Bool.toNat_le _

/-- An operand is encoded in at most a word. -/
theorem size_le (operand : Operand) : operand.size ≤ 2 := by
  rcases operand with _ | _ | _ | _ | _ | _ <;> simp [size, AddressMode.size]

end Operand

end Sm83
