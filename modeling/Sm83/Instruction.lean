import Sm83.Operand
import Sm83.Shift

/-!
# Instructions

One constructor for each kind of work that the processor can do, over the operands it does it to.
The length and the documented duration of an instruction are tables of their own: neither looks at
how the instruction is executed.
-/

namespace Sm83

/-- The operations between the accumulator and a byte. -/
inductive ByteOp where
  | add
  | adc
  | sub
  | sbc
  | and
  | xor
  | or
  | cp
deriving DecidableEq, Repr

/-- The instructions. The bytes that follow an opcode are fetched while it executes, so they are no
part of the instruction. -/
inductive Instruction where
  | nop
  | stop
  | halt
  /-- Disable interrupts. -/
  | di
  /-- Enable interrupts once the next instruction starts. -/
  | ei
  /-- Decimal adjustment of the accumulator. -/
  | daa
  /-- Complement of the accumulator. -/
  | cpl
  /-- Set the carry flag. -/
  | scf
  /-- Complement the carry flag. -/
  | ccf
  /-- Copy a byte. -/
  | load (target source : Operand)
  /-- Put the word after the opcode into a pair. -/
  | loadPair (rr : RegisterPair)
  /-- Store the stack pointer at the address after the opcode. -/
  | storeSp
  /-- Copy HL to the stack pointer. -/
  | loadSpHl
  /-- Put the stack pointer, moved by the offset after the opcode, into HL. -/
  | loadHlSpOffset
  /-- Move the stack pointer by the offset after the opcode. -/
  | addSpOffset
  | push (rr : RegisterPair)
  | pop (rr : RegisterPair)
  /-- Combine the accumulator with a byte. -/
  | combine (op : ByteOp) (source : Operand)
  | inc (operand : Operand)
  | dec (operand : Operand)
  | incPair (rr : RegisterPair)
  | decPair (rr : RegisterPair)
  /-- Add a pair to HL. -/
  | addHl (rr : RegisterPair)
  /-- Shift the accumulator, clearing the zero flag. -/
  | rotateA (kind : Shift)
  | jp (condition : Option Condition)
  | jpHl
  | jr (condition : Option Condition)
  | call (condition : Option Condition)
  | ret (condition : Option Condition)
  /-- Return and enable interrupts. -/
  | reti
  /-- Call a fixed address. -/
  | rst (vector : UInt8)
  /-- Shift an operand in place. -/
  | shift (kind : Shift) (operand : Operand)
  /-- Test a bit of an operand. -/
  | bit (index : Fin 8) (operand : Operand)
  /-- Clear a bit of an operand. -/
  | res (index : Fin 8) (operand : Operand)
  /-- Set a bit of an operand. -/
  | set (index : Fin 8) (operand : Operand)
  /-- An opcode without a defined behaviour. -/
  | invalid
deriving DecidableEq, Repr

/-- Durations in machine cycles. They differ only for a conditional branch, whose shorter one is
that of the branch not taken. -/
structure Duration where
  min : Nat
  max : Nat
deriving DecidableEq, Repr

namespace Duration

/-- A duration that no condition changes. -/
def always (cycles : Nat) : Duration := ⟨cycles, cycles⟩

/-- The duration of a branch, taken and not taken; one without a condition is always taken. -/
def branch (condition : Option Condition) (untaken taken : Nat) : Duration :=
  match condition with
  | none => always taken
  | some _ => ⟨untaken, taken⟩

end Duration

namespace Instruction

/-- Whether the instruction belongs to the opcode space behind the prefix byte. -/
def isPrefixed : Instruction → Bool
  | shift .. | bit .. | res .. | set .. => true
  | _ => false

/-- The number of bytes after the opcode, and before it where a prefix selects the space. -/
def extraBytes : Instruction → Nat
  | load target source => target.size + source.size
  | combine _ source => source.size
  | loadPair _ | storeSp | jp _ | call _ => 2
  | loadHlSpOffset | addSpOffset | jr _ | stop => 1
  | shift .. | bit .. | res .. | set .. => 1
  | _ => 0

/-- The number of bytes that encode the instruction, the prefix included. -/
def length (instruction : Instruction) : Nat := 1 + instruction.extraBytes

/-- The documented duration of the instruction, the fetch of the prefix included. -/
def duration : Instruction → Duration
  | nop | stop | halt | di | ei | daa | cpl | scf | ccf | rotateA _ | jpHl | invalid => .always 1
  | load target source =>
    .always (1 + target.size + source.size + target.accessCycles + source.accessCycles)
  | combine _ source => .always (1 + source.size + source.accessCycles)
  | inc operand | dec operand => .always (if operand.isMemory then 3 else 1)
  | incPair _ | decPair _ | addHl _ | loadSpHl => .always 2
  | loadPair _ | pop _ | loadHlSpOffset => .always 3
  | push _ | addSpOffset | reti | rst _ => .always 4
  | storeSp => .always 5
  | jp condition => .branch condition 3 4
  | jr condition => .branch condition 2 3
  | call condition => .branch condition 3 6
  | ret none => .always 4
  | ret (some _) => ⟨2, 5⟩
  | shift _ operand | res _ operand | set _ operand => .always (if operand.isMemory then 4 else 2)
  | bit _ operand => .always (if operand.isMemory then 3 else 2)

end Instruction

end Sm83
