import Sm83.Instruction
import Sm83.RegisterFile

/-!
# Arithmetic on the register file

What the arithmetic instructions do to the registers and the flags once they have their operand.
-/

namespace Sm83

/-- The flags of a result, which is zero or not. -/
def Flags.ofResult (value : UInt8) (subtracted halfCarry carry : Bool) : Flags :=
  ⟨value == 0, subtracted, halfCarry, carry⟩

/-- The result of an operation between the accumulator and a byte, and its flags. -/
def ByteOp.apply (op : ByteOp) (a byte : UInt8) (carry : Bool) : UInt8 × Flags :=
  let sum (result : Flagged UInt8) :=
    (result.value, Flags.ofResult result.value false result.halfCarry result.carry)
  let difference (result : Flagged UInt8) :=
    (result.value, Flags.ofResult result.value true result.halfCarry result.carry)
  match op with
  | add => sum (Arithmetic.add a byte)
  | adc => sum (Arithmetic.addCarry a byte carry)
  | sub | cp => difference (Arithmetic.sub a byte)
  | sbc => difference (Arithmetic.subBorrow a byte carry)
  | and => (a &&& byte, Flags.ofResult (a &&& byte) false true false)
  | xor => (a ^^^ byte, Flags.ofResult (a ^^^ byte) false false false)
  | or => (a ||| byte, Flags.ofResult (a ||| byte) false false false)

namespace RegisterFile

/-- Combine the accumulator with a byte. A comparison only sets the flags. -/
def combine (regs : RegisterFile) (op : ByteOp) (byte : UInt8) : RegisterFile :=
  let (value, flags) := op.apply regs.a byte regs.f.c
  { regs with a := if op = .cp then regs.a else value, f := flags }

/-- Correct the accumulator after arithmetic on packed decimal bytes. -/
def decimalAdjust (regs : RegisterFile) : RegisterFile :=
  let result := Arithmetic.decimalAdjust regs.a regs.f.n regs.f.h regs.f.c
  { regs with
    a := result.value
    f := { regs.f with z := result.value == 0, h := false, c := result.carry } }

/-- Complement the accumulator. -/
def complement (regs : RegisterFile) : RegisterFile :=
  { regs with a := ~~~regs.a, f := { regs.f with n := true, h := true } }

/-- Give the carry flag a value. -/
def putCarry (regs : RegisterFile) (carry : Bool) : RegisterFile :=
  { regs with f := { regs.f with n := false, h := false, c := carry } }

/-- Shift the accumulator. Unlike a shift of an operand, this clears the zero flag. -/
def rotateAccumulator (regs : RegisterFile) (kind : Shift) : RegisterFile :=
  let result := kind.apply regs.a regs.f.c
  { regs with a := result.value, f := ⟨false, false, false, result.carry⟩ }

/-- The flags after counting an operand up or down, which keeps the carry flag. -/
def flagCount (regs : RegisterFile) (result : Flagged UInt8) (down : Bool) : RegisterFile :=
  { regs with f := Flags.ofResult result.value down result.halfCarry regs.f.c }

/-- The flags after a shift of an operand. -/
def flagShift (regs : RegisterFile) (result : Carried) : RegisterFile :=
  { regs with f := Flags.ofResult result.value false false result.carry }

/-- The flags after a test of a bit, which keeps the carry flag. -/
def flagBit (regs : RegisterFile) (set : Bool) : RegisterFile :=
  { regs with f := ⟨!set, false, true, regs.f.c⟩ }

/-- Add a pair to HL, which keeps the zero flag. -/
def addToHl (regs : RegisterFile) (rr : RegisterPair) : RegisterFile :=
  let result := Arithmetic.addWords regs.hl (regs.getPair rr)
  let regs := regs.setPair .hl result.value
  { regs with f := { regs.f with n := false, h := result.halfCarry, c := result.carry } }

/-- Put the stack pointer, moved by an offset, into a pair. -/
def putSpOffset (regs : RegisterFile) (target : RegisterPair) (offset : UInt8) : RegisterFile :=
  let result := Arithmetic.addOffset regs.sp offset
  let regs := regs.setPair target result.value
  { regs with f := ⟨false, false, result.halfCarry, result.carry⟩ }

end RegisterFile

end Sm83
