import Sm83.Instruction
import Sm83.Opcode

/-!
# Decoding

An opcode byte is read as three octal digits. The first selects a quadrant of the space, the other
two select the instruction and its operands within it.
-/

namespace Sm83.Decode

/-- The leading octal digit, from 0 to 3. -/
def quadrant (code : UInt8) : Fin 4 := Fin.ofNat 4 (code.toNat / 64)

/-- The middle octal digit. -/
def middle (code : UInt8) : Fin 8 := Fin.ofNat 8 (code.toNat / 8)

/-- The last octal digit. -/
def last (code : UInt8) : Fin 8 := Fin.ofNat 8 code.toNat

/-- The byte operand that a digit selects. -/
def operand : Fin 8 → Operand
  | 0 => .register .b
  | 1 => .register .c
  | 2 => .register .d
  | 3 => .register .e
  | 4 => .register .h
  | 5 => .register .l
  | 6 => .memory (.pair .hl)
  | 7 => .register .a

/-- The pair that the upper two bits of a digit select. -/
def pair (digit : Fin 8) : RegisterPair :=
  match digit.val / 2 with
  | 0 => .bc
  | 1 => .de
  | 2 => .hl
  | _ => .sp

/-- The pair that the upper two bits of a digit select for the stack, which takes AF for SP. -/
def stackPair (digit : Fin 8) : RegisterPair :=
  match digit.val / 2 with
  | 0 => .bc
  | 1 => .de
  | 2 => .hl
  | _ => .af

/-- The condition that the lower two bits of a digit select. -/
def condition (digit : Fin 8) : Condition :=
  match digit.val % 4 with
  | 0 => .nz
  | 1 => .z
  | 2 => .nc
  | _ => .c

/-- The accumulator operation that a digit selects. -/
def byteOp : Fin 8 → ByteOp
  | 0 => .add
  | 1 => .adc
  | 2 => .sub
  | 3 => .sbc
  | 4 => .and
  | 5 => .xor
  | 6 => .or
  | 7 => .cp

/-- The shift that a digit selects. -/
def shift : Fin 8 → Shift
  | 0 => .rlc
  | 1 => .rrc
  | 2 => .rl
  | 3 => .rr
  | 4 => .sla
  | 5 => .sra
  | 6 => .swap
  | 7 => .srl

/-- The accumulator as an operand. -/
def accumulator : Operand := .register .a

/-- The loads between the accumulator and the memory that a pair points to. -/
def indirectLoad : Fin 8 → Instruction
  | 0 => .load (.memory (.pair .bc)) accumulator
  | 1 => .load accumulator (.memory (.pair .bc))
  | 2 => .load (.memory (.pair .de)) accumulator
  | 3 => .load accumulator (.memory (.pair .de))
  | 4 => .load (.memory .hlIncrement) accumulator
  | 5 => .load accumulator (.memory .hlIncrement)
  | 6 => .load (.memory .hlDecrement) accumulator
  | 7 => .load accumulator (.memory .hlDecrement)

/-- The instructions on the accumulator and the flags alone. -/
def accumulatorOnly : Fin 8 → Instruction
  | 0 => .rotateA .rlc
  | 1 => .rotateA .rrc
  | 2 => .rotateA .rl
  | 3 => .rotateA .rr
  | 4 => .daa
  | 5 => .cpl
  | 6 => .scf
  | 7 => .ccf

/-- The first quadrant: word loads and arithmetic, increments, immediate loads, relative jumps. -/
def firstQuadrant (digit : Fin 8) : Fin 8 → Instruction
  | 0 =>
    match digit with
    | 0 => .nop
    | 1 => .storeSp
    | 2 => .stop
    | 3 => .jr none
    | _ => .jr (some (condition digit))
  | 1 => if digit.val % 2 = 0 then .loadPair (pair digit) else .addHl (pair digit)
  | 2 => indirectLoad digit
  | 3 => if digit.val % 2 = 0 then .incPair (pair digit) else .decPair (pair digit)
  | 4 => .inc (operand digit)
  | 5 => .dec (operand digit)
  | 6 => .load (operand digit) .immediate
  | 7 => accumulatorOnly digit

/-- The last quadrant: branches, the stack, the topmost page, and immediate arithmetic. -/
def lastQuadrant (digit : Fin 8) : Fin 8 → Instruction
  | 0 =>
    match digit with
    | 4 => .load (.memory .highPage) accumulator
    | 5 => .addSpOffset
    | 6 => .load accumulator (.memory .highPage)
    | 7 => .loadHlSpOffset
    | _ => .ret (some (condition digit))
  | 1 =>
    match digit with
    | 1 => .ret none
    | 3 => .reti
    | 5 => .jpHl
    | 7 => .loadSpHl
    | _ => .pop (stackPair digit)
  | 2 =>
    match digit with
    | 4 => .load (.memory .highPageC) accumulator
    | 5 => .load (.memory .absolute) accumulator
    | 6 => .load accumulator (.memory .highPageC)
    | 7 => .load accumulator (.memory .absolute)
    | _ => .jp (some (condition digit))
  | 3 =>
    match digit with
    | 0 => .jp none
    | 6 => .di
    | 7 => .ei
    | _ => .invalid
  | 4 => if digit.val < 4 then .call (some (condition digit)) else .invalid
  | 5 =>
    match digit with
    | 1 => .call none
    | 3 | 5 | 7 => .invalid
    | _ => .push (stackPair digit)
  | 6 => .combine (byteOp digit) .immediate
  | 7 => .rst (UInt8.ofNat (8 * digit.val))

/-- The instruction of a byte in the plain space. The prefix byte has none. -/
def plain (code : UInt8) : Instruction :=
  match quadrant code with
  | 0 => firstQuadrant (middle code) (last code)
  | 1 =>
    if code = 0x76 then .halt else .load (operand (middle code)) (operand (last code))
  | 2 => .combine (byteOp (middle code)) (operand (last code))
  | 3 => lastQuadrant (middle code) (last code)

/-- The instruction of a byte in the space behind the prefix byte. -/
def prefixed (code : UInt8) : Instruction :=
  match quadrant code with
  | 0 => .shift (shift (middle code)) (operand (last code))
  | 1 => .bit (middle code) (operand (last code))
  | 2 => .res (middle code) (operand (last code))
  | 3 => .set (middle code) (operand (last code))

end Sm83.Decode
