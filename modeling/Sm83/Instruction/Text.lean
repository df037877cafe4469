import Sm83.Instruction
import Sm83.Text.Numeral

/-!
# Assembly text

The text of an instruction is a template: fixed words around the places where the bytes after the
opcode show. A listing fills the places with the value that was read; without one they show what
kind of value belongs there.
-/

namespace Sm83

namespace Text

/-- What kind of value shows at a place of a template. -/
inductive Slot where
  /-- A byte. -/
  | byte
  /-- A word. -/
  | word
  /-- An address. -/
  | address
  /-- The lower half of an address in the topmost page. -/
  | page
  /-- A signed offset. -/
  | offset
  /-- A signed offset added to what stands before it. -/
  | addedOffset
deriving DecidableEq, Repr

/-- What a slot shows where no value is known. -/
def Slot.placeholder : Slot → String
  | byte => "d8"
  | word => "d16"
  | address => "a16"
  | page => "a8"
  | offset => "r8"
  | addedOffset => "+r8"

/-- What a slot shows for a value. -/
def Slot.fill (value : UInt16) : Slot → String
  | byte | page => "$" ++ hexByte (Word.low value)
  | word | address => "$" ++ hexWord value
  | offset | addedOffset => signedOffset (Word.low value)

/-- A part of a template. -/
inductive Piece where
  | words (text : String)
  | slot (kind : Slot)
deriving DecidableEq, Repr

/-- The text of a part of a template. -/
def Piece.text (value : Option UInt16) : Piece → String
  | words text => text
  | slot kind => (value.map kind.fill).getD kind.placeholder

end Text

open Text.Piece

namespace Operand

/-- The template of an operand. -/
def template : Operand → List Text.Piece
  | register r => [words r.text]
  | immediate => [slot .byte]
  | memory (.pair rr) => [words ("[" ++ rr.text ++ "]")]
  | memory .hlIncrement => [words "[hl+]"]
  | memory .hlDecrement => [words "[hl-]"]
  | memory .absolute => [words "[", slot .address, words "]"]
  | memory .highPage => [words "[$ff00+", slot .page, words "]"]
  | memory .highPageC => [words "[$ff00+c]"]

/-- The text of an operand, no value known. -/
def text (operand : Operand) : String :=
  String.join (operand.template.map (Text.Piece.text none))

end Operand

namespace ByteOp

/-- The words before the source of an accumulator operation. The sums and the stored differences
name the accumulator; the other operations leave it understood. -/
def text : ByteOp → String
  | add => "add a, "
  | adc => "adc a, "
  | sub => "sub a, "
  | sbc => "sbc a, "
  | and => "and "
  | xor => "xor "
  | or => "or "
  | cp => "cp "

end ByteOp

namespace Instruction

/-- The name of a branch and its condition, up to its target. -/
def branchWords (name : String) : Option Condition → String
  | none => name ++ " "
  | some condition => name ++ " " ++ condition.text ++ ", "

/-- The template of an instruction. -/
def template : Instruction → List Text.Piece
  | nop => [words "nop"]
  | stop => [words "stop"]
  | halt => [words "halt"]
  | di => [words "di"]
  | ei => [words "ei"]
  | daa => [words "daa"]
  | cpl => [words "cpl"]
  | scf => [words "scf"]
  | ccf => [words "ccf"]
  | load target source => words "ld " :: target.template ++ words ", " :: source.template
  | loadPair rr => [words ("ld " ++ rr.text ++ ", "), slot .word]
  | storeSp => [words "ld [", slot .address, words "], sp"]
  | loadSpHl => [words "ld sp, hl"]
  | loadHlSpOffset => [words "ld hl, sp", slot .addedOffset]
  | addSpOffset => [words "add sp, ", slot .offset]
  | push rr => [words ("push " ++ rr.text)]
  | pop rr => [words ("pop " ++ rr.text)]
  | combine op source => words op.text :: source.template
  | inc operand => words "inc " :: operand.template
  | dec operand => words "dec " :: operand.template
  | incPair rr => [words ("inc " ++ rr.text)]
  | decPair rr => [words ("dec " ++ rr.text)]
  | addHl rr => [words ("add hl, " ++ rr.text)]
  | rotateA .rlc => [words "rlca"]
  | rotateA .rrc => [words "rrca"]
  | rotateA .rl => [words "rla"]
  | rotateA .rr => [words "rra"]
  | rotateA kind => [words (kind.text ++ " a")]
  | jp condition => [words (branchWords "jp" condition), slot .address]
  | jpHl => [words "jp hl"]
  | jr condition => [words (branchWords "jr" condition), slot .offset]
  | call condition => [words (branchWords "call" condition), slot .address]
  | ret none => [words "ret"]
  | ret (some condition) => [words ("ret " ++ condition.text)]
  | reti => [words "reti"]
  | rst vector => [words ("rst $" ++ Text.hexByte vector)]
  | shift kind operand => words (kind.text ++ " ") :: operand.template
  | bit index operand => words ("bit " ++ toString index.val ++ ", ") :: operand.template
  | res index operand => words ("res " ++ toString index.val ++ ", ") :: operand.template
  | set index operand => words ("set " ++ toString index.val ++ ", ") :: operand.template
  | invalid => [words "invalid"]

/-- The text of an instruction around the value of the bytes after its opcode, if that is known. -/
def textWith (instruction : Instruction) (value : Option UInt16) : String :=
  String.join (instruction.template.map (Text.Piece.text value))

/-- The text of an instruction, no value known. -/
def text (instruction : Instruction) : String := instruction.textWith none

end Instruction

end Sm83
