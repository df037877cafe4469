import Sm83.Interrupt
import Sm83.Opcode

/-!
# Faults

Why a call was refused. A program can reach an opcode without a behaviour; all else is a mistake of
whoever drives the processor.
-/

namespace Sm83

/-- How a call broke the order of the cycles. -/
inductive Violation where
  /-- The cycle number was zero. -/
  | zeroth
  /-- Another cycle was due. -/
  | outOfOrder (due : Nat)
  /-- The instruction had completed. -/
  | retired
  /-- The instruction has fewer cycles. -/
  | pastLast (last : Nat)
  /-- An interrupt was to be dispatched before the instruction had completed. -/
  | inFlight
deriving DecidableEq, Repr

/-- The reason that a violation gives. -/
def Violation.message : Violation → String
  | zeroth => "cycles are numbered from 1"
  | outOfOrder due => "expected cycle " ++ toString due
  | retired => "instruction already retired"
  | pastLast last => "instruction only has " ++ toString last ++ " cycles"
  | inFlight => "interrupt service requested while an instruction is in flight"

/-- Why a call was refused. -/
inductive Fault where
  /-- The opcode has no defined behaviour. -/
  | undefinedOpcode (opcode : Encoding)
  /-- An instruction was driven out of order. -/
  | misstep (opcode : Encoding) (cycle : Nat) (violation : Violation)
  /-- An interrupt was requested while another was dispatched. -/
  | dispatchInProgress (requested active : Interrupt) (cycle : Nat)
  /-- The instruction stores to the byte after its own opcode, which is no place for a result. No
  opcode of the tables does. -/
  | immediateTarget
deriving DecidableEq, Repr

namespace Fault

/-- What a fault says. -/
def message : Fault → String
  | undefinedOpcode opcode => "unsupported opcode " ++ opcode.text
  | misstep opcode cycle violation =>
    opcode.text ++ " stepped with cycle " ++ toString cycle ++ ": " ++ violation.message
  | dispatchInProgress requested active cycle =>
    requested.text ++ " interrupt requested during cycle " ++ toString cycle ++ " of " ++
      active.text ++ " interrupt dispatch"
  | immediateTarget => "attempted to write to immediate operand"

/-- Whether the fault is a mistake of the caller rather than of the program that runs. -/
def isMisuse : Fault → Bool
  | undefinedOpcode _ => false
  | misstep .. | dispatchInProgress .. | immediateTarget => true

/-- The opcode byte that a fault is about. -/
def opcode? : Fault → Option UInt8
  | undefinedOpcode opcode | misstep opcode .. => some opcode.code
  | dispatchInProgress .. | immediateTarget => none

end Fault

end Sm83
