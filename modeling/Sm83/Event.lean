import Sm83.Fault
import Sm83.RegisterFile

/-!
# Events

What the processor reports while it runs, how important each report is, and how it reads.
-/

namespace Sm83

/-- How important a report is. -/
inductive Level where
  | trace
  | debug
  | error
deriving DecidableEq, Repr

/-- The name of a level. -/
def Level.text : Level → String
  | trace => "TRACE"
  | debug => "DEBUG"
  | error => "ERROR"

/-- A report of the processor. -/
inductive Event where
  /-- The opcode tables were built. -/
  | tablesBuilt
  /-- The processor was reset. -/
  | reset (model : Model)
  /-- An instruction starts; its first byte is at the address. -/
  | dispatched (address : UInt16) (instruction : Instruction)
  /-- A relative jump was taken, from the address after it. -/
  | jumped (offset : UInt8) (source target : UInt16)
  /-- Fetching was suspended by the instruction at the address. -/
  | halted (address : UInt16)
  /-- Fetching was suspended by a stop at the address. -/
  | stopped (address : UInt16)
  /-- Fetching resumes at the address. -/
  | woke (address : UInt16)
  /-- Interrupts that were enabled, or about to be, no longer are. -/
  | interruptsDisabled
  /-- Interrupts will be enabled. -/
  | interruptsPending
  /-- A return enabled interrupts. -/
  | returnedFromInterrupt (target : UInt16)
  /-- The dispatch of an interrupt starts. -/
  | servicing (interrupt : Interrupt) (returnAddress : UInt16)
  /-- The processor locked up. -/
  | locked (fault : Fault) (regs : RegisterFile)
deriving DecidableEq, Repr

namespace Event

/-- How important a report is. -/
def level : Event → Level
  | dispatched .. | jumped .. => .trace
  | locked .. => .error
  | _ => .debug

/-- How a report reads. -/
def text : Event → String
  | tablesBuilt => "built dispatch tables"
  | reset model => "reset (" ++ model.text ++ ")"
  | dispatched address instruction => Text.upperHexWord address ++ ": " ++ instruction.text
  | jumped offset source target =>
    "JR " ++ Text.signedOffset offset ++ " from " ++ Text.upperHexWord source ++ " to " ++
      Text.upperHexWord target
  | halted address => "HALT at " ++ Text.upperHexWord address
  | stopped address => "STOP at " ++ Text.upperHexWord address
  | woke address => "woke from HALT at " ++ Text.upperHexWord address
  | interruptsDisabled => "interrupts disabled"
  | interruptsPending => "interrupts enabled after next instruction"
  | returnedFromInterrupt target =>
    "RETI to " ++ Text.upperHexWord target ++ ", interrupts enabled"
  | servicing interrupt returnAddress =>
    "servicing " ++ interrupt.text ++ " interrupt, return address " ++
      Text.upperHexWord returnAddress
  | locked fault regs => "CPU locked: " ++ fault.message ++ " [" ++ regs.text ++ "]"

end Event

end Sm83
