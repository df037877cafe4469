import Sm83.Opcode.Step
import Sm83.Opcode.Table

/-!
# The processor

The processor advances by one machine cycle with each tick: it fetches an opcode, finds it in the
tables, and steps it until it completes. Between instructions it may be asked to dispatch an
interrupt; it never looks for one by itself. An opcode without a behaviour locks it up until it is
reset.
-/

namespace Sm83

/-- What the processor is in the middle of. -/
inductive Phase where
  /-- Between instructions. -/
  | idle
  /-- Behind the prefix byte. -/
  | prefixed
  /-- In an instruction that is not complete, after the given cycle. -/
  | executing (opcode : Opcode) (cycle : Nat) (activation : Activation)
  /-- In the dispatch of an interrupt, after the given cycle. -/
  | servicing (interrupt : Interrupt) (cycle : Nat)
  /-- Locked up. -/
  | locked (fault : Fault)
deriving DecidableEq, Repr

/-- The processor. -/
structure Processor where
  /-- The register file. -/
  regs : RegisterFile
  /-- What the processor is in the middle of. -/
  phase : Phase := .idle
deriving DecidableEq, Repr

namespace Processor

/-- What a call to the processor leaves. -/
structure Answer (α : Type) where
  /-- The result, or why the call failed. -/
  outcome : Except Fault α
  /-- The processor after the call. -/
  processor : Processor

/-- A processor that is about to run its first instruction. -/
def afterBoot (model : Model) : Processor := { regs := RegisterFile.afterBoot model }

/-- Whether the processor is between instructions. One that is halted is, too. -/
def isIdle (processor : Processor) : Bool := processor.phase = .idle

/-- Whether the processor is locked up. -/
def isLocked (processor : Processor) : Bool :=
  match processor.phase with
  | .locked _ => true
  | _ => false

/-- The opcode that is executing and its last cycle. -/
def executing? (processor : Processor) : Option (Opcode × Nat) :=
  match processor.phase with
  | .executing opcode cycle _ => some (opcode, cycle)
  | _ => none

/-- The processor with its register file changed. -/
def withRegs (processor : Processor) (change : RegisterFile → RegisterFile) : Processor :=
  { processor with regs := change processor.regs }

/-! ## Calls from outside -/

/-- Start over, whatever the processor is in the middle of. -/
def reset (_ : Processor) (model : Model) : Bus Processor := do
  Bus.log (.reset model)
  return afterBoot model

/-- Resume fetching. -/
def resume (processor : Processor) : Bus Processor := do
  if processor.regs.halted then
    Bus.log (.woke processor.regs.pc)
  return processor.withRegs fun regs => { regs with halted := false }

/-- Ask for the dispatch of an interrupt, which can start only between instructions. -/
def request (processor : Processor) (interrupt : Interrupt) : Bus (Answer Unit) :=
  match processor.phase with
  | .idle => do
    Bus.log (.servicing interrupt processor.regs.pc)
    let regs := { processor.regs with ime := false, imePending := false, halted := false }
    return ⟨.ok (), ⟨regs, .servicing interrupt 0⟩⟩
  | .prefixed => return ⟨.error (.misstep ⟨prefixByte, false⟩ 1 .inFlight), processor⟩
  | .executing opcode cycle _ => return ⟨.error (opcode.misstep cycle .inFlight), processor⟩
  | .servicing active cycle =>
    return ⟨.error (.dispatchInProgress interrupt active cycle), processor⟩
  | .locked fault => return ⟨.error fault, processor⟩

/-! ## Executing -/

/-- Step an opcode, and lock up if that fails. -/
def advance (processor : Processor) (opcode : Opcode) (cycle : Nat) (activation : Activation) :
    Bus (Answer Unit) := do
  let stepped ← opcode.step cycle activation processor.regs
  match stepped.outcome with
  | .ok .retired => return ⟨.ok (), ⟨stepped.regs, .idle⟩⟩
  | .ok .running => return ⟨.ok (), ⟨stepped.regs, .executing opcode cycle stepped.activation⟩⟩
  | .error fault =>
    Bus.log (.locked fault stepped.regs)
    return ⟨.error fault, ⟨stepped.regs, .locked fault⟩⟩

/-- Start the instruction of an encoding whose first byte was fetched from an address. -/
def dispatch (processor : Processor) (address : UInt16) (encoding : Encoding) :
    Bus (Answer Unit) := do
  let opcode := OpcodeTable.standard.lookup encoding
  Bus.log (.dispatched address opcode.instruction)
  processor.advance opcode 1 {}

/-- The processor with the program counter moved past a byte. -/
def skipByte (processor : Processor) : Processor :=
  processor.withRegs fun regs => { regs with pc := regs.pc + 1 }

/-- The processor with interrupts enabled if they were about to be. -/
def promote (processor : Processor) : Processor :=
  if processor.regs.imePending then
    processor.withRegs fun regs => { regs with ime := true, imePending := false }
  else
    processor

/-- The tick that fetches the first byte of an instruction. -/
def fetchOpcode (processor : Processor) : Bus (Answer Unit) := do
  let code ← Bus.readByte processor.regs.pc
  if code = prefixByte then
    return ⟨.ok (), { processor.skipByte with phase := .prefixed }⟩
  else
    processor.skipByte.dispatch processor.regs.pc ⟨code, false⟩

/-- The tick that fetches the byte behind the prefix byte. -/
def fetchPrefixed (processor : Processor) : Bus (Answer Unit) := do
  let code ← Bus.readByte processor.regs.pc
  processor.skipByte.dispatch (processor.regs.pc - 1) ⟨code, true⟩

/-! ## Dispatching interrupts -/

/-- The processor with a byte on top of the stack made room for. -/
def reserve (processor : Processor) : Processor :=
  processor.withRegs fun regs => { regs with sp := regs.sp - 1 }

/-- A cycle of the dispatch of an interrupt: two without work, two that push the program counter,
and one that continues at the handler. -/
def dispatchCycle (processor : Processor) (interrupt : Interrupt) (cycle : Nat) :
    Bus (Answer Unit) :=
  let push (byte : UInt8) : Bus (Answer Unit) := do
    Bus.writeByte processor.reserve.regs.sp byte
    return ⟨.ok (), { processor.reserve with phase := .servicing interrupt cycle }⟩
  match cycle with
  | 1 | 2 => return ⟨.ok (), { processor with phase := .servicing interrupt cycle }⟩
  | 3 => push (Word.high processor.regs.pc)
  | 4 => push (Word.low processor.regs.pc)
  | _ => return ⟨.ok (), ⟨{ processor.regs with pc := interrupt.handler }, .idle⟩⟩

/-! ## Ticking -/

/-- Advance by one machine cycle. Interrupts that were about to be enabled are enabled as the next
instruction begins, so they are first seen enabled once it has completed. -/
def tick (processor : Processor) : Bus (Answer Unit) :=
  match processor.phase with
  | .idle =>
    if processor.promote.regs.halted then
      return ⟨.ok (), processor.promote⟩
    else
      processor.promote.fetchOpcode
  | .prefixed => processor.fetchPrefixed
  | .executing opcode cycle activation => processor.advance opcode (cycle + 1) activation
  | .servicing interrupt cycle => processor.dispatchCycle interrupt (cycle + 1)
  | .locked fault => return ⟨.error fault, processor⟩

/-- Tick until the processor is idle, for at most so many ticks, adding to those already made. -/
def runFor (limit : Nat) (processor : Processor) (made : Nat) : Bus (Answer Nat) :=
  match limit with
  | 0 => return ⟨.ok made, processor⟩
  | limit + 1 => do
    let ticked ← processor.tick
    match ticked.outcome with
    | .error fault => return ⟨.error fault, ticked.processor⟩
    | .ok () =>
      if ticked.processor.isIdle then
        return ⟨.ok (made + 1), ticked.processor⟩
      else
        ticked.processor.runFor limit (made + 1)

/-- A number of ticks within which every instruction and every dispatch completes. -/
def tickLimit : Nat := 8

/-- Tick until the processor is idle, at least once, and count the ticks. -/
def runUntilIdle (processor : Processor) : Bus (Answer Nat) := processor.runFor tickLimit 0

end Processor

end Sm83
