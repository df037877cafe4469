import Sm83.Bus

/-!
# Machine cycles

A machine cycle is a bus program that may change the registers and the latch in which an
instruction keeps what it has fetched so far. Here are the steps that cycles are made of: fetching
the bytes after an opcode, using an operand, and moving bytes to and from the stack.
-/

namespace Sm83

/-- What an instruction remembers between its cycles. -/
structure Latch where
  /-- The first byte fetched, or the lower half of a popped word. -/
  low : UInt8 := 0
  /-- The last byte fetched after the first, or the upper half of a popped word. -/
  high : UInt8 := 0
  /-- An operand that was read from memory in order to be tested or changed. -/
  value : UInt8 := 0
deriving DecidableEq, Repr, Inhabited

/-- The word that was fetched. -/
def Latch.word (latch : Latch) : UInt16 := Word.ofBytes latch.high latch.low

/-- What a cycle works on. -/
structure Context where
  /-- The register file. -/
  regs : RegisterFile
  /-- What earlier cycles left. -/
  latch : Latch := {}
deriving DecidableEq, Repr, Inhabited

/-- Whether an instruction has completed. -/
inductive Progress where
  | running
  | retired
deriving DecidableEq, Repr

/-- A part of a machine cycle. A cycle that fails keeps what it did up to then. -/
abbrev MachineCycle (α : Type) := ExceptT Fault (StateT Context Bus) α

namespace MachineCycle

variable {α β : Type}

/-- What a cycle does to a context. -/
def perform (cycle : MachineCycle α) (context : Context) : Bus (Except Fault α × Context) :=
  StateT.run (ExceptT.run cycle) context

/-- A cycle without work changes nothing. -/
@[simp] theorem perform_pure (value : α) (context : Context) :
    (pure value : MachineCycle α).perform context = .done (.ok value, context) := rfl

/-- A failing part changes nothing. -/
@[simp] theorem perform_throw (fault : Fault) (context : Context) :
    (throw fault : MachineCycle α).perform context = .done (.error fault, context) := rfl

/-- Parts of a cycle are performed in turn, up to the first that fails. -/
@[simp] theorem perform_bind (cycle : MachineCycle α) (next : α → MachineCycle β)
    (context : Context) :
    (cycle >>= next).perform context =
      cycle.perform context >>= fun
        | (.ok value, context) => (next value).perform context
        | (.error fault, context) => .done (.error fault, context) := by
  simp only [perform, ExceptT.run_bind, StateT.run_bind]
  congr 1
  funext outcome
  rcases outcome with ⟨_ | _, _⟩ <;> rfl

/-- Converting the result of a part is no part of its own. -/
@[simp] theorem perform_map (convert : α → β) (cycle : MachineCycle α) (context : Context) :
    (convert <$> cycle).perform context =
      cycle.perform context >>= fun (outcome, context) => .done (convert <$> outcome, context) := by
  rw [map_eq_pure_bind, perform_bind]
  congr 1
  funext outcome
  rcases outcome with ⟨_ | _, _⟩ <;> rfl

/-! ## Registers, latch and bus -/

/-- The register file. -/
def regs : MachineCycle RegisterFile := return (← get).regs

/-- Change the register file. -/
def changeRegs (change : RegisterFile → RegisterFile) : MachineCycle Unit :=
  modify fun context => { context with regs := change context.regs }

/-- What earlier cycles left. -/
def latch : MachineCycle Latch := return (← get).latch

/-- Change what later cycles find. -/
def changeLatch (change : Latch → Latch) : MachineCycle Unit :=
  modify fun context => { context with latch := change context.latch }

/-- Read a byte over the bus. -/
def readByte (address : UInt16) : MachineCycle UInt8 := liftM (Bus.readByte address)

/-- Write a byte over the bus. -/
def writeByte (address : UInt16) (byte : UInt8) : MachineCycle Unit :=
  liftM (Bus.writeByte address byte)

/-- Report an event. -/
def log (event : Event) : MachineCycle Unit := liftM (Bus.log event)

/-- Looking at the registers changes nothing. -/
@[simp] theorem perform_regs (context : Context) :
    regs.perform context = .done (.ok context.regs, context) := rfl

/-- A change of the registers is all that it does. -/
@[simp] theorem perform_changeRegs (change : RegisterFile → RegisterFile) (context : Context) :
    (changeRegs change).perform context =
      .done (.ok (), { context with regs := change context.regs }) := rfl

/-- Looking at the latch changes nothing. -/
@[simp] theorem perform_latch (context : Context) :
    latch.perform context = .done (.ok context.latch, context) := rfl

/-- A change of the latch is all that it does. -/
@[simp] theorem perform_changeLatch (change : Latch → Latch) (context : Context) :
    (changeLatch change).perform context =
      .done (.ok (), { context with latch := change context.latch }) := rfl

/-- A read is one access. -/
@[simp] theorem perform_readByte (address : UInt16) (context : Context) :
    (readByte address).perform context =
      .read address fun byte => .done (.ok byte, context) := rfl

/-- A write is one access. -/
@[simp] theorem perform_writeByte (address : UInt16) (byte : UInt8) (context : Context) :
    (writeByte address byte).perform context =
      .write address byte (.done (.ok (), context)) := rfl

/-- A report is no access. -/
@[simp] theorem perform_log (event : Event) (context : Context) :
    (log event).perform context = .report event (.done (.ok (), context)) := rfl

/-! ## Fetching -/

/-- Read the byte at the program counter and move past it. -/
def fetch : MachineCycle UInt8 := do
  let address := (← regs).pc
  changeRegs fun regs => { regs with pc := address + 1 }
  readByte address

/-- Fetch the first byte after the opcode. -/
def fetchLow : MachineCycle Unit := do
  let byte ← fetch
  changeLatch fun latch => { latch with low := byte }

/-- Fetch a further byte after the opcode. -/
def fetchHigh : MachineCycle Unit := do
  let byte ← fetch
  changeLatch fun latch => { latch with high := byte }

/-- Continue at an address. -/
def jump (target : UInt16) : MachineCycle Unit := changeRegs fun regs => { regs with pc := target }

/-! ## The stack -/

/-- Move the stack pointer down. -/
def reserve : MachineCycle Unit := changeRegs fun regs => { regs with sp := regs.sp - 1 }

/-- Push the upper half of a word and make room for the lower half. -/
def pushHigh (word : RegisterFile → UInt16) : MachineCycle Unit := do
  let regs ← regs
  writeByte regs.sp (Word.high (word regs))
  reserve

/-- Push the lower half of a word. -/
def pushLow (word : RegisterFile → UInt16) : MachineCycle Unit := do
  let regs ← regs
  writeByte regs.sp (Word.low (word regs))

/-- Read the byte on top of the stack and move the stack pointer up. -/
def popByte : MachineCycle UInt8 := do
  let address := (← regs).sp
  changeRegs fun regs => { regs with sp := address + 1 }
  readByte address

/-- Pop the lower half of a word. -/
def popLow : MachineCycle Unit := do
  let byte ← popByte
  changeLatch fun latch => { latch with low := byte }

/-- Pop the upper half of a word. -/
def popHigh : MachineCycle Unit := do
  let byte ← popByte
  changeLatch fun latch => { latch with high := byte }

end MachineCycle

/-! ## Operands -/

open MachineCycle

/-- The address of a memory operand. Forming it moves HL where the mode says so. -/
def AddressMode.address : AddressMode → MachineCycle UInt16
  | pair rr => return (← regs).getPair rr
  | hlIncrement => do
    let pointer := (← regs).hl
    changeRegs (·.setPair .hl (pointer + 1))
    return pointer
  | hlDecrement => do
    let pointer := (← regs).hl
    changeRegs (·.setPair .hl (pointer - 1))
    return pointer
  | absolute => return (← latch).word
  | highPage => return Word.ofBytes 0xFF (← latch).low
  | highPageC => return Word.ofBytes 0xFF (← regs).c

/-- The byte in an operand. -/
def Operand.load : Operand → MachineCycle UInt8
  | register r => return (← regs).get r
  | immediate => return (← latch).low
  | memory mode => do readByte (← mode.address)

/-- Put a byte into an operand. -/
def Operand.store (operand : Operand) (byte : UInt8) : MachineCycle Unit :=
  match operand with
  | register r => changeRegs (·.set r byte)
  | immediate => throw .immediateTarget
  | memory mode => do writeByte (← mode.address) byte

end Sm83
