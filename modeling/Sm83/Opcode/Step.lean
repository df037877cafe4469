import Sm83.Instruction.Schedule

/-!
# Stepping an opcode

An opcode is stepped by the number of the cycle, from one up to the cycle that completes it. An
activation carries what one run of an instruction needs from cycle to cycle, and the order of the
numbers is checked against it: a refused step changes nothing. The first cycle wipes the activation,
so nothing of an earlier instruction is left in it.
-/

namespace Sm83

/-- The state of one run of an opcode. -/
structure Activation where
  /-- The last cycle that was stepped, zero if none was. -/
  cycle : Nat := 0
  /-- Whether the opcode has completed. -/
  retired : Bool := false
  /-- What the instruction remembers. -/
  latch : Latch := {}
deriving DecidableEq, Repr, Inhabited

/-- What a step leaves. -/
structure Stepped where
  /-- How far the instruction has come, or why the step was refused. -/
  outcome : Except Fault Progress
  /-- The activation after the step. -/
  activation : Activation
  /-- The register file after the step. -/
  regs : RegisterFile

namespace Activation

/-- Why a cycle may not be stepped next, if it may not. An activation that has started an
instruction and not completed it takes no first cycle; one that has completed it takes no other. -/
def violation (activation : Activation) (last cycle : Nat) : Option Violation :=
  if cycle = 0 then
    some .zeroth
  else if last < cycle then
    some (.pastLast last)
  else if cycle = 1 then
    if activation.cycle ≠ 0 ∧ activation.retired = false then
      some (.outOfOrder (activation.cycle + 1))
    else
      none
  else if activation.retired then
    some .retired
  else if cycle ≠ activation.cycle + 1 then
    some (.outOfOrder (activation.cycle + 1))
  else
    none

/-- The activation that a cycle starts with. -/
def entering (activation : Activation) (cycle : Nat) : Activation :=
  if cycle = 1 then {} else activation

/-- The activation after a cycle. -/
def after (cycle : Nat) (progress : Progress) (latch : Latch) : Activation :=
  ⟨cycle, progress = .retired, latch⟩

end Activation

namespace Opcode

/-- The fault of a step that breaks the order of the cycles. -/
def misstep (opcode : Opcode) (cycle : Nat) (violation : Violation) : Fault :=
  .misstep opcode.toEncoding cycle violation

/-- Do the work of a cycle and note how far it came. -/
def carryOut (cycle : Nat) (activation : Activation) (regs : RegisterFile)
    (work : MachineCycle Progress) : Bus Stepped := do
  let (outcome, context) ← work.perform ⟨regs, activation.latch⟩
  match outcome with
  | .ok progress =>
    return ⟨.ok progress, Activation.after cycle progress context.latch, context.regs⟩
  | .error fault => return ⟨.error fault, activation, context.regs⟩

/-- Do the work of the cycle that is due. An opcode without a behaviour completes with a fault and
touches nothing. -/
def perform (opcode : Opcode) (cycle : Nat) (activation : Activation) (regs : RegisterFile) :
    Bus Stepped :=
  if opcode.instruction = .invalid then
    return ⟨.error (.undefinedOpcode opcode.toEncoding), { activation with retired := true }, regs⟩
  else
    match opcode.instruction.cycles[cycle - 1]? with
    | some work => carryOut cycle activation regs work
    | none => return ⟨.error (opcode.misstep cycle (.pastLast opcode.lastCycle)), activation, regs⟩

/-- Step one cycle of an opcode. -/
def step (opcode : Opcode) (cycle : Nat) (activation : Activation) (regs : RegisterFile) :
    Bus Stepped :=
  match activation.violation opcode.lastCycle cycle with
  | some violation => return ⟨.error (opcode.misstep cycle violation), activation, regs⟩
  | none => opcode.perform cycle (activation.entering cycle) regs

/-- The cycles of an opcode with a behaviour are numbered up to the last one. -/
theorem length_cycles_eq_lastCycle {opcode : Opcode} (defined : opcode.instruction ≠ .invalid) :
    opcode.instruction.cycles.length = opcode.lastCycle := by
  have total := Instruction.length_cycles defined
  simp only [lastCycle]
  omega

/-- A refused step changes nothing. -/
theorem step_of_violation {opcode : Opcode} {cycle : Nat} {activation : Activation}
    {regs : RegisterFile} {violation : Violation}
    (refused : activation.violation opcode.lastCycle cycle = some violation) :
    opcode.step cycle activation regs =
      .done ⟨.error (opcode.misstep cycle violation), activation, regs⟩ := by
  simp [step, refused]

end Opcode

end Sm83
