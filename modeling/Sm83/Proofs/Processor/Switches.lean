import Sm83.Proofs.Processor.Reachable
import Sm83.Proofs.Schedule.Switches

/-!
# What ticks do to the switches

A tick that is made of an instruction keeps the switches unless it completes the instruction, and
then they are what the instruction makes of them. Only the tick that starts an instruction comes in
front of that with a change of its own: it enables interrupts that were about to be.
-/

namespace Sm83

/-- The step that is due has done to the switches what the instruction does if it completes it, and
has kept them otherwise. -/
theorem Opcode.always_step_switches {opcode : Opcode} {cycle : Nat} {activation : Activation}
    (regs : RegisterFile) (defined : opcode.instruction ≠ .invalid)
    (storable : opcode.instruction.storesImmediate = false)
    (due : activation.violation opcode.lastCycle cycle = none) :
    (opcode.step cycle activation regs).Always fun stepped _ _ =>
      stepped.outcome = .ok .running ∧ stepped.regs.switches = regs.switches ∨
        stepped.outcome = .ok .retired ∧
          stepped.regs.switches = opcode.instruction.switch regs.switches := by
  obtain ⟨work, listed, step⟩ := step_of_due regs defined due
  have completes := opcode.instruction.completes_cycles _ listed fun _ => storable
  rw [step, always_carryOut]
  apply Bus.Always.mono (completes ⟨regs, _⟩)
  rintro ⟨outcome, context⟩ accesses events switched
  cases outcome with
  | error fault => exact switched.elim
  | ok progress =>
    cases progress with
    | running => exact .inl ⟨rfl, switched⟩
    | retired => exact .inr ⟨rfl, switched⟩

namespace Processor

open Phase

variable {processor left : Processor} {opcode : Opcode} {cycle : Nat} {activation : Activation}
  {instruction : Instruction} {before : Switches}

/-- What a tick that is made of an instruction leaves: the switches that the instruction makes of
those before it if it has completed, and those before it otherwise. -/
def Switched (left : Processor) (instruction : Instruction) (before : Switches) : Prop :=
  match left.phase with
  | .idle => left.regs.switches = instruction.switch before
  | .prefixed | .executing .. | .locked _ => left.regs.switches = before
  | .servicing .. => False

/-- A step that is due leaves the switches that it should. -/
theorem always_advance_switched (processor : Processor)
    (listed : opcode ∈ OpcodeTable.standard.entries) (defined : opcode.instruction ≠ .invalid)
    (due : activation.violation opcode.lastCycle cycle = none) :
    (processor.advance opcode cycle activation).Always fun answer _ _ =>
      answer.processor.Switched opcode.instruction processor.regs.switches := by
  have storable := OpcodeTable.storesImmediate_of_mem_entries listed
  unfold advance
  rw [Bus.always_bind]
  apply (Opcode.always_step_switches processor.regs defined storable due).mono
  rintro ⟨outcome, after, regs⟩ accesses events (⟨rfl, kept⟩ | ⟨rfl, changed⟩)
  · exact kept
  · exact changed

/-- The first step of an opcode leaves the switches that it should, whether the opcode has a
behaviour or not. -/
theorem always_dispatch_switched (processor : Processor) (address : UInt16)
    (encoding : Encoding) :
    (processor.dispatch address encoding).Always fun answer _ _ =>
      answer.processor.Switched (OpcodeTable.standard.lookup encoding).instruction
        processor.regs.switches := by
  rw [dispatch_eq, Bus.always_report]
  by_cases undefined : (OpcodeTable.standard.lookup encoding).instruction = .invalid
  · rw [advance_of_invalid undefined]
    exact rfl
  · have listed := OpcodeTable.standard.lookup_mem_entries encoding
    exact always_advance_switched processor listed undefined (Opcode.due_first _)

/-! ## Over a memory -/

variable {μ : Type} [Memory μ]

/-- The instruction that the next tick is made of, if it is made of one. -/
def underway? (processor : Processor) (memory : μ) : Option Instruction :=
  match processor.phase with
  | .idle =>
    if processor.regs.halted then none else some (instructionAt memory processor.regs.pc)
  | .prefixed => some (Decode.prefixed (Memory.read memory processor.regs.pc).1)
  | .executing opcode _ _ => some opcode.instruction
  | .servicing .. | .locked _ => none

/-- The switches that an instruction starts with or goes on with: between instructions, interrupts
that were about to be enabled are. -/
def entering (processor : Processor) : Switches :=
  if processor.phase = .idle then processor.promote.regs.switches else processor.regs.switches

/-- A tick that is made of an instruction leaves the switches that it should. -/
theorem switched_tick (sound : processor.phase.Sound) (memory : μ)
    (made : processor.underway? memory = some instruction) :
    (processor.tick.exec memory).value.processor.Switched instruction processor.entering := by
  unfold underway? at made
  unfold entering
  cases phase : processor.phase with
  | idle =>
    rw [phase] at made
    cases halted : processor.regs.halted with
    | true => simp [halted] at made
    | false =>
      obtain rfl : instructionAt memory processor.regs.pc = instruction := by
        simpa [halted] using made
      rw [if_pos rfl, tick_of_fetching phase halted]
      unfold fetchOpcode instructionAt encodingAt
      simp only [Bus.readByte, Bus.read_bind, Bus.done_bind, Bus.exec_read,
        Execution.value_behind, pc_promote]
      by_cases isPrefix : (Memory.read memory processor.regs.pc).1 = prefixByte
      · rw [if_pos isPrefix]
        exact rfl
      · rw [if_neg isPrefix, if_neg isPrefix]
        exact (always_dispatch_switched _ _ _).exec _
  | prefixed =>
    rw [phase] at made
    obtain rfl : Decode.prefixed (Memory.read memory processor.regs.pc).1 = instruction :=
      Option.some.inj made
    have fetched := (always_dispatch_switched processor.skipByte (processor.regs.pc - 1)
      ⟨(Memory.read memory processor.regs.pc).1, true⟩).exec
        (Memory.read memory processor.regs.pc).2
    rw [OpcodeTable.lookup_standard_prefixed] at fetched
    rw [tick, phase]
    exact fetched
  | executing opcode cycle activation =>
    rw [phase] at made sound
    obtain rfl : opcode.instruction = instruction := Option.some.inj made
    have underway : Underway opcode cycle activation := sound
    rw [tick, phase]
    exact (always_advance_switched processor underway.listed underway.defined
      underway.due).exec memory
  | servicing | locked =>
    rw [phase] at made
    cases made

end Processor

end Sm83
