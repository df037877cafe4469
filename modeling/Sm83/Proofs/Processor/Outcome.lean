import Sm83.Proofs.Listing.Execution
import Sm83.Proofs.Stack.Effects

/-!
# What a run comes to

A processor that is poised is about to fetch an instruction, and nothing else is due. It runs from
there to a register file and a RAM, and these are what the cycles of the instruction lead to from
behind the fetch of its opcode.
-/

namespace Sm83.Processor

/-- The next tick fetches an instruction and does nothing else. -/
structure Poised (processor : Processor) : Prop where
  /-- The processor is between instructions. -/
  idle : processor.phase = .idle
  /-- It is not halted. -/
  fetching : processor.regs.halted = false
  /-- Interrupts are not about to be enabled. -/
  settled : processor.regs.imePending = false

/-- Ticking until idle over the RAM succeeds, and leaves these registers and this RAM. -/
def RunsTo (processor : Processor) (ram : Ram) (after : RegisterFile) (left : Ram) : Prop :=
  ∃ count,
    (processor.runUntilIdle.exec ram).value = ⟨.ok count, ⟨after, .idle⟩⟩ ∧
      (processor.runUntilIdle.exec ram).memory = left

variable {processor : Processor} {ram left : Ram} {after : RegisterFile}
  {instruction : Instruction}

/-- From between two instructions a processor that is not halted runs to what the cycles of the
instruction at its program counter lead to from behind the opcode. -/
theorem runsTo_of_leads (idle : processor.phase = .idle) (fetching : processor.regs.halted = false)
    (found : instructionAt ram processor.regs.pc = instruction) (defined : instruction ≠ .invalid)
    (leads : instruction.Leads (processor.started instruction) ram after left) :
    processor.RunsTo ram after left := by
  obtain ⟨count, latch, accesses, events, run⟩ := leads
  have same : (OpcodeTable.standard.lookup (encodingAt ram processor.regs.pc)).instruction =
      instruction := found
  have split := exec_runUntilIdle idle fetching ram
  simp only [found, execute, same, if_neg defined, Bus.exec_report, Bus.exec_bind, run, conclude]
    at split
  rw [RunsTo, split]
  exact ⟨_, rfl, rfl⟩

/-- The fetch of a plain opcode moves the program counter and may enable interrupts. -/
theorem exists_started (processor : Processor) (unprefixed : instruction.isPrefixed = false) :
    ∃ ime imePending,
      processor.started instruction = processor.regs.fetched ime imePending := by
  have single : instruction.opcodeBytes = 1 := by
    rw [Instruction.opcodeBytes, unprefixed]
    rfl
  unfold started promote
  rw [single]
  split
  · exact ⟨_, _, rfl⟩
  · exact ⟨_, _, rfl⟩

/-- A poised processor runs to what the cycles of the instruction at its program counter lead to
with nothing changed but that the program counter has moved behind the opcode. -/
theorem Poised.runsTo (poised : processor.Poised)
    (found : instructionAt ram processor.regs.pc = instruction) (defined : instruction ≠ .invalid)
    (leads : instruction.Leads
      { processor.regs with pc := processor.regs.pc + UInt16.ofNat instruction.opcodeBytes } ram
      after left) :
    processor.RunsTo ram after left := by
  have started : processor.started instruction =
      { processor.regs with pc := processor.regs.pc + UInt16.ofNat instruction.opcodeBytes } := by
    unfold started promote
    rw [if_neg (by simp [poised.settled])]
  rw [← started] at leads
  exact runsTo_of_leads poised.idle poised.fetching found defined leads

end Sm83.Processor
