import Sm83.Processor
import Sm83.Proofs.Opcode.Step
import Sm83.Proofs.Opcode.Table

/-!
# Sound phases

The phase of a processor is sound if the opcode that executes is a listed one that has a further
cycle to go, if the dispatch of an interrupt has not gone past its fourth cycle, and if the
processor locked up over one of the undefined bytes. Every tick keeps the phase sound, and from a
sound phase the step of a tick is always the one that is due.
-/

namespace Sm83

namespace Phase

/-- What is known of an opcode that executes: it is a listed one with a behaviour, the cycle that it
has come to is not its last one, and the activation agrees. -/
structure Underway (opcode : Opcode) (cycle : Nat) (activation : Activation) : Prop where
  /-- The opcode is one of the tables. -/
  listed : opcode ∈ OpcodeTable.standard.entries
  /-- The opcode has a behaviour. -/
  defined : opcode.instruction ≠ .invalid
  /-- At least the first cycle was made. -/
  started : 1 ≤ cycle
  /-- A further cycle is to come. -/
  unfinished : cycle < opcode.lastCycle
  /-- The activation has noted the cycle. -/
  noted : activation.cycle = cycle
  /-- The activation has not noted a completion. -/
  unretired : activation.retired = false

/-- What is known of the phase of a processor between two calls. -/
def Sound : Phase → Prop
  | idle | prefixed => True
  | executing opcode cycle activation => Underway opcode cycle activation
  | servicing _ cycle => cycle ≤ 4
  | locked fault => ∃ code ∈ Decode.undefinedCodes, fault = .undefinedOpcode ⟨code, false⟩

/-- The number of the cycle that the next tick makes. -/
def nextCycle : Phase → Nat
  | executing _ cycle _ | servicing _ cycle => cycle + 1
  | idle | prefixed | locked _ => 1

variable {opcode : Opcode} {cycle : Nat} {activation : Activation}

/-- The cycle after the last one that was made is due. -/
theorem Underway.due (underway : Underway opcode cycle activation) :
    activation.violation opcode.lastCycle (cycle + 1) = none := by
  rw [Activation.violation_eq_none_iff]
  have started := underway.started
  have unfinished := underway.unfinished
  have noted := underway.noted
  refine ⟨by omega, by omega, ?_⟩
  rw [if_neg (by omega)]
  exact ⟨underway.unretired, by omega⟩

/-- An opcode whose due cycle did not complete it is underway. -/
theorem underway_of_running {regs : RegisterFile} {before : Activation}
    (listed : opcode ∈ OpcodeTable.standard.entries) (defined : opcode.instruction ≠ .invalid)
    (due : before.violation opcode.lastCycle cycle = none)
    (running : opcode.instruction.progress cycle regs = .running)
    (stepped : activation = Activation.after cycle .running activation.latch) :
    Underway opcode cycle activation := by
  obtain ⟨started, bound, -⟩ := Activation.violation_eq_none_iff.mp due
  have length := Opcode.length_cycles_eq_lastCycle defined
  have before := Instruction.ne_length_of_running running
  refine ⟨listed, defined, started, by omega, ?_, ?_⟩
  · rw [stepped]
    rfl
  · rw [stepped]
    rfl

/-- The next cycle of a sound phase has a small number. -/
theorem Sound.nextCycle_le {phase : Phase} (sound : phase.Sound) : phase.nextCycle ≤ 6 := by
  cases phase with
  | idle | prefixed | locked => exact Nat.le_of_ble_eq_true rfl
  | executing opcode cycle activation =>
    have unfinished := Underway.unfinished sound
    have short := OpcodeTable.duration_of_mem_entries (Underway.listed sound)
    unfold Opcode.lastCycle at unfinished
    simp only [nextCycle]
    omega
  | servicing interrupt cycle =>
    have bound : cycle ≤ 4 := sound
    simp only [nextCycle]
    omega

end Phase

namespace Processor

open Phase

variable {processor : Processor} {opcode : Opcode} {cycle : Nat} {activation : Activation}

/-- Enabling interrupts that were about to be changes no phase. -/
@[simp] theorem phase_promote (processor : Processor) :
    processor.promote.phase = processor.phase := by
  unfold promote
  split <;> rfl

/-- Enabling interrupts that were about to be does not resume fetching. -/
@[simp] theorem halted_promote (processor : Processor) :
    processor.promote.regs.halted = processor.regs.halted := by
  unfold promote
  split <;> rfl

/-- Enabling interrupts that were about to be changes no flag. -/
@[simp] theorem f_promote (processor : Processor) :
    processor.promote.regs.f = processor.regs.f := by
  unfold promote
  split <;> rfl

/-- Enabling interrupts that were about to be does not move the program counter. -/
@[simp] theorem pc_promote (processor : Processor) :
    processor.promote.regs.pc = processor.regs.pc := by
  unfold promote
  split <;> rfl

/-- A step that is due either completes the instruction or leaves it underway, as the progress of
its cycle says, and keeps the flags in the latter case. -/
theorem always_advance (processor : Processor) (listed : opcode ∈ OpcodeTable.standard.entries)
    (defined : opcode.instruction ≠ .invalid)
    (due : activation.violation opcode.lastCycle cycle = none) :
    (processor.advance opcode cycle activation).Always fun answer _ _ =>
      answer.outcome = .ok () ∧
        match opcode.instruction.progress cycle processor.regs with
        | .retired => answer.processor.phase = .idle
        | .running => ∃ after, answer.processor.phase = .executing opcode cycle after ∧
          Underway opcode cycle after ∧ answer.processor.regs.f = processor.regs.f := by
  have storable := OpcodeTable.storesImmediate_of_mem_entries listed
  have step := Opcode.always_step_of_due processor.regs defined (fun _ => storable) due
  unfold advance
  rw [Bus.always_bind]
  apply step.mono
  rintro ⟨outcome, after, regs⟩ accesses events ⟨rfl, noted, kept⟩
  cases progress : opcode.instruction.progress cycle processor.regs with
  | retired => exact ⟨rfl, rfl⟩
  | running =>
    rw [progress] at noted kept
    have underway := underway_of_running listed defined due progress noted
    exact ⟨rfl, after, rfl, underway, kept rfl⟩

/-- A step that is due keeps the phase sound and does not fail. -/
theorem always_advance_sound (listed : opcode ∈ OpcodeTable.standard.entries)
    (defined : opcode.instruction ≠ .invalid)
    (due : activation.violation opcode.lastCycle cycle = none) :
    (processor.advance opcode cycle activation).Always fun answer _ _ =>
      answer.outcome = .ok () ∧ answer.processor.phase.Sound := by
  apply (always_advance processor listed defined due).mono
  rintro answer accesses events ⟨succeeded, left⟩
  refine ⟨succeeded, ?_⟩
  cases progress : opcode.instruction.progress cycle processor.regs with
  | retired =>
    rw [progress] at left
    rw [show answer.processor.phase = .idle from left]
    trivial
  | running =>
    rw [progress] at left
    obtain ⟨after, phase, underway, -⟩ := left
    rw [phase]
    exact underway

/-- The first step of an opcode without a behaviour locks the processor up. -/
theorem advance_of_invalid (undefined : opcode.instruction = .invalid) :
    processor.advance opcode 1 {} =
      .report (.locked (.undefinedOpcode opcode.toEncoding) processor.regs)
        (.done ⟨.error (.undefinedOpcode opcode.toEncoding),
          ⟨processor.regs, .locked (.undefinedOpcode opcode.toEncoding)⟩⟩) := by
  unfold advance
  rw [Opcode.step_of_invalid undefined opcode.due_first]
  rfl

/-- The start of an instruction is reported before its first step. -/
theorem dispatch_eq (processor : Processor) (address : UInt16) (encoding : Encoding) :
    processor.dispatch address encoding =
      .report (.dispatched address (OpcodeTable.standard.lookup encoding).instruction)
        (processor.advance (OpcodeTable.standard.lookup encoding) 1 {}) := by
  unfold dispatch
  rfl

/-- A tick between two instructions fetches an opcode, unless the processor is halted. -/
theorem tick_of_fetching (idle : processor.phase = .idle)
    (fetching : processor.regs.halted = false) :
    processor.tick = processor.promote.fetchOpcode := by
  rw [tick, idle]
  simp [fetching]

end Processor

end Sm83
