import Sm83.Proofs.Processor.Reachable

/-!
# The bus traffic of a processor

A tick makes at most one access to the memory, the fetch of an opcode included, and none while the
processor is locked up or halted between instructions. Underneath, the first step of any opcode
leaves the memory alone and every other one uses the bus at most once; only the last step of a copy
from memory to memory, which the tables do not list, reads and then writes.
-/

namespace Sm83

namespace Processor

open Phase

variable {processor : Processor} {opcode : Opcode} {cycle : Nat} {activation : Activation}

/-- The processor makes no access: it is locked up, or it is halted between instructions. -/
def isQuiet (processor : Processor) : Bool :=
  processor.isLocked || processor.isIdle && processor.regs.halted

/-- What follows a step makes no access. -/
theorem always_advance_traffic {limit : Nat}
    (bounded : (opcode.step cycle activation processor.regs).Always fun _ accesses _ =>
      accesses.length ≤ limit) :
    (processor.advance opcode cycle activation).Always fun _ accesses _ =>
      accesses.length ≤ limit := by
  unfold advance
  rw [Bus.always_bind]
  apply bounded.mono
  rintro ⟨outcome, after, regs⟩ accesses events few
  rcases outcome with fault | progress
  · simpa [Bus.log] using few
  · cases progress <;> simpa using few

/-- Starting an instruction makes no access. -/
theorem always_dispatch_traffic (processor : Processor) (address : UInt16) (encoding : Encoding) :
    (processor.dispatch address encoding).Always fun _ accesses _ => accesses = [] := by
  have step := (OpcodeTable.standard.lookup encoding).always_step_first {} processor.regs
  have quiet := step.mono fun _ _ _ empty => Nat.le_of_eq (congrArg List.length empty)
  rw [dispatch_eq, Bus.always_report]
  apply (always_advance_traffic quiet).mono
  intro answer accesses events few
  exact List.eq_nil_of_length_eq_zero (Nat.le_zero.mp few)

/-- The tick that fetches a first byte makes one access. -/
theorem always_fetchOpcode_traffic (processor : Processor) :
    processor.fetchOpcode.Always fun _ accesses _ => accesses.length = 1 := by
  unfold fetchOpcode
  simp only [Bus.readByte, Bus.read_bind, Bus.done_bind, Bus.always_read]
  intro code
  by_cases isPrefix : code = prefixByte
  · rw [if_pos isPrefix]
    simp
  · rw [if_neg isPrefix]
    apply (always_dispatch_traffic _ _ _).mono
    rintro answer accesses events rfl
    rfl

/-- The tick that fetches a byte behind the prefix makes one access. -/
theorem always_fetchPrefixed_traffic (processor : Processor) :
    processor.fetchPrefixed.Always fun _ accesses _ => accesses.length = 1 := by
  unfold fetchPrefixed
  simp only [Bus.readByte, Bus.read_bind, Bus.done_bind, Bus.always_read]
  intro code
  apply (always_dispatch_traffic _ _ _).mono
  rintro answer accesses events rfl
  rfl

/-- A cycle of the dispatch of an interrupt makes at most one access. -/
theorem always_dispatchCycle_traffic (processor : Processor) (interrupt : Interrupt) (cycle : Nat) :
    (processor.dispatchCycle interrupt cycle).Always fun _ accesses _ => accesses.length ≤ 1 := by
  unfold dispatchCycle
  split <;> simp [Bus.writeByte]

/-- A tick from a sound phase makes at most one access, and none if the processor is quiet. -/
theorem always_tick_traffic (sound : processor.phase.Sound) :
    processor.tick.Always fun _ accesses _ =>
      accesses.length ≤ if processor.isQuiet then 0 else 1 := by
  unfold tick isQuiet isIdle isLocked
  cases phase : processor.phase with
  | idle =>
    cases halted : processor.regs.halted with
    | true => simp [halted]
    | false =>
      simp only [halted_promote, halted, Bool.false_eq_true, if_false, Bool.and_false,
        Bool.or_false]
      apply (always_fetchOpcode_traffic _).mono
      intro answer accesses events one
      exact Nat.le_of_eq one
  | prefixed =>
    apply (always_fetchPrefixed_traffic _).mono
    intro answer accesses events one
    exact Nat.le_of_eq one
  | executing opcode cycle activation =>
    rw [phase] at sound
    have underway : Underway opcode cycle activation := sound
    have single := OpcodeTable.copiesMemory_of_mem_entries underway.listed
    have step := opcode.always_step_traffic (cycle + 1) activation processor.regs fun _ => single
    have later : cycle + 1 ≠ 1 := by
      have started := underway.started
      omega
    rw [if_neg later] at step
    exact always_advance_traffic step
  | servicing interrupt cycle => exact always_dispatchCycle_traffic processor interrupt (cycle + 1)
  | locked fault => simp

/-- At most one access is made in a machine cycle: a tick of a reachable processor makes no more,
and none if the processor is quiet, and so does every accepted step of any opcode, except for the
last one of a copy from memory to memory. A first step leaves the memory alone. -/
theorem at_most_one_access :
    (∀ {processor : Processor}, Reachable processor →
      ∀ {μ : Type} [Memory μ] (memory : μ),
        (processor.tick.exec memory).accesses.length ≤ 1 ∧
          (processor.isQuiet → (processor.tick.exec memory).accesses = [])) ∧
    ∀ (opcode : Opcode) (cycle : Nat) (activation : Activation) (regs : RegisterFile)
      {μ : Type} [Memory μ] (memory : μ),
        let accesses := ((opcode.step cycle activation regs).exec memory).accesses
        (cycle = 1 → accesses = []) ∧
          (activation.violation opcode.lastCycle cycle = none →
            if cycle = opcode.lastCycle ∧ opcode.instruction.copiesMemory then
              ∃ read byte written, accesses = [.read read byte, .write written byte]
            else
              accesses.length ≤ 1) := by
  refine ⟨?_, ?_⟩
  · intro processor reachable μ _ memory
    have few := (always_tick_traffic reachable.sound).exec memory
    cases quiet : processor.isQuiet with
    | true =>
      have silent := List.eq_nil_of_length_eq_zero (Nat.le_zero.mp (by simpa [quiet] using few))
      simp [silent]
    | false => exact ⟨by simpa [quiet] using few, fun impossible => by cases impossible⟩
  · intro opcode cycle activation regs μ _ memory
    refine ⟨?_, fun due => ?_⟩
    · rintro rfl
      exact (opcode.always_step_first activation regs).exec memory
    · by_cases copy : cycle = opcode.lastCycle ∧ opcode.instruction.copiesMemory
      · rw [if_pos copy]
        exact (Opcode.always_step_copy regs copy.2 due copy.1).exec memory
      · rw [if_neg copy]
        have single : cycle = opcode.lastCycle → opcode.instruction.copiesMemory = false := by
          intro last
          simpa [last] using copy
        have few := (opcode.always_step_traffic cycle activation regs single).exec memory
        exact Nat.le_trans few (by split <;> decide)

/-- A tick makes at most one access; the last step of a copy from memory to memory makes two. -/
theorem accesses_of_copy :
    (∀ memory : Ram, ((afterBoot .mgb).tick.exec memory).accesses.length ≤ 1) ∧
      let opcode : Opcode := ⟨⟨0x76, false⟩, .load (.memory (.pair .hl)) (.memory (.pair .de))⟩
      opcode.lastCycle = 3 ∧ ∃ read byte written,
        ((opcode.step 3 ⟨2, false, {}⟩ {}).exec Ram.zero).accesses =
          [.read read byte, .write written byte] := by
  refine ⟨fun memory => (at_most_one_access.1 (.boot .mgb) memory).1, rfl, ?_⟩
  have copied := (at_most_one_access.2
    ⟨⟨0x76, false⟩, .load (.memory (.pair .hl)) (.memory (.pair .de))⟩ 3 ⟨2, false, {}⟩ {}
    Ram.zero).2 (by decide)
  rwa [if_pos (by decide)] at copied

end Processor

end Sm83
