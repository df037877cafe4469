import Sm83.Proofs.Processor.Loop
import Sm83.Proofs.Processor.Phase

/-!
# Histories

The history of a processor over a memory is what its ticks did, one entry a tick, whether they
succeeded or not. A tick is one step of an opcode, behind the fetch of a byte where the opcode has
one, so a history is told by the steps of opcodes.
-/

namespace Sm83

/-- What a step of an opcode means to a processor that makes it: the opcode has completed, it goes
on with the next tick, or the processor locks up. -/
def Stepped.answer (stepped : Stepped) (opcode : Opcode) (cycle : Nat) :
    Processor.Answer Unit :=
  match stepped.outcome with
  | .ok .retired => ⟨.ok (), ⟨stepped.regs, .idle⟩⟩
  | .ok .running => ⟨.ok (), ⟨stepped.regs, .executing opcode cycle stepped.activation⟩⟩
  | .error fault => ⟨.error fault, ⟨stepped.regs, .locked fault⟩⟩

/-- An answer fails as the step did. -/
theorem Stepped.outcome_answer (stepped : Stepped) (opcode : Opcode) (cycle : Nat) :
    (stepped.answer opcode cycle).outcome = stepped.outcome.map fun _ => () := by
  unfold answer
  rcases stepped.outcome with fault | _ | _ <;> rfl

/-- An answer leaves the registers that the step left. -/
theorem Stepped.regs_answer (stepped : Stepped) (opcode : Opcode) (cycle : Nat) :
    (stepped.answer opcode cycle).processor.regs = stepped.regs := by
  unfold answer
  rcases stepped.outcome with fault | _ | _ <;> rfl

namespace Processor

variable {μ : Type} [Memory μ] {processor : Processor} {memory : μ} {opcode : Opcode}
  {cycle : Nat} {activation : Activation}

/-- What so many ticks did, in order. A tick that fails is followed by others. -/
def history (processor : Processor) (memory : μ) : Nat → List (Execution μ (Answer Unit))
  | 0 => []
  | count + 1 =>
    let ticked := processor.tick.exec memory
    ticked :: ticked.value.processor.history ticked.memory count

/-- A history has an entry for every tick. -/
@[simp] theorem length_history (processor : Processor) (memory : μ) (count : Nat) :
    (processor.history memory count).length = count := by
  induction count generalizing processor memory with
  | zero => rfl
  | succ count ih => simp [history, ih]

/-! ## Ticks that step an opcode -/

/-- Advancing an opcode over a memory answers its step and makes the accesses of the step. -/
theorem exec_advance (processor : Processor) (opcode : Opcode) (cycle : Nat)
    (activation : Activation) (memory : μ) :
    let stepped := (opcode.step cycle activation processor.regs).exec memory
    let advanced := (processor.advance opcode cycle activation).exec memory
    advanced.value = stepped.value.answer opcode cycle ∧ advanced.memory = stepped.memory ∧
      advanced.accesses = stepped.accesses := by
  intro stepped advanced
  have split : advanced = _ := Bus.exec_bind _ _ memory
  rw [split]
  unfold Stepped.answer
  rcases outcome : stepped.value.outcome with fault | _ | _ <;>
    simp [stepped, Bus.log, Execution.behind]

/-- A tick in the middle of an opcode advances it. -/
theorem tick_of_executing (phase : processor.phase = .executing opcode cycle activation) :
    processor.tick = processor.advance opcode (cycle + 1) activation := by
  rw [tick, phase]

/-- A tick that fetches a plain opcode steps its first cycle behind the fetch. -/
theorem exec_tick_of_plain (idle : processor.phase = .idle)
    (fetching : processor.regs.halted = false)
    (plain : (Memory.read memory processor.regs.pc).1 ≠ prefixByte) :
    let fetched := Memory.read memory processor.regs.pc
    let opcode := OpcodeTable.standard.lookup ⟨fetched.1, false⟩
    processor.tick.exec memory =
      ((processor.promote.skipByte.advance opcode 1 {}).exec fetched.2).behind
        [.read processor.regs.pc fetched.1]
        [.dispatched processor.regs.pc opcode.instruction] := by
  intro fetched opcode
  rw [tick_of_fetching idle fetching]
  simp only [fetchOpcode, Bus.readByte, Bus.read_bind, Bus.done_bind, Bus.exec_read, pc_promote,
    if_neg plain, dispatch_eq, Bus.exec_report, Execution.behind_behind]
  rfl

/-- A tick that fetches the prefix byte does nothing else. -/
theorem exec_tick_of_prefix (idle : processor.phase = .idle)
    (fetching : processor.regs.halted = false)
    (isPrefix : (Memory.read memory processor.regs.pc).1 = prefixByte) :
    processor.tick.exec memory =
      ⟨⟨.ok (), { processor.promote.skipByte with phase := .prefixed }⟩,
        (Memory.read memory processor.regs.pc).2, [.read processor.regs.pc prefixByte], []⟩ := by
  rw [tick_of_fetching idle fetching]
  simp [fetchOpcode, Bus.readByte, isPrefix, Execution.behind]

/-- A tick behind the prefix byte steps the first cycle of an opcode behind its fetch. -/
theorem exec_tick_of_prefixed (phase : processor.phase = .prefixed) :
    let fetched := Memory.read memory processor.regs.pc
    let opcode := OpcodeTable.standard.lookup ⟨fetched.1, true⟩
    processor.tick.exec memory =
      ((processor.skipByte.advance opcode 1 {}).exec fetched.2).behind
        [.read processor.regs.pc fetched.1]
        [.dispatched (processor.regs.pc - 1) opcode.instruction] := by
  intro fetched opcode
  rw [tick, phase]
  simp only [fetchPrefixed, Bus.readByte, Bus.read_bind, Bus.done_bind, Bus.exec_read,
    dispatch_eq, Bus.exec_report, Execution.behind_behind]
  rfl

/-- A tick that fetches an undefined byte fails over it, and does nothing else. -/
theorem exec_tick_of_undefined (idle : processor.phase = .idle)
    (fetching : processor.regs.halted = false)
    (undefined : (Memory.read memory processor.regs.pc).1 ∈ Decode.undefinedCodes) :
    let code := (Memory.read memory processor.regs.pc).1
    let ticked := processor.tick.exec memory
    ticked.value.outcome = .error (.undefinedOpcode ⟨code, false⟩) ∧
      ticked.accesses = [.read processor.regs.pc code] := by
  have plain := Decode.ne_prefixByte_of_undefined undefined
  have isInvalid := (Decode.plain_eq_invalid_iff _).mpr (.inr undefined)
  intro code ticked
  have ticks : ticked = _ := exec_tick_of_plain idle fetching plain
  rw [ticks, OpcodeTable.lookup_standard_plain, advance_of_invalid isInvalid]
  exact ⟨rfl, rfl⟩

end Processor

end Sm83
