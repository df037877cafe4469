import Sm83.Opcode.Step
import Sm83.Proofs.Schedule.Traffic

/-!
# Accepted steps

A step whose cycle is due does the work that the schedule has for that cycle, so what the cycles of
an instruction are known to do is known of its steps: how far they bring the instruction, what they
note in the activation, and how often they use the bus. A step that is refused does nothing.
-/

namespace Sm83

namespace Activation

/-- A cycle is accepted if it is the first one of an activation that is fresh or complete, or the
one after the last one that was stepped. -/
theorem violation_eq_none_iff {activation : Activation} {last cycle : Nat} :
    activation.violation last cycle = none ↔
      1 ≤ cycle ∧ cycle ≤ last ∧
        (if cycle = 1 then activation.cycle = 0 ∨ activation.retired = true
        else activation.retired = false ∧ cycle = activation.cycle + 1) := by
  unfold violation
  by_cases zero : cycle = 0
  · rw [if_pos zero]
    simp [zero]
  · by_cases past : last < cycle
    · rw [if_neg zero, if_pos past]
      simp only [reduceCtorEq, false_iff]
      omega
    · have listed : 1 ≤ cycle ∧ cycle ≤ last := by omega
      rw [if_neg zero, if_neg past]
      by_cases first : cycle = 1
      · by_cases fresh : activation.cycle = 0 <;> cases done : activation.retired <;>
          simp [first, fresh] <;> omega
      · cases done : activation.retired <;> by_cases next : cycle = activation.cycle + 1 <;>
          simp [first, next] <;> omega

/-- A cycle that is not the first one finds what the one before left. -/
theorem entering_of_ne_one (activation : Activation) {cycle : Nat} (later : cycle ≠ 1) :
    activation.entering cycle = activation := if_neg later

end Activation

namespace Opcode

open MachineCycle

variable {opcode : Opcode} {cycle : Nat} {activation : Activation} {regs : RegisterFile}

/-- Carrying out a cycle does what the cycle does. -/
theorem always_carryOut {work : MachineCycle Progress}
    {post : Stepped → List Access → List Event → Prop} :
    (carryOut cycle activation regs work).Always post ↔
      (work.perform ⟨regs, activation.latch⟩).Always fun (outcome, context) =>
        match outcome with
        | .ok progress =>
          post ⟨.ok progress, Activation.after cycle progress context.latch, context.regs⟩
        | .error fault => post ⟨.error fault, activation, context.regs⟩ := by
  unfold carryOut
  rw [Bus.always_bind]
  constructor
  · intro holds
    apply holds.mono
    rintro ⟨outcome, context⟩ accesses events settled
    cases outcome <;> simpa using settled
  · intro holds
    apply holds.mono
    rintro ⟨outcome, context⟩ accesses events settled
    cases outcome <;> simpa using settled

/-- Every opcode has a first cycle. -/
theorem lastCycle_pos (opcode : Opcode) : 1 ≤ opcode.lastCycle := by
  unfold lastCycle
  cases opcode.instruction with
  | load | combine =>
    simp only [Instruction.duration, Duration.always, Instruction.isPrefixed, Bool.toNat_false]
    omega
  | inc operand | dec operand | shift _ operand | bit _ operand | res _ operand | set _ operand =>
    cases memory : operand.isMemory <;>
      simp [Instruction.duration, Duration.always, Instruction.isPrefixed, memory]
  | jp condition | jr condition | call condition | ret condition =>
    cases condition <;> exact Nat.le_of_ble_eq_true rfl
  | _ => exact Nat.le_of_ble_eq_true rfl

/-- A first cycle is due in an activation in which nothing was stepped. -/
theorem due_first (opcode : Opcode) : ({} : Activation).violation opcode.lastCycle 1 = none := by
  rw [Activation.violation_eq_none_iff]
  exact ⟨Nat.le_refl 1, opcode.lastCycle_pos, by simp⟩

/-- A first step that is due finds nothing of what was stepped before. -/
theorem step_first_of_due (regs : RegisterFile)
    (due : activation.violation opcode.lastCycle 1 = none) :
    opcode.step 1 activation regs = opcode.step 1 {} regs := by
  simp only [step, due, opcode.due_first]
  rfl

/-- A cycle that is due is one of the schedule. -/
theorem unfinished_of_due {cycle : Nat} {activation : Activation}
    (defined : opcode.instruction ≠ .invalid)
    (due : activation.violation opcode.lastCycle (cycle + 1) = none) :
    cycle < opcode.instruction.cycles.length := by
  obtain ⟨-, bound, -⟩ := Activation.violation_eq_none_iff.mp due
  rw [length_cycles_eq_lastCycle defined]
  exact bound

/-- A cycle that is due has its work in the schedule, and the step carries it out. -/
theorem step_of_due (regs : RegisterFile) (defined : opcode.instruction ≠ .invalid)
    (due : activation.violation opcode.lastCycle cycle = none) :
    ∃ work, (work, cycle) ∈ opcode.instruction.cycles.zipIdx 1 ∧
      opcode.step cycle activation regs =
        carryOut cycle (activation.entering cycle) regs work := by
  obtain ⟨positive, listed, -⟩ := Activation.violation_eq_none_iff.mp due
  have length := length_cycles_eq_lastCycle defined
  have bound : cycle - 1 < opcode.instruction.cycles.length := by omega
  have scheduled := List.getElem?_eq_getElem bound
  refine ⟨opcode.instruction.cycles[cycle - 1], ?_, ?_⟩
  · exact List.mem_zipIdx_iff_le_and_getElem?_sub.mpr ⟨positive, scheduled⟩
  · simp only [step, due, perform, if_neg defined, scheduled]

/-- The step that is due does not fail, unless it is the last one and stores to the byte after the
opcode. It brings the instruction as far as the number of the cycle and the condition of a branch
say, notes the cycle, and keeps the flags unless it completes the instruction. -/
theorem always_step_of_due (regs : RegisterFile) (defined : opcode.instruction ≠ .invalid)
    (storable : cycle = opcode.lastCycle → opcode.instruction.storesImmediate = false)
    (due : activation.violation opcode.lastCycle cycle = none) :
    (opcode.step cycle activation regs).Always fun stepped _ _ =>
      stepped.outcome = .ok (opcode.instruction.progress cycle regs) ∧
        stepped.activation = Activation.after cycle (opcode.instruction.progress cycle regs)
          stepped.activation.latch ∧
        (opcode.instruction.progress cycle regs = .running → stepped.regs.f = regs.f) := by
  obtain ⟨work, listed, step⟩ := step_of_due regs defined due
  have decides := opcode.instruction.decides_cycles _ listed fun last =>
    storable (last.trans (length_cycles_eq_lastCycle defined))
  rw [step, always_carryOut]
  apply Bus.Always.mono (decides ⟨regs, _⟩)
  rintro ⟨outcome, context⟩ accesses events decided
  cases outcome with
  | error fault => exact decided.elim
  | ok progress =>
    obtain ⟨rfl, kept⟩ := decided
    exact ⟨rfl, rfl, kept⟩

/-- The first step of an opcode without a behaviour fails and changes no register. -/
theorem step_of_invalid (undefined : opcode.instruction = .invalid)
    (due : activation.violation opcode.lastCycle cycle = none) :
    opcode.step cycle activation regs =
      .done ⟨.error (.undefinedOpcode opcode.toEncoding),
        { activation.entering cycle with retired := true }, regs⟩ := by
  simp [step, due, perform, undefined]

/-! ## Traffic -/

/-- The last cycle of a copy from memory to memory reads once and then writes once. -/
theorem always_copy_memory (target source : AddressMode) (context : Context) :
    ((Schedule.copy (.memory target) (.memory source)).perform context).Always
      fun (outcome, _) accesses _ =>
        outcome = .ok () ∧
          ∃ read byte written, accesses = [.read read byte, .write written byte] := by
  rcases source with _ | _ | _ | _ | _ | _ <;> rcases target with _ | _ | _ | _ | _ | _ <;>
    simp [Schedule.copy, Operand.load, Operand.store, AddressMode.address]

/-- What copies from memory to memory is a load between two memory operands. -/
theorem exists_load_of_copiesMemory {instruction : Instruction}
    (copies : instruction.copiesMemory = true) :
    ∃ target source, instruction = .load (.memory target) (.memory source) := by
  unfold Instruction.copiesMemory at copies
  split at copies
  · exact ⟨_, _, rfl⟩
  · cases copies

/-- The last step of a copy from memory to memory reads once and then writes once. -/
theorem always_step_copy (regs : RegisterFile)
    (copies : opcode.instruction.copiesMemory = true)
    (due : activation.violation opcode.lastCycle cycle = none) (last : cycle = opcode.lastCycle) :
    (opcode.step cycle activation regs).Always fun _ accesses _ =>
      ∃ read byte written, accesses = [.read read byte, .write written byte] := by
  obtain ⟨target, source, instruction⟩ := exists_load_of_copiesMemory copies
  have defined : opcode.instruction ≠ .invalid := by simp [instruction]
  obtain ⟨work, listed, step⟩ := step_of_due regs defined due
  have scheduled : opcode.instruction.cycles[cycle - 1]? = some work :=
    (List.mem_zipIdx_iff_le_and_getElem?_sub.mp listed).2
  have final : work = Schedule.retiring
      (do Schedule.idle; Schedule.copy (.memory target) (.memory source)) := by
    rw [last, ← length_cycles_eq_lastCycle defined, instruction] at scheduled
    simp only [Instruction.cycles, Schedule.getElem?_closing, Schedule.length_closing] at scheduled
    simpa [Operand.accessCycles, Operand.isMemory] using scheduled.symm
  rw [step, always_carryOut, final]
  simp only [Schedule.retiring, Schedule.idle, perform_bind, perform_pure, Bus.done_bind,
    Bus.always_bind]
  apply (always_copy_memory target source _).mono
  rintro ⟨outcome, context⟩ accesses events ⟨rfl, copied⟩
  simpa using copied

/-- A step makes at most one access, and none in the first cycle, unless it is the last one of a
copy from memory to memory. -/
theorem always_step_traffic (opcode : Opcode) (cycle : Nat) (activation : Activation)
    (regs : RegisterFile)
    (single : cycle = opcode.lastCycle → opcode.instruction.copiesMemory = false) :
    (opcode.step cycle activation regs).Always fun _ accesses _ =>
      accesses.length ≤ if cycle = 1 then 0 else 1 := by
  cases refused : activation.violation opcode.lastCycle cycle with
  | some violation => simp [step_of_violation refused]
  | none =>
    by_cases undefined : opcode.instruction = .invalid
    · simp [step_of_invalid undefined refused]
    · obtain ⟨work, listed, step⟩ := step_of_due regs undefined refused
      have single : cycle = opcode.instruction.cycles.length →
          opcode.instruction.copiesMemory = false := by
        rw [length_cycles_eq_lastCycle undefined]
        exact single
      rw [step, always_carryOut]
      apply (opcode.instruction.atMost_cycles _ listed single _).mono
      rintro ⟨outcome, context⟩ accesses events short
      cases outcome <;> exact short

/-- The first step of an opcode leaves the memory alone. -/
theorem always_step_first (opcode : Opcode) (activation : Activation) (regs : RegisterFile) :
    (opcode.step 1 activation regs).Always fun _ accesses _ => accesses = [] := by
  have single : 1 = opcode.lastCycle → opcode.instruction.copiesMemory = false := by
    intro last
    cases copies : opcode.instruction.copiesMemory with
    | false => rfl
    | true =>
      obtain ⟨target, source, instruction⟩ := exists_load_of_copiesMemory copies
      simp only [lastCycle, instruction, Instruction.duration, Duration.always,
        Operand.accessCycles, Operand.isMemory, Instruction.isPrefixed, Bool.toNat_true,
        Bool.toNat_false] at last
      omega
  apply (always_step_traffic opcode 1 activation regs single).mono
  intro stepped accesses events few
  rw [if_pos rfl] at few
  exact List.eq_nil_of_length_eq_zero (Nat.le_zero.mp few)

end Opcode

end Sm83
