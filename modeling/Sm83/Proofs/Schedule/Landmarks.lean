import Sm83.Proofs.Schedule.Fetch
import Sm83.Proofs.Schedule.Traffic

/-!
# What cycles report of where the program is

The landmarks among the reports say where the program is: where an instruction starts, where one
suspends fetching, and where a relative jump leads. Of the cycles of instructions, those of HALT and
STOP and the last one of a relative jump report one each, and no other reports any.
-/

namespace Sm83

/-- Whether a report says where the program is. -/
def Event.isLandmark : Event → Bool
  | dispatched .. | jumped .. | halted _ | stopped _ => true
  | _ => false

/-- The start of an instruction is a landmark. -/
theorem Event.filter_isDispatch_filter (events : List Event) :
    (events.filter Event.isLandmark).filter Event.isDispatch = events.filter Event.isDispatch := by
  rw [List.filter_filter]
  congr 1
  funext event
  cases event <;> rfl

/-- The landmarks that a cycle of an instruction reports. A HALT and a STOP report where they are,
with the program counter one behind the opcode, and a jump where it leads from. -/
def Instruction.landmarks (instruction : Instruction) (number : Nat) (context : Context) :
    List Event :=
  match instruction, number with
  | halt, 1 => [.halted (context.regs.pc - 1)]
  | stop, 1 => [.stopped (context.regs.pc - 1)]
  | jr _, 3 =>
    [.jumped context.latch.low context.regs.pc
      (context.regs.pc + Word.ofOffset context.latch.low)]
  | _, _ => []

namespace MachineCycle

variable {α β : Type}

/-- The part of a cycle reports no landmark, whether it fails or not. -/
def Unmarked (work : MachineCycle α) : Prop :=
  ∀ context, (work.perform context).Always fun _ _ events =>
    events.filter Event.isLandmark = []

/-- Parts that report no landmark report none in turn. -/
theorem Unmarked.bind {first : MachineCycle α} {next : α → MachineCycle β}
    (before : first.Unmarked) (after : ∀ value, (next value).Unmarked) :
    (first >>= next).Unmarked := by
  intro context
  rw [perform_bind, Bus.always_bind]
  apply (before context).mono
  rintro ⟨outcome, between⟩ accesses events unmarked
  cases outcome with
  | ok value =>
    apply (after value between).mono
    intro _ _ later others
    rw [List.filter_append, unmarked, others, List.append_nil]
  | error fault => simpa using unmarked

/-- A result reports no landmark. -/
theorem unmarked_pure (value : α) : (pure value : MachineCycle α).Unmarked := by simp [Unmarked]

/-- Looking at the registers reports no landmark. -/
theorem unmarked_regs : regs.Unmarked := by simp [Unmarked]

/-- Looking at the latch reports no landmark. -/
theorem unmarked_latch : latch.Unmarked := by simp [Unmarked]

/-- Changing the registers reports no landmark. -/
theorem unmarked_changeRegs (change : RegisterFile → RegisterFile) :
    (changeRegs change).Unmarked := by simp [Unmarked]

/-- Changing the latch reports no landmark. -/
theorem unmarked_changeLatch (change : Latch → Latch) : (changeLatch change).Unmarked := by
  simp [Unmarked]

/-- Fetching a first byte reports no landmark. -/
theorem unmarked_fetchLow : fetchLow.Unmarked := by simp [Unmarked, fetchLow, fetch]

/-- Fetching a further byte reports no landmark. -/
theorem unmarked_fetchHigh : fetchHigh.Unmarked := by simp [Unmarked, fetchHigh, fetch]

/-- Reading an operand reports no landmark. -/
theorem unmarked_load (operand : Operand) : operand.load.Unmarked := by
  rcases operand with _ | _ | _ | _ | _ | _ <;>
    simp [Unmarked, Operand.load, AddressMode.address]

/-- Writing an operand reports no landmark. -/
theorem unmarked_store (operand : Operand) (byte : UInt8) : (operand.store byte).Unmarked := by
  rcases operand with _ | _ | _ | _ | _ | _ <;>
    simp [Unmarked, Operand.store, AddressMode.address]

end MachineCycle

namespace Schedule

open MachineCycle

variable {cycle : MachineCycle Progress} {number : Nat}

/-- Remembering the byte of an operand reports no landmark. -/
theorem unmarked_keep (operand : Operand) : (keep operand).Unmarked :=
  (unmarked_load operand).bind fun _ => unmarked_changeLatch _

/-- Reading an operand and remembering its byte reports no landmark. -/
theorem unmarked_loadKeeping (operand : Operand) : (loadKeeping operand).Unmarked := by
  unfold loadKeeping
  split
  · exact (unmarked_keep operand).bind fun _ => unmarked_latch.bind fun held => unmarked_pure _
  · exact unmarked_load operand

/-- A cycle that others follow reports the landmarks of its work. -/
theorem unmarked_continuing {work : MachineCycle Unit} (unmarked : work.Unmarked) :
    (continuing work).Unmarked := unmarked.bind fun _ => unmarked_pure _

/-- A retiring cycle reports the landmarks of its work. -/
theorem unmarked_retiring {work : MachineCycle Unit} (unmarked : work.Unmarked) :
    (retiring work).Unmarked := unmarked.bind fun _ => unmarked_pure _

/-- A closing schedule reports the landmarks of what finishes it. -/
theorem unmarked_closing {bytes accesses : Nat} {finish : MachineCycle Unit}
    (listed : (cycle, number) ∈
      (closing finish (idle :: fetches bytes ++ List.replicate accesses idle)).zipIdx 1)
    (unmarked : finish.Unmarked) : cycle.Unmarked := by
  obtain ⟨work, part, rfl⟩ := exists_part_of_mem_closing listed
  have fetching : work.Unmarked :=
    of_mem_parts (unmarked_pure ()) unmarked_fetchLow unmarked_fetchHigh
      (List.mem_of_getElem? part)
  split
  · exact unmarked_retiring (fetching.bind fun _ => unmarked)
  · exact unmarked_continuing fetching

/-- An updating schedule reports the landmarks of what finishes it. -/
theorem unmarked_updating {operand : Operand} {finish : UInt8 → MachineCycle Unit}
    (listed : (cycle, number) ∈ (updating operand finish).zipIdx 1)
    (unmarked : ∀ byte, (finish byte).Unmarked) : cycle.Unmarked := by
  have load := unmarked_load operand
  cases updates_of_mem listed with
  | start memory => exact unmarked_continuing (unmarked_pure ())
  | read memory => exact unmarked_continuing (unmarked_keep operand)
  | write memory => exact unmarked_retiring (unmarked_latch.bind fun held => unmarked held.value)
  | only elsewhere => exact unmarked_retiring (load.bind unmarked)

end Schedule

namespace Instruction

open MachineCycle Schedule

/-- Each cycle of an instruction reports the landmarks that it should, and no others. -/
theorem landmarks_cycles (instruction : Instruction) :
    ∀ entry ∈ instruction.cycles.zipIdx 1, ∀ context,
      (entry.1.perform context).Always fun _ _ events =>
        events.filter Event.isLandmark = instruction.landmarks entry.2 context := by
  cases instruction with
  | invalid => simp [cycles]
  | load target source =>
    rintro ⟨cycle, number⟩ listed
    exact unmarked_closing listed ((unmarked_load source).bind (unmarked_store target))
  | combine op source =>
    rintro ⟨cycle, number⟩ listed
    exact unmarked_closing listed ((unmarked_load source).bind fun _ => unmarked_changeRegs _)
  | bit index operand =>
    rintro ⟨cycle, number⟩ listed
    exact @unmarked_closing _ _ 0 _ _ listed
      ((unmarked_loadKeeping operand).bind fun byte => unmarked_changeRegs _)
  | inc operand | dec operand =>
    rintro ⟨cycle, number⟩ listed
    exact unmarked_updating listed fun byte =>
      (unmarked_store operand _).bind fun _ => unmarked_changeRegs _
  | shift kind operand =>
    rintro ⟨cycle, number⟩ listed
    exact unmarked_updating listed fun byte =>
      unmarked_regs.bind fun _ => (unmarked_changeRegs _).bind fun _ => unmarked_store operand _
  | res index operand | set index operand =>
    rintro ⟨cycle, number⟩ listed
    exact unmarked_updating listed fun byte => unmarked_store operand _
  | di =>
    have unmarked : disableInterrupts.Unmarked := by
      intro context
      simp only [disableInterrupts, perform_bind, perform_regs, Bus.done_bind]
      split <;> simp [Event.isLandmark]
    simpa [cycles, landmarks, Unmarked] using unmarked_retiring unmarked
  | ei =>
    have unmarked : requestInterrupts.Unmarked := by
      intro context
      simp only [requestInterrupts, perform_bind, perform_regs, Bus.done_bind]
      split <;> simp [Event.isLandmark]
    simpa [cycles, landmarks, Unmarked] using unmarked_retiring unmarked
  | stop =>
    have behind (pc : UInt16) : pc + 1 - 2 = pc - 1 := by grind
    simp [cycles, landmarks, retiring, powerDown, suspend, Event.isLandmark, behind]
  | ret condition =>
    cases condition <;>
      simp [cycles, landmarks, continuing, retiring, deciding, idle, popLow, popHigh, popByte,
        jumpLatched, jump]
  | _ =>
    simp [cycles, landmarks, pushing, continuing, retiring, deciding, idle, fetchLow, fetchHigh,
      fetch, reserve, pushHigh, pushLow, popLow, popHigh, popByte, jumpLatched, jump,
      jumpRelative, returnFromInterrupt, waitForInterrupt, suspend, Event.isLandmark]

/-- The second cycle of a relative jump moves the program counter past the offset, and the last one
by the offset. -/
theorem succeeds_cycles_jr (condition : Option Condition) :
    ∀ entry ∈ (jr condition).cycles.zipIdx 1, ∀ context,
      entry.1.Succeeds context fun progress after _ _ =>
        match progress with
        | .running => after.regs.pc = context.regs.pc + if entry.2 = 1 then 0 else 1
        | .retired =>
          entry.2 = 3 → after.regs.pc = context.regs.pc + Word.ofOffset context.latch.low := by
  have either (progress : Progress) :
      (match progress with | .running => True | .retired => True) = True := by
    cases progress <;> rfl
  cases condition <;>
    simp [cycles, continuing, deciding, retiring, idle, jumpRelative, either]

end Instruction

end Sm83
