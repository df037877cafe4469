import Sm83.Proofs.Processor.Phase
import Sm83.Proofs.Schedule.Run

/-!
# Runs and schedules

Ticking until idle from between two instructions fetches an opcode and runs its schedule, with
nothing before, between or after: as programs on the bus the two are the same.
-/

namespace Sm83.Processor

open Phase

variable {processor : Processor} {opcode : Opcode} {cycle : Nat} {activation : Activation}

/-- What the loop does after one of its ticks. -/
def proceed (limit made : Nat) (ticked : Answer Unit) : Bus (Answer Nat) :=
  match ticked.outcome with
  | .error fault => return ⟨.error fault, ticked.processor⟩
  | .ok () =>
    if ticked.processor.isIdle then
      return ⟨.ok (made + 1), ticked.processor⟩
    else
      ticked.processor.runFor limit (made + 1)

/-- What the run of a schedule leaves, as an answer of the loop. -/
def conclude (made : Nat) : Except Fault Nat × Context → Bus (Answer Nat)
  | (.ok count, context) => return ⟨.ok (made + count), ⟨context.regs, .idle⟩⟩
  | (.error fault, context) => do
    Bus.log (.locked fault context.regs)
    return ⟨.error fault, ⟨context.regs, .locked fault⟩⟩

/-- The loop makes a tick and proceeds. -/
theorem runFor_succ (processor : Processor) (limit made : Nat) :
    processor.runFor (limit + 1) made = processor.tick >>= proceed limit made := rfl

/-- The cycles from one that is due on are that cycle and the ones behind it. -/
theorem drop_of_due {work : MachineCycle Progress}
    (listed : (work, cycle + 1) ∈ opcode.instruction.cycles.zipIdx 1) :
    opcode.instruction.cycles.drop cycle = work :: opcode.instruction.cycles.drop (cycle + 1) := by
  have scheduled : opcode.instruction.cycles[cycle]? = some work :=
    (List.mem_zipIdx_iff_le_and_getElem?_sub.mp listed).2
  obtain ⟨bound, rfl⟩ := List.getElem?_eq_some_iff.mp scheduled
  exact List.drop_eq_getElem_cons bound

/-- A tick that leaves an instruction underway is followed by further ones. -/
theorem proceed_executing {limit made : Nat} {regs : RegisterFile} :
    proceed limit made ⟨.ok (), ⟨regs, .executing opcode cycle activation⟩⟩ =
      Processor.runFor limit ⟨regs, .executing opcode cycle activation⟩ (made + 1) := rfl

/-- Stepping a cycle that is due, and on from there, is running the rest of the schedule, if going
on from the next cycle is. -/
theorem advance_proceed_of_onward (listed : opcode ∈ OpcodeTable.standard.entries)
    (defined : opcode.instruction ≠ .invalid) {limit made : Nat}
    (due : activation.violation opcode.lastCycle (cycle + 1) = none)
    (onward : ∀ {after} regs, Underway opcode (cycle + 1) after →
      proceed limit made ⟨.ok (), ⟨regs, .executing opcode (cycle + 1) after⟩⟩ =
        (Schedule.run (opcode.instruction.cycles.drop (cycle + 1))).perform ⟨regs, after.latch⟩ >>=
          conclude (made + 1)) :
    processor.advance opcode (cycle + 1) activation >>= proceed limit made =
      (Schedule.run (opcode.instruction.cycles.drop cycle)).perform
        ⟨processor.regs, (activation.entering (cycle + 1)).latch⟩ >>= conclude made := by
  obtain ⟨work, scheduled, step⟩ := Opcode.step_of_due processor.regs defined due
  have storable := OpcodeTable.storesImmediate_of_mem_entries listed
  have decides := opcode.instruction.decides_cycles _ scheduled fun _ => storable
  unfold advance
  rw [step, drop_of_due scheduled]
  simp only [Opcode.carryOut, Schedule.run, MachineCycle.perform_bind, bind_assoc]
  apply Bus.bind_congr
  apply Bus.Always.mono (decides ⟨processor.regs, _⟩)
  rintro ⟨outcome, context⟩ accesses events decided
  cases outcome with
  | error fault => exact decided.elim
  | ok progress =>
    cases progress with
    | retired => simp [proceed, conclude, isIdle]
    | running =>
      have underway : Underway opcode (cycle + 1)
          (Activation.after (cycle + 1) .running context.latch) :=
        underway_of_running listed defined due decided.1.symm rfl
      simp only [Bus.done_bind, Bus.pure_eq_done, MachineCycle.perform_bind,
        MachineCycle.perform_pure, bind_assoc]
      rw [onward context.regs underway]
      congr 1
      funext ended
      rcases ended with ⟨fault | count, left⟩
      · rfl
      · have total : made + 1 + count = made + (count + 1) := by omega
        simp only [Bus.done_bind, conclude, total]

/-- Stepping a cycle that is due, and on from there, is running the rest of the schedule. -/
theorem advance_proceed (listed : opcode ∈ OpcodeTable.standard.entries)
    (defined : opcode.instruction ≠ .invalid) {limit made : Nat}
    (due : activation.violation opcode.lastCycle (cycle + 1) = none)
    (enough : opcode.instruction.cycles.length ≤ cycle + 1 + limit) :
    processor.advance opcode (cycle + 1) activation >>= proceed limit made =
      (Schedule.run (opcode.instruction.cycles.drop cycle)).perform
        ⟨processor.regs, (activation.entering (cycle + 1)).latch⟩ >>= conclude made := by
  have length := Opcode.length_cycles_eq_lastCycle defined
  induction limit generalizing processor cycle activation made with
  | zero =>
    refine advance_proceed_of_onward listed defined due fun regs underway => ?_
    have further := underway.unfinished
    omega
  | succ limit ih =>
    refine advance_proceed_of_onward listed defined due fun regs underway => ?_
    rename_i after
    have rest := @ih ⟨regs, .executing opcode (cycle + 1) after⟩ (cycle + 1) after (made + 1)
      underway.due (by omega)
    rw [Activation.entering_of_ne_one after (by omega)] at rest
    rw [proceed_executing, runFor_succ]
    exact rest

/-- Run the instruction of an encoding whose first byte was fetched from an address, so many ticks
having been made before its first cycle. -/
def execute (made : Nat) (regs : RegisterFile) (address : UInt16) (encoding : Encoding) :
    Bus (Answer Nat) :=
  .report (.dispatched address (OpcodeTable.standard.lookup encoding).instruction) <|
    if (OpcodeTable.standard.lookup encoding).instruction = .invalid then
      conclude made (.error (.undefinedOpcode encoding), ⟨regs, {}⟩)
    else
      (Schedule.run (OpcodeTable.standard.lookup encoding).instruction.cycles).perform
        ⟨regs, {}⟩ >>= conclude made

/-- Starting an instruction, and on from there, is executing it, if the limit allows six ticks. -/
theorem dispatch_proceed (processor : Processor) (address : UInt16) (encoding : Encoding)
    (limit made : Nat) (enough : 5 ≤ limit) :
    processor.dispatch address encoding >>= proceed limit made =
      execute made processor.regs address encoding := by
  have listed := OpcodeTable.standard.lookup_mem_entries encoding
  have same := OpcodeTable.toEncoding_lookup_standard encoding
  unfold execute
  rw [dispatch_eq, Bus.report_bind]
  by_cases undefined : (OpcodeTable.standard.lookup encoding).instruction = .invalid
  · rw [if_pos undefined, advance_of_invalid undefined, same]
    rfl
  · have length := Instruction.length_cycles undefined
    have short := OpcodeTable.duration_of_mem_entries listed
    have due := (OpcodeTable.standard.lookup encoding).due_first
    have run := @advance_proceed processor _ 0 {} listed undefined limit made due (by omega)
    rw [if_neg undefined]
    exact congrArg (Bus.report _) run

/-- Ticking until idle from between two instructions fetches an encoding and executes it. -/
theorem runUntilIdle_eq (idle : processor.phase = .idle)
    (fetching : processor.regs.halted = false) :
    processor.runUntilIdle = .read processor.regs.pc fun first =>
      if first = prefixByte then
        .read (processor.regs.pc + 1) fun second =>
          execute 1 processor.promote.skipByte.skipByte.regs processor.regs.pc ⟨second, true⟩
      else
        execute 0 processor.promote.skipByte.regs processor.regs.pc ⟨first, false⟩ := by
  unfold runUntilIdle tickLimit
  rw [runFor_succ, tick_of_fetching idle fetching]
  simp only [fetchOpcode, Bus.readByte, Bus.read_bind, Bus.done_bind, pc_promote, Bus.read.injEq,
    true_and]
  funext first
  by_cases isPrefix : first = prefixByte
  · rw [if_pos isPrefix, if_pos isPrefix]
    have address : processor.promote.skipByte.regs.pc = processor.regs.pc + 1 :=
      congrArg (· + 1) (pc_promote processor)
    have next : proceed 7 0 ⟨.ok (), { processor.promote.skipByte with phase := .prefixed }⟩ =
        ({ processor.promote.skipByte with phase := .prefixed } : Processor).fetchPrefixed >>=
          proceed 6 1 := rfl
    rw [Bus.pure_eq_done, Bus.done_bind, next]
    simp only [fetchPrefixed, Bus.readByte, Bus.read_bind, Bus.done_bind, address,
      UInt16.add_sub_cancel, Bus.read.injEq, true_and]
    funext second
    exact dispatch_proceed _ _ _ _ _ (by decide)
  · rw [if_neg isPrefix, if_neg isPrefix]
    exact dispatch_proceed _ _ _ _ _ (by decide)

end Sm83.Processor
