import Sm83.Proofs.Processor.ByHand
import Sm83.Proofs.Processor.Run
import Sm83.Proofs.Processor.Service
import Sm83.Proofs.Schedule.Timetable

/-!
# The timetable of the processor

From between two instructions the ticks of a processor make the accesses of the timetable of the
instruction at its program counter, each in the tick that the timetable says, and no other. The
dispatch of an interrupt has a timetable of its own: it pushes the program counter in its third and
fourth tick.
-/

namespace Sm83

open Schedule

section

variable {μ : Type} [Memory μ] {opcode : Opcode} {cycle : Nat} {activation : Activation}
  {regs : RegisterFile} {memory left : μ} {moments : List (Moment μ)} {stepped : Stepped}

/-- Carrying out a cycle over a memory does what the cycle does, and notes how far it came. -/
theorem Opcode.exec_carryOut (cycle : Nat) (activation : Activation) (regs : RegisterFile)
    (work : MachineCycle Progress) (memory : μ) :
    let done := (work.perform ⟨regs, activation.latch⟩).exec memory
    let carried := (carryOut cycle activation regs work).exec memory
    carried.accesses = done.accesses ∧ carried.memory = done.memory ∧
      carried.value.outcome = done.value.1 ∧ carried.value.regs = done.value.2.regs ∧
      (∀ progress, done.value.1 = .ok progress →
        carried.value.activation = Activation.after cycle progress done.value.2.latch) := by
  intro done carried
  have split : carried = _ := Bus.exec_bind _ _ memory
  rw [split]
  have same : (work.perform ⟨regs, activation.latch⟩).exec memory = done := rfl
  rcases done.value with ⟨fault | progress, context⟩ <;> simp [same, Execution.behind]

/-- Stepping out an opcode makes the accesses of the cycles that it has to go, since the activation
that a step leaves makes the next one due. -/
theorem StepsOut.accesses_eq {number : Nat}
    (steps : StepsOut opcode number activation regs memory moments stepped left)
    (place : number = cycle + 1) (listed : opcode ∈ OpcodeTable.standard.entries)
    (defined : opcode.instruction ≠ .invalid)
    (due : activation.violation opcode.lastCycle number = none) :
    moments.map (·.accesses) = trace (opcode.instruction.cycles.drop cycle)
      ⟨regs, (activation.entering number).latch⟩ memory := by
  induction steps generalizing cycle with
  | @last number activation regs memory step made ends =>
    subst place
    obtain ⟨work, scheduled, carries⟩ := Opcode.step_of_due regs defined due
    obtain ⟨accesses, -, outcome, -⟩ := Opcode.exec_carryOut (cycle + 1)
      (activation.entering (cycle + 1)) regs work memory
    rw [← carries, made] at accesses outcome
    rw [outcome] at ends
    rw [Processor.drop_of_due scheduled, trace_of_ends ends, ← accesses]
    rfl
  | @more number activation regs memory left step later stepped made onward rest ih =>
    subst place
    obtain ⟨work, scheduled, carries⟩ := Opcode.step_of_due regs defined due
    obtain ⟨accesses, remains, outcome, kept, noted⟩ := Opcode.exec_carryOut (cycle + 1)
      (activation.entering (cycle + 1)) regs work memory
    rw [← carries, made] at accesses remains outcome kept noted
    have storable := OpcodeTable.storesImmediate_of_mem_entries listed
    have progresses :=
      (Opcode.always_step_of_due regs defined (fun _ => storable) due).exec memory
    rw [made] at progresses
    have running : opcode.instruction.progress (cycle + 1) regs = .running :=
      Except.ok.inj (progresses.1.symm.trans onward)
    rw [onward] at outcome
    have activated := noted .running outcome.symm
    have underway : Phase.Underway opcode (cycle + 1) step.value.activation :=
      Phase.underway_of_running listed defined due running (by rw [activated]; rfl)
    have traced := ih rfl underway.due
    rw [Activation.entering_of_ne_one _ (by omega), activated, kept, remains] at traced
    rw [Processor.drop_of_due scheduled, trace_of_running outcome.symm, ← accesses, List.map_cons,
      traced]
    rfl

/-- What is stepped out behind a fetch makes the accesses of its cycles behind the fetch. -/
theorem StepsOut.accesses_behind {first : Moment μ} {later : List (Moment μ)}
    (steps : StepsOut opcode 1 {} regs memory (first :: later) stepped left)
    (listed : opcode ∈ OpcodeTable.standard.entries) (defined : opcode.instruction ≠ .invalid)
    (accesses : List Access) :
    (first.behind accesses :: later).map (·.accesses) =
      inFront accesses (trace opcode.instruction.cycles ⟨regs, {}⟩ memory) := by
  have traced := steps.accesses_eq (Nat.zero_add 1).symm listed defined opcode.due_first
  have whole : trace opcode.instruction.cycles ⟨regs, {}⟩ memory = _ := traced.symm
  rw [whole]
  rfl

end

/-- The fetch of an opcode by hand leaves the latches of the registers as they are given. -/
theorem RegisterFile.skipByte_promoted (regs : RegisterFile) :
    regs.promoted.skipByte = regs.fetched regs.promoted.ime regs.promoted.imePending := by
  unfold promoted
  split <;> rfl

/-- Running an instruction by hand makes the accesses of its cycles behind those of its opcode. -/
theorem RunsByHand.accesses_eq {regs : RegisterFile} {ram left : Ram} {moments : List (Moment Ram)}
    {stepped : Stepped} (run : RunsByHand {} regs.promoted ram moments stepped left)
    (defined : instructionAt ram regs.pc ≠ .invalid) :
    moments.map (·.accesses) = (instructionAt ram regs.pc).traffic regs regs.promoted.ime
      regs.promoted.imePending ram := by
  have pc : regs.promoted.pc = regs.pc := Processor.pc_promoted ⟨regs, .idle⟩
  cases run with
  | @plain code between left first later stepped fetched plain steps =>
    obtain ⟨rfl, rfl⟩ : ram.read regs.promoted.pc = code ∧ ram = between := Prod.mk.inj fetched
    rw [pc] at plain steps ⊢
    have encoding : encodingAt ram regs.pc = ⟨ram.read regs.pc, false⟩ := if_neg plain
    rw [instructionAt, encoding] at defined ⊢
    rw [steps.accesses_behind (OpcodeTable.standard.lookup_mem_entries _) defined,
      RegisterFile.skipByte_promoted, Instruction.traffic_of_plain]
    rw [OpcodeTable.lookup_standard_plain, Decode.isPrefixed_plain]
  | @prefixed code between behind left first later stepped fetched selected steps =>
    obtain ⟨isPrefix, rfl⟩ : ram.read regs.promoted.pc = prefixByte ∧ ram = between :=
      Prod.mk.inj fetched
    have next : regs.promoted.skipByte.pc = regs.pc + 1 := congrArg (· + 1) pc
    rw [next] at selected ⊢
    obtain ⟨rfl, rfl⟩ : ram.read (regs.pc + 1) = code ∧ ram = behind := Prod.mk.inj selected
    rw [pc] at isPrefix ⊢
    have encoding : encodingAt ram regs.pc = ⟨ram.read (regs.pc + 1), true⟩ := if_pos isPrefix
    rw [instructionAt, encoding] at defined ⊢
    have traced := steps.accesses_behind (OpcodeTable.standard.lookup_mem_entries _) defined
      [.read (regs.pc + 1) (ram.read (regs.pc + 1))]
    rw [List.map_cons, traced, RegisterFile.skipByte_promoted, Instruction.traffic_of_prefixed,
      isPrefix]
    · rfl
    · rw [OpcodeTable.lookup_standard_prefixed, Decode.isPrefixed_prefixed]

namespace Processor

variable {processor : Processor} {ram left : Ram} {count : Nat} {answer : Answer Unit}

/-- The ticks until idle make the accesses of the timetable of the instruction at the program
counter. -/
theorem Ends.keepsTime (ends : Ends processor ram count answer left)
    (idle : processor.phase = .idle) (fetching : processor.regs.halted = false)
    (defined : instructionAt ram processor.regs.pc ≠ .invalid) :
    stamped 1 ((processor.history ram count).map (·.accesses)) =
      (instructionAt ram processor.regs.pc).timetable processor.regs ram := by
  have fresh : ({} : Activation).Ready := .inl rfl
  obtain ⟨stepped, run, -⟩ := ends.runsByHand idle fetching fresh
  have traffic := run.accesses_eq defined
  rw [List.map_map] at traffic
  have ordinary := OpcodeTable.isOrdinary_of_mem_entries
    (OpcodeTable.standard.lookup_mem_entries (encodingAt ram processor.regs.pc))
  have shown : (processor.history ram count).map (·.accesses) = _ := traffic
  rw [shown]
  exact Instruction.keepsTime _ ordinary

/-- Over an undefined byte the first tick reads that byte alone, and is the last one. -/
theorem keepsTime_of_invalid (idle : processor.phase = .idle)
    (fetching : processor.regs.halted = false)
    (isInvalid : instructionAt ram processor.regs.pc = .invalid) :
    (processor.tick.exec ram).value.isLast = true ∧
      stamped 1 ((processor.history ram 1).map (·.accesses)) =
        Instruction.invalid.timetable processor.regs ram := by
  obtain ⟨failed, accesses⟩ :=
    exec_tick_of_undefined idle fetching (instructionAt_eq_invalid_iff.mp isInvalid)
  constructor
  · unfold Answer.isLast
    rw [failed]
  · simp only [history, List.map_cons, accesses]
    rfl

/-- The dispatch of an interrupt pushes the program counter in its third and fourth tick. -/
theorem stamped_accepted (processor : Processor) (interrupt : Interrupt) (ram : Ram) :
    stamped 1 (((processor.accepted interrupt).history ram 5).map (·.accesses)) =
      pushesFrom processor.regs processor.regs.pc 3 := by
  rw [pushesFrom_eq]
  rfl

/-- The processor keeps to the timetable. From between two instructions, and unless it is halted,
it is busy for the ticks of the instruction at its program counter, which completes unless its
byte is an undefined one, and those ticks make the accesses of the timetable of the instruction,
each in its tick, and no other. A request for an interrupt between instructions makes no access, and
the five ticks of the dispatch push the program counter in the third and the fourth of them. -/
theorem keeps_timetable (processor : Processor) (ram : Ram) (idle : processor.phase = .idle) :
    (processor.regs.halted = false →
      let instruction := instructionAt ram processor.regs.pc
      let count := instruction.ticks processor.regs
      (∃ answer left, Ends processor ram count answer left ∧
        (instruction ≠ .invalid → answer.outcome = .ok ())) ∧
      stamped 1 ((processor.history ram count).map (·.accesses)) =
        instruction.timetable processor.regs ram) ∧
    ∀ interrupt,
      let asked := (processor.request interrupt).exec ram
      asked.value.outcome = .ok () ∧ asked.accesses = [] ∧
        asked.value.processor.Takes asked.memory 5 ∧
        stamped 1 ((asked.value.processor.history asked.memory 5).map (·.accesses)) =
          pushesFrom processor.regs processor.regs.pc 3 := by
  constructor
  · intro fetching instruction count
    by_cases isInvalid : instruction = .invalid
    · obtain ⟨last, accesses⟩ := keepsTime_of_invalid idle fetching isInvalid
      have one : count = 1 := by
        simp only [count, isInvalid]
        rfl
      rw [one, isInvalid]
      exact ⟨⟨_, _, .last last, fun behaves => absurd rfl behaves⟩, accesses⟩
    · have defined : (Memory.read ram processor.regs.pc).1 ∉ Decode.undefinedCodes :=
        fun undefined => isInvalid (instructionAt_eq_invalid_iff.mpr undefined)
      obtain ⟨answer, left, ends, succeeded⟩ := takes_idle idle fetching defined
      exact ⟨⟨answer, left, ends, fun _ => succeeded⟩, ends.keepsTime idle fetching isInvalid⟩
  · intro interrupt
    rw [exec_request idle]
    exact ⟨rfl, rfl, takes_servicing (Nat.zero_le 4) rfl, processor.stamped_accepted interrupt ram⟩

/-- A call whose stack wraps around, and the dispatch of an interrupt from there, keep to the
timetable. -/
theorem timetable_of_call :
    let ram := Ram.ofProgram 0x0100 [0xCD, 0x34, 0x12]
    let processor : Processor := ⟨{ sp := 0x0001, pc := 0x0100 }, .idle⟩
    (processor.phase = .idle ∧ processor.regs.halted = false) ∧
      stamped 1 ((processor.history ram 6).map (·.accesses)) =
        [(.read 0x0100 0xCD, 1), (.read 0x0101 0x34, 2), (.read 0x0102 0x12, 3),
          (.write 0x0000 0x01, 5), (.write 0xFFFF 0x03, 6)] ∧
      stamped 1 (((processor.accepted .timer).history ram 5).map (·.accesses)) =
        [(.write 0x0000 0x01, 3), (.write 0xFFFF 0x00, 4)] := by
  intro ram processor
  obtain ⟨runs, serves⟩ := keeps_timetable processor ram rfl
  obtain ⟨-, accesses⟩ := runs rfl
  obtain ⟨-, -, -, pushes⟩ := serves .timer
  have count : (instructionAt ram processor.regs.pc).ticks processor.regs = 6 := by
    decide +kernel
  rw [count] at accesses
  refine ⟨⟨rfl, rfl⟩, accesses.trans ?_, pushes.trans ?_⟩
  · decide +kernel
  · decide

end Processor

end Sm83
