import Sm83.Proofs.Processor.History
import Sm83.Proofs.Processor.Reachable
import Sm83.Proofs.Schedule.Remaining

/-!
# How long a processor is busy

From every state that calls bring about, ticking ends, and the number of ticks is known when it
starts: what is left of the schedule of the instruction, up to the cycle that decides a branch that
is not taken. From between two instructions that is the documented duration.
-/

namespace Sm83

namespace Processor

open Phase

variable {μ : Type} [Memory μ] {processor : Processor} {memory : μ}

/-- Ticking until idle succeeds after so many ticks. -/
def Takes (processor : Processor) (memory : μ) (count : Nat) : Prop :=
  ∃ answer left, Ends processor memory count answer left ∧ answer.outcome = .ok ()

/-- A tick that succeeds and leaves the processor idle is the only one. -/
theorem takes_one (succeeded : (processor.tick.exec memory).value.outcome = .ok ())
    (idle : (processor.tick.exec memory).value.processor.phase = .idle) :
    processor.Takes memory 1 := by
  refine ⟨_, _, .last ?_, succeeded⟩
  unfold Answer.isLast
  rw [succeeded]
  simpa [isIdle] using idle

/-- A tick that succeeds and leaves the processor busy comes on top of the others. -/
theorem takes_succ {count : Nat} (succeeded : (processor.tick.exec memory).value.outcome = .ok ())
    (busy : (processor.tick.exec memory).value.processor.phase ≠ .idle)
    (rest : (processor.tick.exec memory).value.processor.Takes
      (processor.tick.exec memory).memory count) :
    processor.Takes memory (count + 1) := by
  obtain ⟨answer, left, ends, outcome⟩ := rest
  refine ⟨answer, left, .more ?_ ends, outcome⟩
  rw [Answer.isLast_eq_false_iff]
  exact ⟨succeeded, by simpa [isIdle] using busy⟩

/-- A tick that steps a due cycle of an opcode begins a run of what the opcode has to go: by
induction on that number, through the states that the cycles leave. -/
theorem takes_of_advance (stepped : Processor) (between : μ) {opcode : Opcode} {cycle : Nat}
    {activation : Activation} (listed : opcode ∈ OpcodeTable.standard.entries)
    (defined : opcode.instruction ≠ .invalid)
    (due : activation.violation opcode.lastCycle (cycle + 1) = none)
    (value : (processor.tick.exec memory).value =
      ((stepped.advance opcode (cycle + 1) activation).exec between).value) :
    processor.Takes memory (opcode.instruction.remaining cycle stepped.regs) := by
  obtain ⟨count, total⟩ : ∃ count, opcode.instruction.remaining cycle stepped.regs = count :=
    ⟨_, rfl⟩
  rw [total]
  induction count generalizing processor memory stepped between cycle activation with
  | zero =>
    have unfinished := Opcode.unfinished_of_due defined due
    have positive := Instruction.remaining_pos unfinished stepped.regs
    omega
  | succ count ih =>
    have unfinished := Opcode.unfinished_of_due defined due
    have step := (always_advance stepped listed defined due).exec between
    rw [← value] at step
    obtain ⟨succeeded, left⟩ := step
    cases progress : opcode.instruction.progress (cycle + 1) stepped.regs with
    | retired =>
      rw [progress] at left
      rw [← total, Instruction.remaining_of_retired unfinished progress]
      exact takes_one succeeded left
    | running =>
      rw [progress] at left
      obtain ⟨after, phase, underway, kept⟩ := left
      have less := Instruction.remaining_of_running unfinished progress kept
      have next : (processor.tick.exec memory).value.processor.tick =
          (processor.tick.exec memory).value.processor.advance opcode (cycle + 1 + 1) after := by
        rw [tick, phase]
      have rest : (processor.tick.exec memory).value.processor.Takes
          (processor.tick.exec memory).memory count := by
        refine ih _ (processor.tick.exec memory).memory underway.due (by rw [next]) ?_
        omega
      exact takes_succ succeeded (by simp [phase]) rest

/-! ## From each phase -/

/-- An instruction that is underway takes what it has to go. -/
theorem takes_executing {opcode : Opcode} {cycle : Nat} {activation : Activation}
    (phase : processor.phase = .executing opcode cycle activation)
    (underway : Underway opcode cycle activation) :
    processor.Takes memory (opcode.instruction.remaining cycle processor.regs) := by
  have tick : processor.tick = processor.advance opcode (cycle + 1) activation := by
    rw [tick, phase]
  exact takes_of_advance processor memory underway.listed underway.defined underway.due
    (by rw [tick])

/-- The dispatch of an interrupt goes on up to its fourth cycle. -/
theorem always_dispatchCycle_of_le (processor : Processor) (interrupt : Interrupt) (cycle : Nat)
    (started : 1 ≤ cycle) (early : cycle ≤ 4) :
    (processor.dispatchCycle interrupt cycle).Always fun answer _ _ =>
      answer.outcome = .ok () ∧ answer.processor.phase = .servicing interrupt cycle := by
  have cycles : cycle = 1 ∨ cycle = 2 ∨ cycle = 3 ∨ cycle = 4 := by omega
  rcases cycles with rfl | rfl | rfl | rfl <;> simp [dispatchCycle, Bus.writeByte]

/-- The dispatch of an interrupt takes five ticks in all. -/
theorem takes_servicing {interrupt : Interrupt} {cycle : Nat} (early : cycle ≤ 4)
    (phase : processor.phase = .servicing interrupt cycle) :
    processor.Takes memory (5 - cycle) := by
  obtain ⟨count, total⟩ : ∃ count, cycle + count = 4 := ⟨4 - cycle, by omega⟩
  have tick : processor.tick = processor.dispatchCycle interrupt (cycle + 1) := by
    rw [tick, phase]
  induction count generalizing processor memory cycle with
  | zero =>
    obtain rfl : cycle = 4 := total
    exact takes_one (by rw [tick]; rfl) (by rw [tick]; rfl)
  | succ count ih =>
    have step := (processor.always_dispatchCycle_of_le interrupt (cycle + 1) (by omega)
      (by omega)).exec memory
    rw [← tick] at step
    obtain ⟨succeeded, next⟩ := step
    have rest := @ih (processor.tick.exec memory).value.processor
      (processor.tick.exec memory).memory (cycle + 1) (by omega) next (by omega)
      (by rw [Processor.tick, next])
    have less : 5 - cycle = 5 - (cycle + 1) + 1 := by omega
    rw [less]
    exact takes_succ succeeded (by simp [next]) rest

/-- Between instructions a halted processor is idle after each tick. -/
theorem takes_halted (idle : processor.phase = .idle) (halted : processor.regs.halted = true) :
    processor.Takes memory 1 := by
  have tick : processor.tick = .done ⟨.ok (), processor.promote⟩ := by
    rw [tick, idle]
    simp [halted]
  exact takes_one (by rw [tick]; rfl) (by rw [tick]; simp [idle])

/-- A tick that steps the first cycle of an opcode behind a fetch begins a run of all its cycles. -/
theorem takes_of_fetched (stepped : Processor) (between : μ) {opcode : Opcode}
    {accesses : List Access} {events : List Event}
    (listed : opcode ∈ OpcodeTable.standard.entries) (defined : opcode.instruction ≠ .invalid)
    (ticked : processor.tick.exec memory =
      ((stepped.advance opcode 1 {}).exec between).behind accesses events) :
    processor.Takes memory (opcode.instruction.remaining 0 stepped.regs) :=
  takes_of_advance stepped between listed defined opcode.due_first
    (by rw [ticked, Execution.value_behind])

/-- Behind the prefix byte the instruction takes its cycles. -/
theorem takes_prefixed (processor : Processor) (memory : μ) (phase : processor.phase = .prefixed) :
    processor.Takes memory ((OpcodeTable.standard.lookup
      ⟨(Memory.read memory processor.regs.pc).1, true⟩).instruction.remaining 0
        processor.regs) :=
  takes_of_fetched processor.skipByte _ (OpcodeTable.standard.lookup_mem_entries _)
    (OpcodeTable.lookup_prefixed_ne_invalid _) (exec_tick_of_prefixed phase)

/-- Between instructions a processor that fetches takes the duration of the instruction that its
program counter points to. -/
theorem takes_idle (idle : processor.phase = .idle) (fetching : processor.regs.halted = false)
    (defined : (Memory.read memory processor.regs.pc).1 ∉ Decode.undefinedCodes) :
    processor.Takes memory
      ((instructionAt memory processor.regs.pc).ticks processor.regs) := by
  have behaves := instructionAt_ne_invalid defined
  rw [← Instruction.remaining_zero behaves processor.regs]
  have flags : processor.promote.skipByte.regs.f = processor.regs.f := f_promote processor
  unfold instructionAt encodingAt at behaves ⊢
  by_cases isPrefix : (Memory.read memory processor.regs.pc).1 = prefixByte
  · have tick := exec_tick_of_prefix idle fetching isPrefix
    have address : processor.promote.skipByte.regs.pc = processor.regs.pc + 1 :=
      congrArg (· + 1) (pc_promote processor)
    have rest := takes_prefixed { processor.promote.skipByte with phase := .prefixed }
      (Memory.read memory processor.regs.pc).2 rfl
    rw [address, OpcodeTable.lookup_standard_prefixed] at rest
    rw [Instruction.remaining_congr flags] at rest
    rw [if_pos isPrefix, OpcodeTable.lookup_standard_prefixed, Decode.isPrefixed_prefixed]
    refine takes_succ ?_ ?_ ?_
    · rw [tick]
    · rw [tick]
      exact Phase.noConfusion
    · rw [tick]
      exact rest
  · rw [if_neg isPrefix] at behaves ⊢
    have takes := takes_of_fetched processor.promote.skipByte _
      (OpcodeTable.standard.lookup_mem_entries _) behaves
      (exec_tick_of_plain idle fetching isPrefix)
    rw [OpcodeTable.lookup_standard_plain] at takes ⊢
    rw [Instruction.remaining_congr flags] at takes
    rw [Decode.isPrefixed_plain]
    exact takes

/-- Ticking until idle ends within six ticks, with success or over an undefined byte. -/
def EndsSoon (processor : Processor) (memory : μ) : Prop :=
  ∃ count answer left, count ≤ 6 ∧ Ends processor memory count answer left ∧
    (answer.outcome = .ok () ∨ ∃ code ∈ Decode.undefinedCodes,
      answer.outcome = .error (.undefinedOpcode ⟨code, false⟩))

/-- A run that succeeds within six ticks ends soon. -/
theorem Takes.endsSoon {count : Nat} (takes : processor.Takes memory count) (short : count ≤ 6) :
    processor.EndsSoon memory := by
  obtain ⟨answer, left, ends, succeeded⟩ := takes
  exact ⟨count, answer, left, short, ends, .inl succeeded⟩

/-- A tick that fails over an undefined byte is the last one. -/
theorem endsSoon_of_undefined {code : UInt8} (undefined : code ∈ Decode.undefinedCodes)
    (failed : (processor.tick.exec memory).value.outcome =
      .error (.undefinedOpcode ⟨code, false⟩)) :
    processor.EndsSoon memory := by
  refine ⟨1, _, _, by decide, .last ?_, .inr ⟨code, undefined, failed⟩⟩
  unfold Answer.isLast
  rw [failed]

/-- No listed opcode has more than six cycles to go. -/
theorem remaining_le_six {opcode : Opcode} (listed : opcode ∈ OpcodeTable.standard.entries)
    (defined : opcode.instruction ≠ .invalid) (cycle : Nat) (regs : RegisterFile) :
    opcode.instruction.remaining cycle regs ≤ 6 := by
  have bound := opcode.instruction.remaining_le cycle regs
  have length := Instruction.length_cycles defined
  have short := OpcodeTable.duration_of_mem_entries listed
  omega

/-- The instruction at an address takes at most six ticks. -/
theorem ticks_instructionAt_le {address : UInt16}
    (defined : (Memory.read memory address).1 ∉ Decode.undefinedCodes) (regs : RegisterFile) :
    (instructionAt memory address).ticks regs ≤ 6 := by
  have listed := OpcodeTable.standard.lookup_mem_entries (encodingAt memory address)
  have longest := Instruction.ticks_le (instructionAt_ne_invalid defined) regs
  exact Nat.le_trans longest (OpcodeTable.duration_of_mem_entries listed)

/-- From a sound phase ticking until idle ends soon. -/
theorem endsSoon_of_sound (sound : processor.phase.Sound) (memory : μ) :
    processor.EndsSoon memory := by
  cases phase : processor.phase with
  | idle =>
    by_cases halted : processor.regs.halted = true
    · exact (takes_halted phase halted).endsSoon (by decide)
    · have fetching : processor.regs.halted = false := by simpa using halted
      by_cases undefined : (Memory.read memory processor.regs.pc).1 ∈ Decode.undefinedCodes
      · exact endsSoon_of_undefined undefined (exec_tick_of_undefined phase fetching undefined).1
      · have short := ticks_instructionAt_le undefined processor.regs
        exact (takes_idle phase fetching undefined).endsSoon short
  | prefixed =>
    have listed := OpcodeTable.standard.lookup_mem_entries
      ⟨(Memory.read memory processor.regs.pc).1, true⟩
    have defined :=
      OpcodeTable.lookup_prefixed_ne_invalid (Memory.read memory processor.regs.pc).1
    have short := remaining_le_six listed defined 0 processor.regs
    exact (takes_prefixed processor memory phase).endsSoon short
  | executing opcode cycle activation =>
    rw [phase] at sound
    have underway : Underway opcode cycle activation := sound
    have short := remaining_le_six underway.listed underway.defined cycle processor.regs
    exact (takes_executing phase underway).endsSoon short
  | servicing interrupt cycle =>
    rw [phase] at sound
    have early : cycle ≤ 4 := sound
    exact (takes_servicing early phase).endsSoon (by omega)
  | locked fault =>
    rw [phase] at sound
    obtain ⟨code, undefined, rfl⟩ := sound
    have failed : (processor.tick.exec memory).value.outcome =
        .error (.undefinedOpcode ⟨code, false⟩) := by
      rw [tick, phase]
      rfl
    exact endsSoon_of_undefined undefined failed

/-! ## The documented durations -/

/-- A run that takes a number of ticks within the limit returns that number. -/
theorem Takes.outcome_runUntilIdle {count : Nat} (takes : processor.Takes memory count)
    (enough : count ≤ tickLimit) :
    (processor.runUntilIdle.exec memory).value.outcome = .ok count := by
  obtain ⟨answer, left, ends, succeeded⟩ := takes
  have run := (ends.exec_runUntilIdle enough).1
  rw [run, succeeded]
  rfl

/-- The ticks that a run within the limit takes leave what the run leaves. -/
theorem Takes.exec_ticks {count : Nat} (takes : processor.Takes memory count)
    (enough : count ≤ tickLimit) :
    let ticked := (processor.ticks count).exec memory
    let run := processor.runUntilIdle.exec memory
    ticked.value = ⟨.ok (), run.value.processor⟩ ∧ ticked.memory = run.memory := by
  obtain ⟨answer, left, ends, succeeded⟩ := takes
  obtain ⟨value, remains⟩ := ends.exec_ticks
  have whole := ends.exec_runUntilIdle enough
  intro ticked run
  rw [value, remains, whole.1, whole.2, ← succeeded]
  exact ⟨rfl, rfl⟩

/-- A run within the limit may be split after any of its ticks: the processor is busy until the last
one, and running on takes the other ticks and leaves what running at once leaves. -/
theorem Takes.split {count : Nat} (takes : processor.Takes memory count)
    (enough : count ≤ tickLimit) {made : Nat} (early : made < count) :
    let after := (processor.ticks made).exec memory
    let rest := after.value.processor.runUntilIdle.exec after.memory
    let whole := processor.runUntilIdle.exec memory
    after.value.outcome = .ok () ∧ (1 ≤ made → after.value.processor.isIdle = false) ∧
      rest.value.outcome = .ok (count - made) ∧ rest.value.processor = whole.value.processor ∧
        rest.memory = whole.memory := by
  obtain ⟨answer, left, ends, succeeded⟩ := takes
  obtain ⟨outcome, busy, remaining⟩ := ends.split early
  have whole := ends.exec_runUntilIdle enough
  have rest := remaining.exec_runUntilIdle (Nat.le_trans (Nat.sub_le count made) enough)
  refine ⟨outcome, busy, ?_, ?_, ?_⟩
  · rw [rest.1, succeeded]
    rfl
  · rw [rest.1, whole.1]
  · rw [rest.2, whole.2]

/-- Running until idle takes the documented time, however its ticks are split. Between instructions
a processor that fetches is busy for as long as the instruction at the program counter says, one
that is halted for one tick; the dispatch of an interrupt takes five ticks. From every reachable
processor the unlimited loop ends within six ticks, with success or over an undefined byte, and the
limited one does the same. -/
theorem runs_for_duration {μ : Type} [Memory μ] (processor : Processor) (memory : μ) :
    (processor.phase = .idle → processor.regs.halted = false →
      (Memory.read memory processor.regs.pc).1 ∉ Decode.undefinedCodes →
        let count := (instructionAt memory processor.regs.pc).ticks processor.regs
        let whole := processor.runUntilIdle.exec memory
        (∀ made, 1 ≤ made → made < count →
          ((processor.ticks made).exec memory).value.outcome = .ok () ∧
            ((processor.ticks made).exec memory).value.processor.isIdle = false) ∧
        (((processor.ticks count).exec memory).value.outcome = .ok () ∧
          ((processor.ticks count).exec memory).value.processor.isIdle = true) ∧
        ∀ made < count,
          let after := (processor.ticks made).exec memory
          let rest := after.value.processor.runUntilIdle.exec after.memory
          rest.value.outcome = .ok (count - made) ∧
            rest.value.processor = whole.value.processor ∧ rest.memory = whole.memory) ∧
    (processor.phase = .idle → processor.regs.halted = true →
      (processor.runUntilIdle.exec memory).value.outcome = .ok 1) ∧
    (Reachable processor →
      (∀ interrupt cycle, processor.phase = .servicing interrupt cycle →
        cycle ≤ 4 ∧ (processor.runUntilIdle.exec memory).value.outcome = .ok (5 - cycle)) ∧
      ∃ count answer left, count ≤ 6 ∧ Ends processor memory count answer left ∧
        (processor.runUntilIdle.exec memory).value =
          ⟨answer.outcome.map fun _ => count, answer.processor⟩ ∧
        (processor.runUntilIdle.exec memory).memory = left ∧
        (answer.outcome = .ok () ∨ ∃ code ∈ Decode.undefinedCodes,
          answer.outcome = .error (.undefinedOpcode ⟨code, false⟩))) := by
  refine ⟨?_, ?_, ?_⟩
  · intro idle fetching defined
    have short := ticks_instructionAt_le defined processor.regs
    have enough := Nat.le_trans short (by decide : 6 ≤ tickLimit)
    have takes := takes_idle idle fetching defined
    refine ⟨?_, ?_, ?_⟩
    · intro made started early
      obtain ⟨succeeded, busy, -⟩ := takes.split enough early
      exact ⟨succeeded, busy started⟩
    · obtain ⟨answer, left, ends, succeeded⟩ := takes
      rw [ends.exec_ticks.1]
      exact ⟨succeeded, ends.idle succeeded⟩
    · intro made early
      obtain ⟨-, -, outcome, same, memories⟩ := takes.split enough early
      exact ⟨outcome, same, memories⟩
  · intro idle halted
    exact (takes_halted idle halted).outcome_runUntilIdle (by decide)
  · intro reachable
    refine ⟨?_, ?_⟩
    · intro interrupt cycle phase
      have sound := reachable.sound
      rw [phase] at sound
      have early : cycle ≤ 4 := sound
      have enough : 5 - cycle ≤ tickLimit := Nat.le_trans (Nat.sub_le 5 cycle) (by decide)
      exact ⟨early, (takes_servicing early phase).outcome_runUntilIdle enough⟩
    · obtain ⟨count, answer, left, short, ends, outcome⟩ := endsSoon_of_sound reachable.sound memory
      have run := ends.exec_runUntilIdle (Nat.le_trans short (by decide))
      exact ⟨count, answer, left, short, ends, run.1, run.2, outcome⟩

/-- A relative jump that is not taken takes two ticks, and the dispatch of an interrupt five. -/
theorem duration_of_untaken_jump :
    let memory := Ram.ofProgram 0x0100 [0x20, 0xFE]
    (((afterBoot .dmgAbc).ticks 1).exec memory).value.processor.isIdle = false ∧
      (((afterBoot .dmgAbc).ticks 2).exec memory).value.processor.isIdle = true ∧
      ((afterBoot .dmgAbc).runUntilIdle.exec memory).value.outcome = .ok 2 ∧
      ∃ processor, Reachable processor ∧ processor.phase = .servicing .timer 0 ∧
        (processor.runUntilIdle.exec Ram.zero).value.outcome = .ok 5 := by
  intro memory
  have count : (instructionAt memory (afterBoot .dmgAbc).regs.pc).ticks
      (afterBoot .dmgAbc).regs = 2 := by
    decide +kernel
  obtain ⟨busy, idle, split⟩ :=
    (runs_for_duration (afterBoot .dmgAbc) memory).1 rfl rfl (by decide +kernel)
  rw [count] at busy idle split
  have early := busy 1 (by decide) (by decide)
  have whole := split 0 (by decide)
  have reachable := (Reachable.boot .dmgAbc).call (.request .timer) Ram.zero
  have dispatch := (runs_for_duration _ Ram.zero).2.2 reachable
  exact ⟨early.2, idle.2, whole.1, _, reachable, rfl, (dispatch.1 .timer 0 rfl).2⟩

end Processor

end Sm83
