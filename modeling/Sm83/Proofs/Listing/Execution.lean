import Sm83.Proofs.Listing.Image
import Sm83.Proofs.Processor.History
import Sm83.Proofs.Processor.Run

/-!
# The listing and the processor

A processor that runs the instruction at its program counter over a RAM agrees with the listing of
the image of that RAM. It starts the listed instruction and reads the listed bytes, before any other
access. It comes to rest behind the line, or, where a jump or a call is taken, where the value of
the listed bytes says.
-/

namespace Sm83

/-- Reads that come before all other accesses find the bytes that were in the RAM. -/
theorem Ram.eq_block_of_reads {α : Type} {program : Bus α} {ram : Ram} {address : UInt16}
    {bytes : List UInt8} {rest : List Access}
    (first : (program.exec ram).accesses = reads address bytes ++ rest) :
    bytes = ram.block address bytes.length := by
  induction program generalizing address bytes with
  | done value =>
    cases bytes with
    | nil => rfl
    | cons byte more => simp [reads] at first
  | read target next ih =>
    cases bytes with
    | nil => rfl
    | cons byte more =>
      simp only [Bus.exec_read, Execution.behind, Ram.memory_read, reads, List.cons_append,
        List.nil_append, List.cons.injEq, Access.read.injEq] at first
      obtain ⟨⟨rfl, rfl⟩, others⟩ := first
      have remaining := ih _ others
      rw [List.length_cons, Ram.block, ← remaining]
  | write target byte next ih =>
    cases bytes with
    | nil => rfl
    | cons byte more => simp [Execution.behind, reads] at first
  | report event next ih => exact ih first

namespace Processor

variable {processor : Processor} {ram : Ram}

/-- The register file with which the instruction at the program counter starts. -/
def started (processor : Processor) (instruction : Instruction) : RegisterFile :=
  { processor.promote.regs with
    pc := processor.regs.pc + UInt16.ofNat instruction.opcodeBytes }

/-- Running until idle over a RAM reads the bytes of the opcode and executes it. -/
theorem exec_runUntilIdle (idle : processor.phase = .idle)
    (fetching : processor.regs.halted = false) (ram : Ram) :
    let instruction := instructionAt ram processor.regs.pc
    processor.runUntilIdle.exec ram =
      ((execute instruction.isPrefixed.toNat (processor.started instruction) processor.regs.pc
        (encodingAt ram processor.regs.pc)).exec ram).behind
          (reads processor.regs.pc (ram.block processor.regs.pc instruction.opcodeBytes)) [] := by
  intro instruction
  rw [runUntilIdle_eq idle fetching]
  by_cases isPrefix : ram.read processor.regs.pc = prefixByte
  · have encoding : encodingAt ram processor.regs.pc =
        ⟨ram.read (processor.regs.pc + 1), true⟩ := by
      simp [encodingAt, isPrefix]
    have found : instruction = Decode.prefixed (ram.read (processor.regs.pc + 1)) := by
      simp [instruction, instructionAt, encoding]
    have opcode : instruction.opcodeBytes = 2 := by simp [found, Instruction.opcodeBytes]
    have begun : processor.started instruction = processor.promote.skipByte.skipByte.regs := by
      simp [started, skipByte, withRegs, opcode, Word.add_one_add_one]
    rw [begun, opcode, encoding, found, Decode.isPrefixed_prefixed]
    simp [isPrefix, Ram.block, reads]
  · have encoding : encodingAt ram processor.regs.pc = ⟨ram.read processor.regs.pc, false⟩ := by
      simp [encodingAt, isPrefix]
    have found : instruction = Decode.plain (ram.read processor.regs.pc) := by
      simp [instruction, instructionAt, encoding]
    have opcode : instruction.opcodeBytes = 1 := by simp [found, Instruction.opcodeBytes]
    have begun : processor.started instruction = processor.promote.skipByte.regs := by
      simp [started, skipByte, withRegs, opcode]
    rw [begun, opcode, encoding, found, Decode.isPrefixed_plain]
    simp [isPrefix, Ram.block, reads]

/-- Executing a listed instruction with a behaviour completes it and covers it. -/
theorem always_execute {made : Nat} {regs : RegisterFile} {address : UInt16} {encoding : Encoding}
    (defined : (OpcodeTable.standard.lookup encoding).instruction ≠ .invalid) :
    (execute made regs address encoding).Always fun answer accesses events =>
      (∃ count, answer.outcome = .ok count) ∧ answer.processor.phase = .idle ∧
        ∃ later, events =
            .dispatched address (OpcodeTable.standard.lookup encoding).instruction :: later ∧
          (OpcodeTable.standard.lookup encoding).instruction.Covers regs made
            ⟨answer.processor.regs, {}⟩ accesses later := by
  have listed := OpcodeTable.standard.lookup_mem_entries encoding
  have storable := OpcodeTable.storesImmediate_of_mem_entries listed
  have sequential := OpcodeTable.changesPc_of_mem_entries listed
  have covers := Instruction.covers_run defined storable sequential regs
  unfold execute
  rw [Bus.always_report, if_neg defined, Bus.always_bind]
  apply Bus.Always.mono covers
  rintro ⟨outcome, context⟩ accesses events covered
  cases outcome with
  | error fault => exact covered.elim
  | ok count =>
    simp only [conclude, Bus.pure_eq_done, Bus.always_done, List.append_nil, true_and]
    exact ⟨⟨_, rfl⟩, events, rfl, covered⟩

/-- The run of an instruction with a behaviour reads the bytes of the instruction before it makes
any other access, reports one start, and lands where it should. -/
theorem run_covers (idle : processor.phase = .idle) (fetching : processor.regs.halted = false)
    (defined : instructionAt ram processor.regs.pc ≠ .invalid) :
    let instruction := instructionAt ram processor.regs.pc
    let run := processor.runUntilIdle.exec ram
    (∃ count, run.value.outcome = .ok count) ∧ run.value.processor.phase = .idle ∧
      (∃ later, run.events = .dispatched processor.regs.pc instruction :: later ∧
        ∀ event ∈ later, event.isDispatch = false) ∧
      (∃ rest, run.accesses = reads processor.regs.pc (ram.block processor.regs.pc
        (instruction.opcodeBytes + instruction.fetchedBytes)) ++ rest) ∧
      instruction.Lands (processor.started instruction)
        (ram.block (processor.regs.pc + UInt16.ofNat instruction.opcodeBytes)
          instruction.fetchedBytes) run.value.processor.regs.pc := by
  intro instruction run
  have executed := (@always_execute instruction.isPrefixed.toNat (processor.started instruction)
    processor.regs.pc (encodingAt ram processor.regs.pc) defined).exec ram
  have split : run = _ := exec_runUntilIdle idle fetching ram
  obtain ⟨succeeded, ended, later, reported, quiet, bytes, rest, counted, accesses, lands⟩ :=
    executed
  have found := Ram.eq_block_of_reads accesses
  rw [counted] at found
  rw [split]
  refine ⟨succeeded, ended, ⟨later, reported, quiet⟩, ⟨rest, ?_⟩, ?_⟩
  · rw [Ram.block_add, reads_append, Ram.length_block, List.append_assoc]
    exact congrArg _ (accesses.trans (by rw [found]; rfl))
  · rw [found] at lands
    exact lands

/-- The bytes that are read are those that are listed, but for the padding byte of a stop. -/
theorem block_fetched (ram : Ram) (address : UInt16) (instruction : Instruction) :
    ram.block address (instruction.opcodeBytes + instruction.fetchedBytes) =
      if instruction = .stop then (ram.block address instruction.length).take 1
      else ram.block address instruction.length := by
  by_cases stopping : instruction = .stop
  · rw [if_pos stopping, stopping]
    rfl
  · rw [if_neg stopping, Instruction.fetchedBytes, if_neg stopping,
      Instruction.opcodeBytes_add_operandBytes]

/-- Whether an instruction departs is decided by the flags from before it was fetched. -/
theorem departs_started (instruction : Instruction) (processor : Processor) :
    instruction.departs (processor.started instruction) = instruction.departs processor.regs :=
  instruction.departs_congr (f_promote processor)

/-- An instruction that does not depart ends behind its line. -/
theorem lands_behind {instruction : Instruction} {bytes : List UInt8} {pc : UInt16}
    (onward : instruction.departs processor.regs = false)
    (lands : instruction.Lands (processor.started instruction) bytes pc) :
    pc = processor.regs.pc + UInt16.ofNat instruction.length := by
  rw [← departs_started] at onward
  unfold Instruction.Lands at lands
  rw [if_neg (by simp [onward])] at lands
  rw [lands, ← instruction.opcodeBytes_add_operandBytes, UInt16.ofNat_add, ← UInt16.add_assoc]
  rfl

/-- A jump or a call that is taken ends at the value of the bytes that it fetched. -/
theorem lands_at_word {instruction : Instruction} {condition : Option Condition}
    {bytes : List UInt8} {pc : UInt16}
    (jumping : instruction = .jp condition ∨ instruction = .call condition)
    (taken : processor.regs.holds condition = true)
    (lands : instruction.Lands (processor.started instruction) bytes pc) :
    operandValue bytes = some pc := by
  have departing : instruction.departs (processor.started instruction) = true := by
    rw [departs_started]
    rcases jumping with rfl | rfl <;> exact taken
  unfold Instruction.Lands at lands
  rw [if_pos departing] at lands
  rcases jumping with rfl | rfl <;>
  · obtain ⟨low, high, rfl, rfl⟩ := lands
    rfl

/-- A relative jump that is taken ends as far behind its line as the byte that it fetched says. -/
theorem lands_at_offset {condition : Option Condition} {bytes : List UInt8} {pc : UInt16}
    (taken : processor.regs.holds condition = true)
    (lands : (Instruction.jr condition).Lands (processor.started (.jr condition)) bytes pc) :
    ∃ operand, operandValue bytes = some operand ∧
      pc = processor.regs.pc + 2 + Word.ofOffset (Word.low operand) := by
  have departing : (Instruction.jr condition).departs (processor.started (.jr condition)) = true :=
    (departs_started _ _).trans taken
  unfold Instruction.Lands at lands
  rw [if_pos departing] at lands
  obtain ⟨offset, rfl, rfl⟩ := lands
  refine ⟨offset.toUInt16, rfl, ?_⟩
  rw [Word.low, UInt8.toUInt8_toUInt16, ← Word.add_one_add_one]
  rfl

/-- The listing and the processor agree on the instruction at the program counter. Where it has no
behaviour, the next tick fails over the byte that the line holds. Otherwise the run until idle
succeeds, starts the listed instruction and no other, and first reads the listed bytes, but for the
padding byte of a stop. It ends behind the line unless the instruction departs; a jump or a call
that is taken ends at the value of the line, and a relative jump that far from its end. -/
theorem runs_as_listed (processor : Processor) (ram : Ram) (idle : processor.phase = .idle)
    (fetching : processor.regs.halted = false) :
    let line := Line.ofImage ram.toArray processor.regs.pc
    let run := processor.runUntilIdle.exec ram
    (line.instruction = .invalid →
      ∃ code, line.bytes = [code] ∧
        (processor.tick.exec ram).value.outcome = .error (.undefinedOpcode ⟨code, false⟩)) ∧
    (line.instruction ≠ .invalid →
      (∃ count, run.value.outcome = .ok count) ∧ run.value.processor.phase = .idle ∧
        (∃ later, run.events = .dispatched processor.regs.pc line.instruction :: later ∧
          ∀ event ∈ later, event.isDispatch = false) ∧
        (∃ rest, run.accesses = reads processor.regs.pc
          (if line.instruction = .stop then line.bytes.take 1 else line.bytes) ++ rest) ∧
        (line.instruction.departs processor.regs = false →
          run.value.processor.regs.pc =
            processor.regs.pc + UInt16.ofNat line.bytes.length) ∧
        (∀ condition, line.instruction = .jp condition ∨ line.instruction = .call condition →
          processor.regs.holds condition = true →
            line.operand = some run.value.processor.regs.pc) ∧
        ∀ condition, line.instruction = .jr condition → processor.regs.holds condition = true →
          ∃ operand, line.operand = some operand ∧
            run.value.processor.regs.pc =
              processor.regs.pc + 2 + Word.ofOffset (Word.low operand)) := by
  intro line run
  have listed : line = _ := Line.ofImage_toArray ram processor.regs.pc
  simp only [listed]
  constructor
  · intro isInvalid
    have undefined := instructionAt_eq_invalid_iff.mp isInvalid
    rw [isInvalid]
    exact ⟨ram.read processor.regs.pc, rfl, (exec_tick_of_undefined idle fetching undefined).1⟩
  · intro defined
    obtain ⟨succeeded, ended, reported, fetched, lands⟩ := run_covers idle fetching defined
    rw [block_fetched] at fetched
    refine ⟨succeeded, ended, reported, fetched, ?_, ?_, ?_⟩
    · intro onward
      rw [Ram.length_block]
      exact lands_behind onward lands
    · intro condition jumping taken
      have ordinary : instructionAt ram processor.regs.pc ≠ .stop := by
        rcases jumping with jumping | jumping <;> simp [jumping]
      rw [Instruction.fetchedBytes, if_neg ordinary] at lands
      exact lands_at_word jumping taken lands
    · intro condition jumping taken
      have ordinary : instructionAt ram processor.regs.pc ≠ .stop := by simp [jumping]
      rw [Instruction.fetchedBytes, if_neg ordinary] at lands
      revert lands
      rw [jumping]
      exact lands_at_offset taken

/-- A call is read and taken, and ends at the word in its line. -/
theorem lands_of_call :
    let ram := Ram.ofProgram 0x0100 [0xCD, 0x34, 0x12]
    let processor := afterBoot .dmgAbc
    processor.phase = .idle ∧ processor.regs.halted = false ∧
      (∃ rest, (processor.runUntilIdle.exec ram).accesses =
        reads 0x0100 [0xCD, 0x34, 0x12] ++ rest) ∧
      (processor.runUntilIdle.exec ram).value.processor.regs.pc = 0x1234 := by
  intro ram processor
  have line : Line.ofImage ram.toArray 0x0100 =
      ⟨[0xCD, 0x34, 0x12], .call none, some 0x1234⟩ := by
    rw [Line.ofImage_toArray]
    decide +kernel
  have agreed := (runs_as_listed processor ram rfl rfl).2
  simp only [show processor.regs.pc = 0x0100 from rfl, line, reduceCtorEq, if_false] at agreed
  obtain ⟨-, -, -, fetched, -, taken, -⟩ := agreed Instruction.noConfusion
  have landed := Option.some.inj (taken none (.inr rfl) rfl)
  exact ⟨rfl, rfl, fetched, landed.symm⟩

end Processor

end Sm83
