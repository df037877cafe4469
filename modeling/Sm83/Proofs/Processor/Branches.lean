import Sm83.Proofs.Processor.Outcome

/-!
# Jumps, calls and returns

What a processor comes to that runs a jump, a call or a return, over any RAM: where it continues,
what it does to the stack, and that nothing else changes. All of it is told from the registers and
the RAM before the instruction, so also a call that overwrites its own bytes continues at the word
that was there.
-/

namespace Sm83

open MachineCycle Schedule

namespace Instruction

variable {before : RegisterFile} {ime imePending : Bool} {ram : Ram} {condition : Option Condition}

/-- A jump continues at its word if it is taken, and behind it if it is not. -/
theorem leads_jp :
    (jp condition).Leads (before.fetched ime imePending) ram
      { before.fetched ime imePending with
        pc := if before.holds condition then ram.wordAt (before.pc + 1) else before.pc + 3 }
      ram := by
  cases decided : before.holds condition with
  | true =>
    exact ⟨_, _, does_run_branching_of_holds decided (does_run_retiring (does_jumpLatched _ _ _))⟩
  | false => exact ⟨_, _, does_run_branching_of_not_holds decided⟩

/-- A relative jump continues as far behind it as its byte says if it is taken, and behind it if it
is not. -/
theorem leads_jr :
    (jr condition).Leads (before.fetched ime imePending) ram
      { before.fetched ime imePending with
        pc := if before.holds condition then
            before.pc + 2 + Word.ofOffset (ram.read (before.pc + 1))
          else before.pc + 2 }
      ram := by
  let latch : Latch := { low := ram.read (before.pc + 1) }
  have offset : fetchLow.Does ⟨before.fetched ime imePending, {}⟩ ram ()
      ⟨{ before.fetched ime imePending with pc := before.pc + 2 }, latch⟩ ram := by
    rw [← Word.add_one_add_one]
    exact ⟨_, _, rfl⟩
  have jumps : jumpRelative.Does
      ⟨{ before.fetched ime imePending with pc := before.pc + 2 }, latch⟩ ram ()
      ⟨{ before.fetched ime imePending with
        pc := before.pc + 2 + Word.ofOffset (ram.read (before.pc + 1)) }, latch⟩ ram :=
    ⟨_, _, rfl⟩
  cases decided : before.holds condition with
  | true =>
    exact ⟨_, _, does_run_continuing (does_idle _ _)
      (does_run_deciding_of_holds offset decided (does_run_retiring jumps))⟩
  | false =>
    exact ⟨_, _, does_run_continuing (does_idle _ _)
      (does_run_deciding_of_not_holds offset decided)⟩

/-- A jump to where HL points continues there. -/
theorem leads_jpHl :
    jpHl.Leads (before.fetched ime imePending) ram
      { before.fetched ime imePending with pc := before.hl } ram :=
  ⟨_, _, does_run_retiring ⟨_, _, rfl⟩⟩

/-- The address that a call of a fixed address continues at. -/
def vector? : Instruction → Option UInt8
  | rst vector => some vector
  | _ => none

end Instruction

/-- The fixed address is the middle digit of the opcode, eight bytes apart. -/
theorem Decode.vector?_plain :
    ∀ code : UInt8, ∀ vector ∈ (plain code).vector?, vector = code &&& 0x38 := by
  have each : ∀ code : UInt8, ((plain code).vector?.all (· == code &&& 0x38)) = true :=
    forall_byte (by decide +kernel)
  intro code vector continues
  have same := each code
  rw [Option.mem_def.mp continues] at same
  exact eq_of_beq same

namespace Processor

open Instruction

/-- Jumps, calls and returns from end to end. Wherever the condition of one holds in the flags
before it, a jump continues at the word behind its opcode, a relative one as far behind the
instruction as the byte behind its opcode says, and one to HL where HL points. A call continues at
the word that was behind its opcode before it pushes, one of a fixed address there, and both push
the address of what follows them. A return takes the address that it continues at from the stack,
and one from an interrupt enables interrupts, too. Where the condition does not hold, the
instruction that follows is next. No other register, no flag and no other byte changes; what was
pushed is the word at the stack pointer, and every byte but its two is as it was. -/
theorem branches_from_end_to_end (processor : Processor) (ram : Ram)
    (poised : processor.Poised) :
    let regs := processor.regs
    let instruction := instructionAt ram regs.pc
    (∀ condition, instruction = .jp condition →
      processor.RunsTo ram
        { regs with
          pc := if regs.holds condition then ram.wordAt (regs.pc + 1) else regs.pc + 3 }
        ram) ∧
    (∀ condition, instruction = .jr condition →
      processor.RunsTo ram
        { regs with
          pc := if regs.holds condition then
              regs.pc + 2 + Word.ofOffset (ram.read (regs.pc + 1))
            else regs.pc + 2 }
        ram) ∧
    (instruction = .jpHl → processor.RunsTo ram { regs with pc := regs.hl } ram) ∧
    (∀ condition, instruction = .call condition →
      if regs.holds condition then
        processor.RunsTo ram { regs with sp := regs.sp - 2, pc := ram.wordAt (regs.pc + 1) }
          (ram.pushWord regs.sp (regs.pc + 3))
      else processor.RunsTo ram { regs with pc := regs.pc + 3 } ram) ∧
    (∀ vector, instruction = .rst vector →
      vector = ram.read regs.pc &&& 0x38 ∧
        processor.RunsTo ram { regs with sp := regs.sp - 2, pc := vector.toUInt16 }
          (ram.pushWord regs.sp (regs.pc + 1))) ∧
    (∀ condition, instruction = .ret condition →
      if regs.holds condition then
        processor.RunsTo ram { regs with sp := regs.sp + 2, pc := ram.wordAt regs.sp } ram
      else processor.RunsTo ram { regs with pc := regs.pc + 1 } ram) ∧
    (instruction = .reti →
      processor.RunsTo ram { regs with sp := regs.sp + 2, pc := ram.wordAt regs.sp, ime := true }
        ram) ∧
    ∀ pointer word,
      let pushed := ram.pushWord pointer word
      pushed.wordAt (pointer - 2) = word ∧
        ∀ address, address ≠ pointer - 1 → address ≠ pointer - 2 →
          pushed.read address = ram.read address := by
  intro regs instruction
  refine ⟨?jp, ?jr, ?jpHl, ?call, ?rst, ?ret, ?reti, fun pointer word => ?pushed⟩
  case jp => exact fun condition found => poised.runsTo found Instruction.noConfusion leads_jp
  case jr => exact fun condition found => poised.runsTo found Instruction.noConfusion leads_jr
  case jpHl => exact fun found => poised.runsTo found Instruction.noConfusion leads_jpHl
  case call =>
    intro condition found
    cases decided : regs.holds condition with
    | true => exact poised.runsTo found Instruction.noConfusion (leads_call_of_holds decided)
    | false => exact poised.runsTo found Instruction.noConfusion (leads_call_of_not_holds decided)
  case rst =>
    intro vector found
    obtain ⟨-, decoded⟩ := plain_of_instructionAt (congrArg isPrefixed found)
    have fixed : vector = ram.read regs.pc &&& 0x38 :=
      Decode.vector?_plain _ vector (congrArg vector? (decoded.symm.trans found))
    exact ⟨fixed, poised.runsTo found Instruction.noConfusion (leads_rst vector)⟩
  case ret =>
    intro condition found
    cases decided : regs.holds condition with
    | true => exact poised.runsTo found Instruction.noConfusion (leads_ret_of_holds decided)
    | false => exact poised.runsTo found Instruction.noConfusion (leads_ret_of_not_holds decided)
  case reti =>
    intro found
    have leads := @leads_reti regs regs.ime regs.imePending ram
    rw [← poised.settled] at leads
    exact poised.runsTo found Instruction.noConfusion leads
  case pushed =>
    exact ⟨ram.wordAt_pushWord pointer word,
      fun address high low => ram.read_pushWord_of_ne word high low⟩

/-- A call that pushes over its own bytes continues at the word that was there. -/
theorem branch_of_call_over_itself :
    let ram := Ram.ofProgram 0x0100 [0xCD, 0x34, 0x12]
    let processor : Processor := ⟨{ sp := 0x0103, pc := 0x0100 }, .idle⟩
    let pushed := ram.pushWord 0x0103 0x0103
    processor.Poised ∧ instructionAt ram processor.regs.pc = .call none ∧
      processor.RunsTo ram { sp := 0x0101, pc := 0x1234 } pushed ∧
      pushed.wordAt 0x0101 = 0x0103 := by
  intro ram processor pushed
  have poised : processor.Poised := ⟨rfl, rfl, rfl⟩
  obtain ⟨found, word⟩ : instructionAt ram processor.regs.pc = .call none ∧
      ram.wordAt (processor.regs.pc + 1) = 0x1234 := by decide +kernel
  obtain ⟨-, -, -, calls, -, -, -, pushes⟩ := branches_from_end_to_end processor ram poised
  have taken : processor.regs.holds none = true := rfl
  have runs := calls none found
  have below : processor.regs.sp - 2 = 0x0101 := by decide
  have behind : processor.regs.pc + 3 = 0x0103 := by decide
  rw [if_pos taken, word, below, behind] at runs
  exact ⟨poised, found, runs, (pushes 0x0103 0x0103).1⟩

end Processor

end Sm83
