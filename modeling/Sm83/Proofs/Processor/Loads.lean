import Sm83.Proofs.Processor.Outcome
import Sm83.Proofs.Schedule.Operands

/-!
# Loads

What a processor comes to that runs a load, over any RAM: the target holds what the source held
before the instruction, HL has moved where an operand moves it, and nothing else has changed. The
same instruction may be code, source and target at once, since all of it is told from the registers
and the RAM before.
-/

namespace Sm83

open MachineCycle Schedule

/-! ## What the cycles lead to -/

namespace Instruction

variable {before : RegisterFile} {ram : Ram} {source : Operand} {mode : AddressMode}
  {rr : RegisterPair}

/-- A load into a register puts there what the source held. -/
theorem leads_load_register {r : Register} (proper : source ≠ .memory (.pair .pc)) :
    (load (.register r) source).Leads { before with pc := before.pc + 1 } ram
      { (source.used before).set r (source.held before ram) with
        pc := before.pc + UInt16.ofNat (load (.register r) source).length }
      ram := by
  have few : (Operand.register r).size + source.size ≤ 2 := by
    rw [Operand.size, Nat.zero_add]
    exact source.size_le
  have got := @Operand.does_load before
    (before.pc + UInt16.ofNat (load (.register r) source).length) ram
    ((Operand.register r).size + source.size) source proper (Nat.le_add_left _ _)
  have copies := got.bind (Operand.does_store_register r _ _)
  exact ⟨_, _, does_run_closing_fetches few _ copies⟩

/-- What a load stores in the memory comes from a register, or from behind the opcode to where HL
points. -/
theorem direct_of_isOrdinary (ordinary : (load (.memory mode) source).isOrdinary = true) :
    mode ≠ .pair .pc ∧ source.isMemory = false ∧ mode.size + source.size ≤ 2 := by
  rcases source with r | _ | _
  · exact ⟨by simpa [isOrdinary] using ordinary, rfl, (Operand.memory mode).size_le⟩
  · cases mode with
    | pair rr =>
      cases rr with
      | hl => exact ⟨nofun, rfl, by decide⟩
      | _ => cases ordinary
    | _ => cases ordinary
  · cases mode with
    | pair rr => cases rr <;> cases ordinary
    | _ => cases ordinary

/-- A load into the memory puts at the effective address what the source held. -/
theorem leads_load_memory (ordinary : (load (.memory mode) source).isOrdinary = true) :
    (load (.memory mode) source).Leads { before with pc := before.pc + 1 } ram
      { mode.used before with
        pc := before.pc + UInt16.ofNat (load (.memory mode) source).length }
      (ram.write (mode.effective before ram) (source.held before ram)) := by
  obtain ⟨proper, direct, few⟩ := direct_of_isOrdinary ordinary
  have elsewhere : source ≠ .memory (.pair .pc) := by
    rintro rfl
    cases direct
  have kept : source.used before = before := by
    cases source with
    | register | immediate => rfl
    | memory _ => cases direct
  have got := @Operand.does_load before
    (before.pc + UInt16.ofNat (load (.memory mode) source).length) ram (mode.size + source.size)
    source elsewhere (Nat.le_add_left _ _)
  rw [kept] at got
  have copies := got.bind (Operand.does_store_memory proper (Nat.le_add_right _ _) _)
  exact ⟨_, _, does_run_closing_fetches few _ copies⟩

/-- A load of a word puts it into its pair, if that is not the program counter. -/
theorem leads_loadPair (other : rr ≠ .pc) :
    (loadPair rr).Leads { before with pc := before.pc + 1 } ram
      { before.setPair rr (ram.wordAt (before.pc + 1)) with pc := before.pc + 3 } ram := by
  obtain ⟨low, high⟩ := does_fetches_word before before.ime before.imePending ram
  have puts : (do
      fetchHigh
      let word := (← latch).word
      changeRegs (·.setPair rr word)).Does
        ⟨{ before with pc := before.pc + 1 + 1 }, { low := ram.read (before.pc + 1) }⟩ ram ()
        ⟨{ before.setPair rr (ram.wordAt (before.pc + 1)) with pc := before.pc + 3 },
          popped {} ram (before.pc + 1)⟩ ram := by
    refine high.bind ?_
    cases rr with
    | pc => exact absurd rfl other
    | _ => exact ⟨_, _, rfl⟩
  exact ⟨_, _, does_run_continuing (does_idle _ _)
    (does_run_continuing low (does_run_retiring puts))⟩

/-- The stack pointer is stored at the word behind the opcode. -/
theorem leads_storeSp :
    storeSp.Leads { before with pc := before.pc + 1 } ram { before with pc := before.pc + 3 }
      (ram.putWord (ram.wordAt (before.pc + 1)) before.sp) := by
  obtain ⟨low, high⟩ := does_fetches_word before before.ime before.imePending ram
  let address := ram.wordAt (before.pc + 1)
  let fetched : Context :=
    ⟨{ before with pc := before.pc + 3 }, popped {} ram (before.pc + 1)⟩
  have first : (do writeByte (← latch).word (Word.low (← regs).sp)).Does fetched ram ()
      fetched (ram.write address (Word.low before.sp)) := ⟨_, _, rfl⟩
  have second : (do writeByte ((← latch).word + 1) (Word.high (← regs).sp)).Does fetched
      (ram.write address (Word.low before.sp)) () fetched (ram.putWord address before.sp) :=
    ⟨_, _, rfl⟩
  exact ⟨_, _, does_run_continuing (does_idle _ _) (does_run_continuing low
    (does_run_continuing high (does_run_continuing first (does_run_retiring second))))⟩

/-- The stack pointer takes the value of HL. -/
theorem leads_loadSpHl :
    loadSpHl.Leads { before with pc := before.pc + 1 } ram
      { before with sp := before.hl, pc := before.pc + 1 } ram :=
  ⟨_, _, does_run_continuing (does_idle _ _) (does_run_retiring ⟨_, _, rfl⟩)⟩

/-- The pair that a load of a word puts it into. -/
def loadedPair? : Instruction → Option RegisterPair
  | loadPair rr => some rr
  | _ => none

end Instruction

/-- A word is loaded into no pair that keeps less than a word, nor into the program counter. -/
theorem Decode.loadedPair?_plain :
    ∀ code : UInt8, ∀ rr ∈ (plain code).loadedPair?, rr ≠ .af ∧ rr ≠ .pc :=
  forall_byte (by decide +kernel)

namespace Processor

open Instruction

/-- Loads from end to end. A load puts into its register, or at the effective address of its target,
the byte that its source held; both are told from the registers before the instruction, so HL is
followed before it moves. HL moves by one where an operand says so, and otherwise changes only as
the target. No load has the byte behind the opcode as its target. A load of a word puts the word
behind the opcode into its pair, the stack pointer is stored as a word at the word behind the
opcode, and it takes the value of HL. The program counter moves past the instruction; no flag, no
other register, no latch and no other byte changes. -/
theorem loads_from_end_to_end (processor : Processor) (ram : Ram) (poised : processor.Poised) :
    let regs := processor.regs
    let instruction := instructionAt ram regs.pc
    let onward (after : RegisterFile) : RegisterFile :=
      { after with pc := regs.pc + UInt16.ofNat instruction.length }
    (∀ target source, instruction = .load target source → target ≠ .immediate) ∧
    (∀ r source, instruction = .load (.register r) source →
      processor.RunsTo ram (onward ((source.used regs).set r (source.held regs ram))) ram) ∧
    (∀ mode source, instruction = .load (.memory mode) source →
      processor.RunsTo ram (onward (mode.used regs))
        (ram.write (mode.effective regs ram) (source.held regs ram))) ∧
    (∀ rr, instruction = .loadPair rr →
      let word := ram.wordAt (regs.pc + 1)
      let loaded := regs.setPair rr word
      processor.RunsTo ram (onward loaded) ram ∧ loaded.getPair rr = word) ∧
    (instruction = .storeSp →
      let target := ram.wordAt (regs.pc + 1)
      let stored := ram.putWord target regs.sp
      processor.RunsTo ram (onward regs) stored ∧ stored.wordAt target = regs.sp ∧
        ∀ address, address ≠ target → address ≠ target + 1 →
          stored.read address = ram.read address) ∧
    (instruction = .loadSpHl →
      processor.RunsTo ram (onward { regs with sp := regs.hl }) ram) := by
  intro regs instruction onward
  have ordinary : instruction.isOrdinary = true :=
    OpcodeTable.isOrdinary_of_mem_entries (OpcodeTable.standard.lookup_mem_entries _)
  refine ⟨?target, ?register, ?memory, ?pair, ?storeSp, ?loadSpHl⟩
  case target =>
    rintro target source found rfl
    rw [found] at ordinary
    cases ordinary
  case register =>
    intro r source found
    have proper : source ≠ .memory (.pair .pc) := by
      rintro rfl
      rw [found] at ordinary
      cases ordinary
    simp only [onward, found]
    exact poised.runsTo found Instruction.noConfusion (leads_load_register proper)
  case memory =>
    intro mode source found
    rw [found] at ordinary
    simp only [onward, found]
    exact poised.runsTo found Instruction.noConfusion (leads_load_memory ordinary)
  case pair =>
    intro rr found word loaded
    obtain ⟨-, decoded⟩ := plain_of_instructionAt (congrArg isPrefixed found)
    obtain ⟨whole, other⟩ :=
      Decode.loadedPair?_plain _ rr (congrArg loadedPair? (decoded.symm.trans found))
    have holds : loaded.getPair rr = word := by
      rw [RegisterFile.getPair_setPair_self, if_neg whole]
    simp only [onward, found]
    exact ⟨poised.runsTo found Instruction.noConfusion (leads_loadPair other), holds⟩
  case storeSp =>
    intro found target stored
    simp only [onward, found]
    exact ⟨poised.runsTo found Instruction.noConfusion leads_storeSp,
      ram.wordAt_putWord target regs.sp,
      fun address low high => ram.read_putWord_of_ne regs.sp low high⟩
  case loadSpHl =>
    intro found
    simp only [onward, found]
    exact poised.runsTo found Instruction.noConfusion leads_loadSpHl

/-- A load of H through HL follows HL as it was, here to its own opcode. -/
theorem load_through_own_target :
    let ram := Ram.ofProgram 0x0100 [0x66]
    let processor : Processor := ⟨{ h := 0x01, pc := 0x0100 }, .idle⟩
    processor.Poised ∧
      instructionAt ram processor.regs.pc = .load (.register .h) (.memory (.pair .hl)) ∧
      processor.RunsTo ram { h := 0x66, pc := 0x0101 } ram := by
  intro ram processor
  have poised : processor.Poised := ⟨rfl, rfl, rfl⟩
  obtain ⟨found, held⟩ :
      instructionAt ram processor.regs.pc = .load (.register .h) (.memory (.pair .hl)) ∧
        (Operand.memory (.pair .hl)).held processor.regs ram = 0x66 := by decide +kernel
  obtain ⟨-, loads, -⟩ := loads_from_end_to_end processor ram poised
  have runs := loads .h (.memory (.pair .hl)) found
  have behind : processor.regs.pc + UInt16.ofNat
      (instructionAt ram processor.regs.pc).length = 0x0101 := by
    rw [found]
    decide
  simp only [held, behind] at runs
  exact ⟨poised, found, runs⟩

end Processor

end Sm83
