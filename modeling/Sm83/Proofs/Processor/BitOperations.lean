import Sm83.Proofs.Arithmetic.Shifts
import Sm83.Proofs.Processor.Outcome
import Sm83.Proofs.Schedule.Places

/-!
# Bit operations from end to end

What a processor comes to that runs a shift, a test or a change of a bit, over any RAM. A register
and the byte that HL points at are treated alike, also where that byte belongs to the instruction.
The shifts of the accumulator alone are those of any register but for the zero flag.
-/

namespace Sm83

open MachineCycle Schedule

namespace Instruction

variable {before : RegisterFile} {pc : UInt16} {ram : Ram} {operand : Operand}

/-- A shift puts the shifted byte into its operand, and tells the flags of it. -/
theorem leads_shift (named : operand.isNamed = true) (kind : Shift) :
    let result := kind.apply (operand.held before ram) before.f.c
    (shift kind operand).Leads { before with pc } ram
      { operand.putRegs result.value before with
        f := Flags.ofResult result.value false false result.carry, pc }
      (operand.putRam result.value before ram) := by
  intro result
  have shifts : ∀ latch, (shiftByte kind operand (operand.held before ram)).Does
      ⟨{ before with pc }, latch⟩ ram ()
      ⟨{ operand.putRegs result.value before with
        f := Flags.ofResult result.value false false result.carry, pc }, latch⟩
      (operand.putRam result.value before ram) := by
    intro latch
    have stores := @Operand.does_store_named operand before pc ram latch named result.value
      (Flags.ofResult result.value false false result.carry)
    have flags : (changeRegs (·.flagShift result)).Does ⟨{ before with pc }, latch⟩ ram ()
        ⟨{ before with f := Flags.ofResult result.value false false result.carry, pc }, latch⟩
        ram := ⟨_, _, rfl⟩
    exact does_regs_bind (flags.bind stores)
  exact does_run_updating named shifts

/-- A test of a bit only tells the flags of it. -/
theorem leads_bit (named : operand.isNamed = true) (index : Fin 8) :
    (bit index operand).Leads { before with pc } ram
      { before with f := ⟨!bitOf (operand.held before ram) index, false, true, before.f.c⟩, pc }
      ram := by
  have tells : ∀ latch,
      (changeRegs (·.flagBit (operand.held before ram &&& bitMask index != 0))).Does
        ⟨{ before with pc }, latch⟩ ram ()
        ⟨{ before with f := ⟨!bitOf (operand.held before ram) index, false, true, before.f.c⟩, pc },
          latch⟩ ram := by
    intro latch
    rw [and_bitMask_ne_zero]
    exact ⟨_, _, rfl⟩
  exact does_run_consuming named tells

/-- The instruction that gives a bit of an operand a value. -/
def giving (index : Fin 8) (operand : Operand) (set : Bool) : Instruction :=
  if set then .set index operand else res index operand

/-- Giving a bit a value puts the byte with that bit into its operand. -/
theorem leads_giving (named : operand.isNamed = true) (index : Fin 8) (set : Bool) :
    let value := withBit (operand.held before ram) index set
    (giving index operand set).Leads { before with pc } ram
      { operand.putRegs value before with f := before.f, pc }
      (operand.putRam value before ram) := by
  intro value
  have stores := fun latch =>
    @Operand.does_store_named operand before pc ram latch named value before.f
  cases set with
  | true => exact does_run_updating named stores
  | false => exact does_run_updating named stores

/-- A shift of the accumulator alone. -/
theorem leads_rotateA (kind : Shift) :
    (rotateA kind).Leads { before with pc } ram { before.rotateAccumulator kind with pc } ram :=
  ⟨_, _, does_run_retiring ⟨_, _, rfl⟩⟩

end Instruction

namespace Processor

open Instruction

/-- Bit operations from end to end. Each takes the byte of a named place and is two bytes long. A
shift puts there what the shift is described by, with the bit that left as the carry flag and the
zero flag telling whether the result is zero. A test tells of its bit in the zero flag, keeps the
carry flag and writes nothing. Giving a bit a value changes no other bit and no flag. A shift of the
accumulator alone is one of the four rotations; it makes of the accumulator and the carry flag what
the shift of any place makes of a byte, with the zero flag always clear. Nothing else changes. -/
theorem bit_operations_from_end_to_end (processor : Processor) (ram : Ram)
    (poised : processor.Poised) :
    let regs := processor.regs
    let instruction := instructionAt ram regs.pc
    (∀ kind operand, instruction = .shift kind operand →
      let byte := operand.held regs ram
      let result := kind.apply byte regs.f.c
      operand.isNamed = true ∧ kind.Moves byte regs.f.c result ∧
        ∃ after left, operand.PutsOnly result.value regs after ram left ∧
          processor.RunsTo ram
            { after with f := ⟨result.value == 0, false, false, result.carry⟩, pc := regs.pc + 2 }
            left) ∧
    (∀ index operand, instruction = .bit index operand →
      let byte := operand.held regs ram
      operand.isNamed = true ∧
        processor.RunsTo ram
          { regs with f := ⟨!bitOf byte index, false, true, regs.f.c⟩, pc := regs.pc + 2 } ram) ∧
    (∀ index operand set, instruction = giving index operand set →
      let byte := operand.held regs ram
      operand.isNamed = true ∧
        ∃ value after left,
          (∀ position, bitOf value position =
            if position = index then set else bitOf byte position) ∧
          operand.PutsOnly value regs after ram left ∧
          processor.RunsTo ram { after with pc := regs.pc + 2 } left) ∧
    ∀ kind, instruction = .rotateA kind →
      let result := kind.apply regs.a regs.f.c
      kind ∈ [.rlc, .rrc, .rl, .rr] ∧ kind.Moves regs.a regs.f.c result ∧
        processor.RunsTo ram
          { regs with
            a := result.value, f := ⟨false, false, false, result.carry⟩, pc := regs.pc + 1 }
          ram := by
  intro regs instruction
  have listed := OpcodeTable.standard.lookup_mem_entries (encodingAt ram regs.pc)
  have ordinary : instruction.isOrdinary = true := OpcodeTable.isOrdinary_of_mem_entries listed
  refine ⟨?shift, ?bit, ?giving, ?rotateA⟩
  case shift =>
    intro kind operand found byte result
    have named : operand.isNamed = true := by
      rw [found] at ordinary
      exact ordinary
    exact ⟨named, kind.moves_apply byte regs.f.c, _, _,
      operand.putsOnly_put named result.value regs ram,
      poised.runsTo found Instruction.noConfusion (leads_shift named kind)⟩
  case bit =>
    intro index operand found byte
    have named : operand.isNamed = true := by
      rw [found] at ordinary
      exact ordinary
    exact ⟨named, poised.runsTo found Instruction.noConfusion (leads_bit named index)⟩
  case giving =>
    intro index operand set found byte
    have named : operand.isNamed = true := by
      rw [found] at ordinary
      cases set <;> exact ordinary
    let value := withBit byte index set
    have puts := operand.putsOnly_put named value regs ram
    have runs : processor.RunsTo ram
        { operand.putRegs value regs with f := regs.f, pc := regs.pc + 2 }
        (operand.putRam value regs ram) := by
      have leads := @leads_giving regs (regs.pc + 2) ram operand named index set
      cases set <;> exact poised.runsTo found Instruction.noConfusion leads
    rw [← puts.flags] at runs
    exact ⟨named, value, _, _, bitOf_withBit byte index set, puts, runs⟩
  case rotateA =>
    intro kind found result
    have regular : instruction.isRegular = true := OpcodeTable.isRegular_of_mem_entries listed
    have rotation : kind ∈ [.rlc, .rrc, .rl, .rr] := by
      rw [found] at regular
      exact of_decide_eq_true regular
    exact ⟨rotation, kind.moves_apply regs.a regs.f.c,
      poised.runsTo found Instruction.noConfusion (leads_rotateA kind)⟩

/-- A rotation through the carry, here of its own second byte. -/
theorem bit_operation_on_itself :
    let ram := Ram.ofProgram 0x0100 [0xCB, 0x16]
    let processor : Processor := ⟨{ f := { c := true }, h := 0x01, l := 0x01, pc := 0x0100 }, .idle⟩
    let place : Operand := .memory (.pair .hl)
    processor.Poised ∧ instructionAt ram processor.regs.pc = .shift .rl place ∧
      ∃ after left, place.PutsOnly 0x2D processor.regs after ram left ∧
        processor.RunsTo ram { after with f := {}, pc := 0x0102 } left := by
  intro ram processor place
  have poised : processor.Poised := ⟨rfl, rfl, rfl⟩
  obtain ⟨found, held⟩ :
      instructionAt ram processor.regs.pc = .shift .rl place ∧
        place.held processor.regs ram = 0x16 := by
    rw [instructionAt_eq_decode]
    decide +kernel
  have result : Shift.rl.apply 0x16 processor.regs.f.c = ⟨0x2D, false⟩ := by decide
  obtain ⟨shifts, -⟩ := bit_operations_from_end_to_end processor ram poised
  obtain ⟨-, -, after, left, puts, runs⟩ := shifts .rl place found
  rw [held, result] at puts runs
  exact ⟨poised, found, after, left, puts, runs⟩

end Processor

end Sm83
