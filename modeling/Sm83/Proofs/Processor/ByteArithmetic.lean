import Sm83.Proofs.Arithmetic.Bytes
import Sm83.Proofs.Processor.Outcome
import Sm83.Proofs.Schedule.Places

/-!
# Byte arithmetic from end to end

What a processor comes to that runs an operation between the accumulator and a byte, or counts a
byte up or down, over any RAM: the result and the flags are those of integers, the byte may stand in
a register, in the memory or behind the opcode, and nothing else changes.
-/

namespace Sm83

open MachineCycle Schedule

/-! ## Counting -/

namespace Arithmetic

/-- A byte counted up or down. -/
def counted (byte : UInt8) (down : Bool) : Flagged UInt8 :=
  if down then decrement byte else increment byte

/-- Counting is by one, modulo 256. -/
theorem value_counted (byte : UInt8) (down : Bool) :
    ((counted byte down).value.toNat : Int) = (byte.toNat + if down then -1 else 1) % 256 := by
  cases down with
  | true =>
    have difference : ((decrement byte).value.toNat : Int) = ((byte.toNat : Int) - 1 - 0) % 256 :=
      (isDifference_subBorrow byte 1 false).value
    rwa [Int.sub_zero] at difference
  | false =>
    have sum : (increment byte).value.toNat = (byte.toNat + 1 + 0) % 256 :=
      (isSum_addCarry byte 1 false).value
    exact congrArg Int.ofNat sum

/-- Counting carries out of the lower half from its last value, and borrows into it from zero. -/
theorem halfCarry_counted (byte : UInt8) (down : Bool) :
    (counted byte down).halfCarry = (byte.toNat % 16 == if down then 0 else 15) := by
  have bound : byte.toNat % 16 < 16 := Nat.mod_lt _ (by decide)
  cases down with
  | true =>
    have borrows : byte.toNat % 16 < 1 + 0 ↔ byte.toNat % 16 = 0 := by omega
    exact decide_eq_decide.mpr borrows
  | false =>
    have carries : 16 ≤ byte.toNat % 16 + 1 + 0 ↔ byte.toNat % 16 = 15 := by omega
    exact decide_eq_decide.mpr carries

end Arithmetic

/-! ## What the cycles lead to -/

namespace Instruction

variable {before : RegisterFile} {pc : UInt16} {ram : Ram} {operand source : Operand}

/-- An operation on the accumulator combines it with what its operand held. -/
theorem leads_combine {op : ByteOp} (proper : source ≠ .memory (.pair .pc)) :
    (combine op source).Leads { before with pc := before.pc + 1 } ram
      { (source.used before).combine op (source.held before ram) with
        pc := before.pc + UInt16.ofNat (combine op source).length }
      ram := by
  let last := before.pc + UInt16.ofNat (combine op source).length
  let held := source.held before ram
  have got := @Operand.does_load before last ram source.size source proper (Nat.le_refl _)
  have changes : ∀ latch, (changeRegs (·.combine op held)).Does
      ⟨{ source.used before with pc := last }, latch⟩ ram ()
      ⟨{ (source.used before).combine op held with pc := last }, latch⟩ ram :=
    fun latch => ⟨_, _, rfl⟩
  exact ⟨_, _, does_run_closing_fetches source.size_le _ (got.bind (changes _))⟩

/-- The instruction that counts an operand up or down. -/
def counting (operand : Operand) (down : Bool) : Instruction :=
  if down then dec operand else inc operand

/-- Counting puts the next byte into its operand, and keeps the carry flag. -/
theorem leads_counting (named : operand.isNamed = true) (down : Bool) :
    let result := Arithmetic.counted (operand.held before ram) down
    (counting operand down).Leads { before with pc } ram
      { operand.putRegs result.value before with
        f := Flags.ofResult result.value down result.halfCarry before.f.c, pc }
      (operand.putRam result.value before ram) := by
  intro result
  have counts : ∀ latch, (count operand down (operand.held before ram)).Does
      ⟨{ before with pc }, latch⟩ ram ()
      ⟨{ operand.putRegs result.value before with
        f := Flags.ofResult result.value down result.halfCarry before.f.c, pc }, latch⟩
      (operand.putRam result.value before ram) := by
    intro latch
    have stores := @Operand.does_store_named operand before pc ram latch named result.value before.f
    exact stores.bind ⟨_, _, rfl⟩
  cases down with
  | true => exact does_run_updating named counts
  | false => exact does_run_updating named counts

end Instruction

namespace Processor

open Instruction

/-- Byte arithmetic from end to end. An operation takes its byte from a named place or from behind
the opcode; the accumulator, unless it is only compared, and the flags come to what the operation is
described by on integers. Counting puts the byte of a named place back increased or decreased by one
modulo 256, with the zero flag telling whether that is zero, the half carry whether the lower half
wrapped, and the carry flag kept. The program counter moves past the instruction; no other register,
no latch and no other byte changes. -/
theorem byte_arithmetic_from_end_to_end (processor : Processor) (ram : Ram)
    (poised : processor.Poised) :
    let regs := processor.regs
    let instruction := instructionAt ram regs.pc
    let onward (after : RegisterFile) : RegisterFile :=
      { after with pc := regs.pc + UInt16.ofNat instruction.length }
    (∀ op source, instruction = .combine op source →
      let byte := source.held regs ram
      let result := op.apply regs.a byte regs.f.c
      (source.isNamed = true ∨ source = .immediate) ∧
        op.Meets regs.a byte (op.carryIn regs.f.c) result.1 result.2 ∧
        processor.RunsTo ram
          (onward { regs with a := if op = .cp then regs.a else result.1, f := result.2 }) ram) ∧
    ∀ operand down, instruction = counting operand down →
      let byte := operand.held regs ram
      operand.isNamed = true ∧
        ∃ value after left,
          (value.toNat : Int) = (byte.toNat + if down then -1 else 1) % 256 ∧
          operand.PutsOnly value regs after ram left ∧
          processor.RunsTo ram
            (onward { after with
              f := ⟨value == 0, down, byte.toNat % 16 == if down then 0 else 15, regs.f.c⟩ })
            left := by
  intro regs instruction onward
  have listed := OpcodeTable.standard.lookup_mem_entries (encodingAt ram regs.pc)
  refine ⟨?combine, ?count⟩
  case combine =>
    intro op source found byte
    have regular : instruction.isRegular = true := OpcodeTable.isRegular_of_mem_entries listed
    have direct : source.isNamed = true ∨ source = .immediate := by
      rw [found] at regular
      simpa [isRegular] using regular
    obtain ⟨proper, kept⟩ := source.used_of_direct direct regs
    have leads := @leads_combine regs ram source op proper
    rw [kept] at leads
    have runs := poised.runsTo found Instruction.noConfusion leads
    rw [← found] at runs
    exact ⟨direct, op.meets_apply regs.a byte regs.f.c, runs⟩
  case count =>
    intro operand down found byte
    have ordinary : instruction.isOrdinary = true := OpcodeTable.isOrdinary_of_mem_entries listed
    have named : operand.isNamed = true := by
      rw [found] at ordinary
      cases down <;> exact ordinary
    let result := Arithmetic.counted byte down
    have leads := @leads_counting regs (regs.pc + 1) ram operand named down
    have runs : processor.RunsTo ram
        (onward { operand.putRegs result.value regs with
          f := Flags.ofResult result.value down result.halfCarry regs.f.c })
        (operand.putRam result.value regs ram) := by
      simp only [onward, found]
      cases down <;> exact poised.runsTo found Instruction.noConfusion leads
    rw [Arithmetic.halfCarry_counted] at runs
    exact ⟨named, result.value, _, _, Arithmetic.value_counted byte down,
      operand.putsOnly_put named result.value regs ram, runs⟩

/-- A subtraction that takes in a borrow it needs leaves one, here from behind the opcode. -/
theorem byte_arithmetic_of_borrow :
    let ram := Ram.ofProgram 0x0100 [0xDE, 0x10]
    let processor : Processor := ⟨{ a := 0x10, f := { c := true }, pc := 0x0100 }, .idle⟩
    processor.Poised ∧ instructionAt ram processor.regs.pc = .combine .sbc .immediate ∧
      processor.RunsTo ram
        { a := 0xFF, f := { n := true, h := true, c := true }, pc := 0x0102 } ram := by
  intro ram processor
  have poised : processor.Poised := ⟨rfl, rfl, rfl⟩
  obtain ⟨found, held⟩ :
      instructionAt ram processor.regs.pc = .combine .sbc .immediate ∧
        Operand.immediate.held processor.regs ram = 0x10 := by
    rw [instructionAt_eq_decode]
    decide +kernel
  obtain ⟨combines, -⟩ := byte_arithmetic_from_end_to_end processor ram poised
  obtain ⟨-, -, runs⟩ := combines .sbc .immediate found
  have result : ByteOp.sbc.apply processor.regs.a 0x10 processor.regs.f.c =
      (0xFF, { n := true, h := true, c := true }) := by decide
  have behind : processor.regs.pc + UInt16.ofNat
      (instructionAt ram processor.regs.pc).length = 0x0102 := by
    rw [found]
    decide
  simp only [held, result, behind] at runs
  exact ⟨poised, found, runs⟩

end Processor

end Sm83
