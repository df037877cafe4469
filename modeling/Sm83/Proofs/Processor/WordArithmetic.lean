import Sm83.Proofs.Arithmetic.Words
import Sm83.Proofs.Processor.Outcome
import Sm83.Proofs.Schedule.Operands

/-!
# Word arithmetic from end to end

What a processor comes to that adds to HL, moves the stack pointer by an offset, or counts a pair up
or down, over any RAM. The two instructions that move the stack pointer differ only in where they
put the result.
-/

namespace Sm83

open MachineCycle Schedule

namespace Instruction

variable {before : RegisterFile} {pc : UInt16} {ram : Ram} {rr : RegisterPair}

/-- Adding to HL keeps the zero flag. -/
theorem leads_addHl (other : rr ≠ .pc) :
    let sum := Arithmetic.addWords before.hl (before.getPair rr)
    (addHl rr).Leads { before with pc } ram
      { before.setPair .hl sum.value with
        f := ⟨before.f.z, false, sum.halfCarry, sum.carry⟩, pc }
      ram := by
  intro sum
  have adds : (changeRegs (·.addToHl rr)).Does ⟨{ before with pc }, {}⟩ ram ()
      ⟨{ before.setPair .hl sum.value with
        f := ⟨before.f.z, false, sum.halfCarry, sum.carry⟩, pc }, {}⟩ ram := by
    cases rr with
    | pc => exact absurd rfl other
    | _ => exact ⟨_, _, rfl⟩
  exact ⟨_, _, does_run_continuing (does_idle _ _) (does_run_retiring adds)⟩

/-- The instruction that counts a pair up or down. -/
def countingPair (rr : RegisterPair) (down : Bool) : Instruction :=
  if down then decPair rr else incPair rr

/-- Counting a pair changes nothing else. -/
theorem leads_countingPair (other : rr ≠ .pc) (down : Bool) :
    let next (regs : RegisterFile) : RegisterFile :=
      regs.setPair rr (if down then regs.getPair rr - 1 else regs.getPair rr + 1)
    (countingPair rr down).Leads { before with pc } ram { next before with pc } ram := by
  intro next
  have counts : (changeRegs next).Does ⟨{ before with pc }, {}⟩ ram ()
      ⟨{ next before with pc }, {}⟩ ram := by
    cases rr with
    | pc => exact absurd rfl other
    | _ => exact ⟨_, _, rfl⟩
  cases down with
  | true => exact ⟨_, _, does_run_continuing (does_idle _ _) (does_run_retiring counts)⟩
  | false => exact ⟨_, _, does_run_continuing (does_idle _ _) (does_run_retiring counts)⟩

/-! ## Offsets from the stack pointer -/

/-- The offset of an instruction is the byte behind its opcode. -/
theorem does_fetchOffset (before : RegisterFile) (ram : Ram) :
    fetchLow.Does ⟨{ before with pc := before.pc + 1 }, {}⟩ ram ()
      ⟨{ before with pc := before.pc + 2 }, { low := ram.read (before.pc + 1) }⟩ ram := by
  rw [← Word.add_one_add_one]
  exact ⟨_, _, rfl⟩

/-- The cycle that puts the moved stack pointer into a pair. -/
theorem does_putSpOffset (target : RegisterPair) (before : RegisterFile) (pc : UInt16) (ram : Ram)
    (offset : UInt8) (other : target ≠ .pc) (whole : target ≠ .af) :
    let moved := Arithmetic.addOffset before.sp offset
    (do
      let offset := (← latch).low
      changeRegs (·.putSpOffset target offset)).Does
        ⟨{ before with pc }, { low := offset }⟩ ram ()
        ⟨{ before.setPair target moved.value with
          f := ⟨false, false, moved.halfCarry, moved.carry⟩, pc }, { low := offset }⟩ ram := by
  intro moved
  cases target with
  | pc => exact absurd rfl other
  | af => exact absurd rfl whole
  | _ => exact ⟨_, _, rfl⟩

/-- The moved stack pointer is put into HL. -/
theorem leads_loadHlSpOffset :
    let moved := Arithmetic.addOffset before.sp (ram.read (before.pc + 1))
    loadHlSpOffset.Leads { before with pc := before.pc + 1 } ram
      { before.setPair .hl moved.value with
        f := ⟨false, false, moved.halfCarry, moved.carry⟩, pc := before.pc + 2 }
      ram := by
  intro moved
  have offset := does_fetchOffset before ram
  have puts := does_putSpOffset .hl before (before.pc + 2) ram (ram.read (before.pc + 1)) nofun
    nofun
  exact ⟨_, _, does_run_continuing (does_idle _ _)
    (does_run_continuing offset (does_run_retiring puts))⟩

/-- The stack pointer is moved. -/
theorem leads_addSpOffset :
    let moved := Arithmetic.addOffset before.sp (ram.read (before.pc + 1))
    addSpOffset.Leads { before with pc := before.pc + 1 } ram
      { before with
        sp := moved.value, f := ⟨false, false, moved.halfCarry, moved.carry⟩,
        pc := before.pc + 2 }
      ram := by
  intro moved
  have offset := does_fetchOffset before ram
  have puts := does_putSpOffset .sp before (before.pc + 2) ram (ram.read (before.pc + 1)) nofun
    nofun
  exact ⟨_, _, does_run_continuing (does_idle _ _) (does_run_continuing offset
    (does_run_continuing (does_idle _ _) (does_run_retiring puts)))⟩

end Instruction

namespace Processor

open Instruction

/-- Word arithmetic from end to end. A sum of words is made of sums of their bytes; it is the sum of
integers modulo 65536, and its carries leave bits 11 and 15. Moving a stack pointer by a signed
offset is an addition of words whose flags are the carries into bits 4 and 8. Adding to HL keeps the
zero flag. Both instructions that move the stack pointer move it by the byte behind the opcode and
set the same flags. Counting a pair up or down is modulo 65536 and changes no flag. The program
counter moves past the instruction, and nothing else changes. -/
theorem word_arithmetic_from_end_to_end (processor : Processor) (ram : Ram)
    (poised : processor.Poised) :
    let regs := processor.regs
    let instruction := instructionAt ram regs.pc
    let onward (after : RegisterFile) : RegisterFile :=
      { after with pc := regs.pc + UInt16.ofNat instruction.length }
    let moved := Arithmetic.addOffset regs.sp (ram.read (regs.pc + 1))
    (∀ left right,
      let low := Arithmetic.add (Word.low left) (Word.low right)
      let high := Arithmetic.addCarry (Word.high left) (Word.high right) low.carry
      let sum := Arithmetic.addWords left right
      sum = ⟨Word.ofBytes high.value low.value, high.halfCarry, high.carry⟩ ∧
        sum.value.toNat = 256 * high.value.toNat + low.value.toNat ∧
        sum.value.toNat = (left.toNat + right.toNat) % 65536 ∧
        (sum.halfCarry = true ↔ 4096 ≤ left.toNat % 4096 + right.toNat % 4096) ∧
        (sum.carry = true ↔ 65536 ≤ left.toNat + right.toNat)) ∧
    (∀ pointer offset,
      let signed := Word.ofOffset offset
      let result := Arithmetic.addOffset pointer offset
      let carries := (pointer ^^^ signed ^^^ result.value).toBitVec
      signed.toBitVec = offset.toBitVec.signExtend 16 ∧ result.value = pointer + signed ∧
        result.halfCarry = carries.getLsbD 4 ∧ result.carry = carries.getLsbD 8) ∧
    (∀ rr, instruction = .addHl rr →
      let sum := Arithmetic.addWords regs.hl (regs.getPair rr)
      let after := regs.setPair .hl sum.value
      rr ≠ .af ∧ rr ≠ .pc ∧ after.hl = sum.value ∧
        processor.RunsTo ram
          (onward { after with f := ⟨regs.f.z, false, sum.halfCarry, sum.carry⟩ }) ram) ∧
    (instruction = .addSpOffset →
      processor.RunsTo ram
        (onward { regs with
          sp := moved.value, f := ⟨false, false, moved.halfCarry, moved.carry⟩ })
        ram) ∧
    (instruction = .loadHlSpOffset →
      let after := regs.setPair .hl moved.value
      after.hl = moved.value ∧
        processor.RunsTo ram
          (onward { after with f := ⟨false, false, moved.halfCarry, moved.carry⟩ }) ram) ∧
    ∀ rr down, instruction = countingPair rr down →
      let word := if down then regs.getPair rr - 1 else regs.getPair rr + 1
      let after := regs.setPair rr word
      after.getPair rr = word ∧ processor.RunsTo ram (onward after) ram := by
  intro regs instruction onward moved
  have listed := OpcodeTable.standard.lookup_mem_entries (encodingAt ram regs.pc)
  have regular : instruction.isRegular = true := OpcodeTable.isRegular_of_mem_entries listed
  refine ⟨?sum, ?offset, ?addHl, ?addSpOffset, ?loadHlSpOffset, ?count⟩
  case sum =>
    intro left right low high sum
    have bytes : sum = ⟨Word.ofBytes high.value low.value, high.halfCarry, high.carry⟩ :=
      Arithmetic.addWords_eq left right
    have weight : sum.value.toNat = 256 * high.value.toNat + low.value.toNat := by
      rw [bytes]
      exact Word.toNat_ofBytes high.value low.value
    exact ⟨bytes, weight, UInt16.toNat_add left right, decide_eq_true_iff, decide_eq_true_iff⟩
  case offset =>
    intro pointer offset signed result carries
    exact ⟨Word.toBitVec_ofOffset offset, rfl, Arithmetic.carries_addOffset pointer offset⟩
  case addHl =>
    intro rr found sum after
    obtain ⟨whole, other⟩ : rr ≠ .af ∧ rr ≠ .pc := by
      rw [found] at regular
      simpa [isRegular] using regular
    have holds : after.hl = sum.value := regs.getPair_setPair_self .hl sum.value
    have runs := poised.runsTo found Instruction.noConfusion (leads_addHl other)
    simp only [onward, found]
    exact ⟨whole, other, holds, runs⟩
  case addSpOffset =>
    intro found
    simp only [onward, found]
    exact poised.runsTo found Instruction.noConfusion leads_addSpOffset
  case loadHlSpOffset =>
    intro found after
    have holds : after.hl = moved.value := regs.getPair_setPair_self .hl moved.value
    simp only [onward, found]
    exact ⟨holds, poised.runsTo found Instruction.noConfusion leads_loadHlSpOffset⟩
  case count =>
    intro rr down found word after
    obtain ⟨whole, other⟩ : rr ≠ .af ∧ rr ≠ .pc := by
      rw [found] at regular
      cases down <;> simpa [isRegular, countingPair] using regular
    have holds : after.getPair rr = word := by
      rw [RegisterFile.getPair_setPair_self, if_neg whole]
    have leads := @leads_countingPair regs (regs.pc + 1) ram rr other down
    simp only [onward, found]
    cases down with
    | true => exact ⟨holds, poised.runsTo found Instruction.noConfusion leads⟩
    | false => exact ⟨holds, poised.runsTo found Instruction.noConfusion leads⟩

/-- A stack pointer moved down by one has both carries, here with HL as the target. -/
theorem word_arithmetic_of_negative_offset :
    let ram := Ram.ofProgram 0x0100 [0xF8, 0xFF]
    let processor : Processor := ⟨{ sp := 0x0001, pc := 0x0100 }, .idle⟩
    processor.Poised ∧ instructionAt ram processor.regs.pc = .loadHlSpOffset ∧
      processor.RunsTo ram { f := { h := true, c := true }, sp := 0x0001, pc := 0x0102 } ram := by
  intro ram processor
  have poised : processor.Poised := ⟨rfl, rfl, rfl⟩
  obtain ⟨found, offset⟩ :
      instructionAt ram processor.regs.pc = .loadHlSpOffset ∧
        ram.read (processor.regs.pc + 1) = 0xFF := by
    rw [instructionAt_eq_decode]
    decide +kernel
  have moved : Arithmetic.addOffset processor.regs.sp 0xFF = ⟨0, true, true⟩ := by decide
  obtain ⟨-, -, -, -, loads, -⟩ := word_arithmetic_from_end_to_end processor ram poised
  obtain ⟨-, runs⟩ := loads found
  have behind : processor.regs.pc + UInt16.ofNat
      (instructionAt ram processor.regs.pc).length = 0x0102 := by
    rw [found]
    decide
  simp only [offset, moved, behind] at runs
  exact ⟨poised, found, runs⟩

end Processor

end Sm83
