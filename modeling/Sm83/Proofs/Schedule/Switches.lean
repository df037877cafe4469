import Sm83.Proofs.Schedule.Progress

/-!
# What instructions do to the switches

The three latches that decide whether the processor is interrupted and whether it fetches are the
switches of a register file. No cycle of an instruction touches them but the one that completes it,
and that one only for the five instructions that are there to do so.
-/

namespace Sm83

/-- The latches that decide whether the processor is interrupted and whether it fetches. -/
structure Switches where
  /-- Interrupts are enabled. -/
  ime : Bool
  /-- Interrupts will be enabled when the next instruction starts. -/
  imePending : Bool
  /-- Instruction fetch is suspended. -/
  halted : Bool
deriving DecidableEq, Repr

/-- The switches of a register file. -/
def RegisterFile.switches (regs : RegisterFile) : Switches :=
  ⟨regs.ime, regs.imePending, regs.halted⟩

namespace RegisterFile

variable {regs : RegisterFile}

/-- The first of the switches. -/
@[simp] theorem ime_switches : regs.switches.ime = regs.ime := rfl

/-- The second of the switches. -/
@[simp] theorem imePending_switches : regs.switches.imePending = regs.imePending := rfl

/-- The third of the switches. -/
@[simp] theorem halted_switches : regs.switches.halted = regs.halted := rfl

/-- The latches of a register file are its switches. -/
@[simp] theorem switches_eta : Switches.mk regs.ime regs.imePending regs.halted = regs.switches :=
  rfl

/-- The switches of a register file are its latches, whatever else it holds. -/
@[simp] theorem switches_mk {a b c d e h l : UInt8} {f : Flags} {sp pc : UInt16}
    {ime imePending halted : Bool} :
    (RegisterFile.mk a f b c d e h l sp pc ime imePending halted).switches =
      ⟨ime, imePending, halted⟩ := rfl

/-- Putting a byte into a register keeps the switches. -/
@[simp] theorem switches_set {register : Register} {byte : UInt8} :
    (regs.set register byte).switches = regs.switches := by
  cases register <;> rfl

/-- Putting a word into a pair keeps the switches. -/
@[simp] theorem switches_setPair {pair : RegisterPair} {word : UInt16} :
    (regs.setPair pair word).switches = regs.switches := by
  cases pair <;> rfl

/-- Correcting the accumulator keeps the switches. -/
@[simp] theorem switches_decimalAdjust : regs.decimalAdjust.switches = regs.switches := rfl

/-- Complementing the accumulator keeps the switches. -/
@[simp] theorem switches_complement : regs.complement.switches = regs.switches := rfl

/-- Changing the carry flag keeps the switches. -/
@[simp] theorem switches_putCarry {carry : Bool} :
    (regs.putCarry carry).switches = regs.switches := rfl

/-- Shifting the accumulator keeps the switches. -/
@[simp] theorem switches_rotateAccumulator {kind : Shift} :
    (regs.rotateAccumulator kind).switches = regs.switches := rfl

/-- Adding to HL keeps the switches. -/
@[simp] theorem switches_addToHl {pair : RegisterPair} :
    (regs.addToHl pair).switches = regs.switches := rfl

/-- Moving the stack pointer by an offset keeps the switches. -/
@[simp] theorem switches_putSpOffset {pair : RegisterPair} {offset : UInt8} :
    (regs.putSpOffset pair offset).switches = regs.switches := by
  cases pair <;> rfl

end RegisterFile

/-- What an instruction that completes has done to the switches. -/
def Instruction.switch (instruction : Instruction) (before : Switches) : Switches :=
  match instruction with
  | ei => if before.ime then before else { before with imePending := true }
  | di => { before with ime := false, imePending := false }
  | reti => { before with ime := true, imePending := false }
  | halt | stop => { before with halted := true }
  | _ => before

namespace Schedule

open MachineCycle

variable {α β : Type}

/-- The work does not fail and changes the switches in this way. -/
def Switching (change : Switches → Switches) (work : MachineCycle α) : Prop :=
  ∀ context, work.Succeeds context fun _ after _ _ =>
    after.regs.switches = change context.regs.switches

/-- The work does not fail and keeps the switches. -/
abbrev Unswitched (work : MachineCycle α) : Prop := Switching id work

/-- The cycle does not fail. If it completes the instruction it has changed the switches in this
way, and otherwise it has kept them. -/
def Completes (change : Switches → Switches) (cycle : MachineCycle Progress) : Prop :=
  ∀ context, cycle.Succeeds context fun progress after _ _ =>
    after.regs.switches =
      match progress with
      | .running => context.regs.switches
      | .retired => change context.regs.switches

/-! ## Work that keeps the switches -/

/-- Work that keeps the switches may come in front of any other. -/
theorem Unswitched.bind {change : Switches → Switches} {first : MachineCycle α}
    {next : α → MachineCycle β} (before : Unswitched first)
    (after : ∀ value, Switching change (next value)) : Switching change (first >>= next) := by
  intro context
  rw [succeeds_bind]
  apply (before context).mono
  intro value between _ _ kept
  have same : between.regs.switches = context.regs.switches := kept
  rw [← same]
  exact after value between

/-- A cycle without work keeps the switches. -/
@[simp] theorem unswitched_idle : Unswitched idle := by simp [Switching, idle]

/-- Looking at the registers keeps the switches. -/
theorem unswitched_regs : Unswitched regs := by simp [Switching]

/-- Looking at the latch keeps the switches. -/
theorem unswitched_latch : Unswitched latch := by simp [Switching]

/-- Changing the latch keeps the switches. -/
theorem unswitched_changeLatch (change : Latch → Latch) : Unswitched (changeLatch change) := by
  simp [Switching]

/-- A change of the registers changes the switches as it says. -/
theorem switching_changeRegs {change : RegisterFile → RegisterFile} {switch : Switches → Switches}
    (switches : ∀ regs, (change regs).switches = switch regs.switches) :
    Switching switch (changeRegs change) := by
  intro context
  simpa using switches context.regs

/-- Reading an operand keeps the switches. -/
theorem unswitched_load (operand : Operand) : Unswitched operand.load := by
  rcases operand with _ | _ | _ | _ | _ | _ <;>
    simp [Switching, Operand.load, AddressMode.address]

/-- Remembering the byte of an operand keeps the switches. -/
theorem unswitched_keep (operand : Operand) : Unswitched (keep operand) :=
  (unswitched_load operand).bind fun _ => unswitched_changeLatch _

/-- Reading an operand and remembering its byte keeps the switches. -/
theorem unswitched_loadKeeping (operand : Operand) : Unswitched (loadKeeping operand) := by
  unfold loadKeeping
  split
  · exact (unswitched_keep operand).bind fun _ => unswitched_latch.bind fun held => by
      simp [Switching]
  · exact unswitched_load operand

/-- Writing an operand keeps the switches, if it can be written. -/
theorem unswitched_store {operand : Operand} (place : operand ≠ .immediate) (byte : UInt8) :
    Unswitched (operand.store byte) := by
  rcases operand with _ | _ | _ | _ | _ | _ <;>
    simp_all [Switching, Operand.store, AddressMode.address]

/-- The parts that come before the last access of an instruction keep the switches. -/
theorem unswitched_of_mem_parts {bytes accesses : Nat} {work : MachineCycle Unit}
    (listed : work ∈ idle :: fetches bytes ++ List.replicate accesses idle) : Unswitched work := by
  have first : Unswitched fetchLow := by simp [Switching]
  have further : Unswitched fetchHigh := by simp [Switching]
  exact of_mem_parts unswitched_idle first further listed

/-! ## Cycles -/

/-- A cycle that others follow keeps the switches. -/
theorem completes_continuing {change : Switches → Switches} {work : MachineCycle Unit}
    (kept : Unswitched work) : Completes change (continuing work) := by
  intro context
  simp only [continuing, succeeds_bind, succeeds_pure]
  exact kept context

/-- A retiring cycle changes the switches as its work does. -/
theorem completes_retiring {change : Switches → Switches} {work : MachineCycle Unit}
    (switches : Switching change work) : Completes change (retiring work) := by
  intro context
  simp only [retiring, succeeds_bind, succeeds_pure]
  exact switches context

variable {change : Switches → Switches} {cycle : MachineCycle Progress} {number : Nat}

/-- The cycles of a closing schedule keep the switches but for what finishes them. -/
theorem completes_closing {finish : MachineCycle Unit} {parts : List (MachineCycle Unit)}
    (kept : ∀ work ∈ parts, Unswitched work)
    (listed : (cycle, number) ∈ (closing finish parts).zipIdx 1)
    (switches : number = parts.length → Switching change finish) : Completes change cycle := by
  obtain ⟨work, part, rfl⟩ := exists_part_of_mem_closing listed
  have kept := kept work (List.mem_of_getElem? part)
  by_cases last : number = parts.length
  · rw [if_pos last]
    exact completes_retiring (kept.bind fun _ => switches last)
  · rw [if_neg last]
    exact completes_continuing kept

/-- The cycles of an updating schedule keep the switches but for what finishes them. -/
theorem completes_updating {operand : Operand} {finish : UInt8 → MachineCycle Unit}
    (listed : (cycle, number) ∈ (updating operand finish).zipIdx 1)
    (switches : number = (updating operand finish).length →
      ∀ byte, Switching change (finish byte)) : Completes change cycle := by
  have load := unswitched_load operand
  have length := length_updating operand finish
  cases updates_of_mem listed with
  | start memory => exact completes_continuing unswitched_idle
  | read memory => exact completes_continuing (unswitched_keep operand)
  | write memory =>
    have switches := switches (by rw [length, if_pos memory])
    exact completes_retiring (unswitched_latch.bind fun held => switches held.value)
  | only elsewhere =>
    have switches := switches (by simp [length, elsewhere])
    exact completes_retiring (load.bind switches)

end Schedule

namespace Instruction

open MachineCycle Schedule

/-- Disabling interrupts takes back their enabling, too. -/
theorem switching_disableInterrupts : Switching di.switch disableInterrupts := by
  intro context
  simp only [disableInterrupts, succeeds_bind, succeeds_regs]
  split <;> simp [switch]

/-- Enabling interrupts waits for the next instruction, unless they are enabled. -/
theorem switching_requestInterrupts : Switching ei.switch requestInterrupts := by
  intro context
  simp only [requestInterrupts, succeeds_bind, succeeds_regs]
  cases enabled : context.regs.ime <;> simp [enabled, switch]

/-- A cycle of an instruction keeps the switches unless it completes the instruction, and then it
has done to them what the instruction does. The last cycle of an instruction that stores to the byte
after the opcode fails. -/
theorem completes_cycles (instruction : Instruction) :
    ∀ entry ∈ instruction.cycles.zipIdx 1,
      (entry.2 = instruction.cycles.length → instruction.storesImmediate = false) →
        Completes instruction.switch entry.1 := by
  cases instruction with
  | invalid => simp [cycles]
  | load target source =>
    rintro ⟨cycle, number⟩ listed stored
    refine completes_closing (fun _ => unswitched_of_mem_parts) listed fun last => ?_
    have stored := stored (by simpa [cycles] using last)
    have place := @ne_immediate_of_storesImmediate (load · source) target stored rfl
    exact (unswitched_load source).bind (unswitched_store place)
  | combine op source =>
    rintro ⟨cycle, number⟩ listed -
    exact completes_closing (fun _ => unswitched_of_mem_parts) listed fun _ =>
      (unswitched_load source).bind fun byte => switching_changeRegs fun regs => rfl
  | bit index operand =>
    rintro ⟨cycle, number⟩ listed -
    have parts := fun work => @unswitched_of_mem_parts 0 operand.accessCycles work
    exact completes_closing parts listed fun _ =>
      (unswitched_loadKeeping operand).bind fun byte => switching_changeRegs fun regs => rfl
  | inc operand | dec operand =>
    rintro ⟨cycle, number⟩ listed stored
    refine completes_updating listed fun last byte => ?_
    have place : operand ≠ .immediate := ne_immediate_of_storesImmediate (stored last) rfl
    exact (unswitched_store place _).bind fun _ => switching_changeRegs fun regs => rfl
  | shift kind operand =>
    rintro ⟨cycle, number⟩ listed stored
    refine completes_updating listed fun last byte => ?_
    have place : operand ≠ .immediate := ne_immediate_of_storesImmediate (stored last) rfl
    exact unswitched_regs.bind fun _ =>
      Unswitched.bind (switching_changeRegs fun regs => rfl) fun _ => unswitched_store place _
  | res index operand | set index operand =>
    rintro ⟨cycle, number⟩ listed stored
    refine completes_updating listed fun last byte => ?_
    have place : operand ≠ .immediate := ne_immediate_of_storesImmediate (stored last) rfl
    exact unswitched_store place _
  | di => simpa [cycles] using fun _ => completes_retiring switching_disableInterrupts
  | ei => simpa [cycles] using fun _ => completes_retiring switching_requestInterrupts
  | jp condition | jr condition | call condition | ret condition =>
    have either (progress : Progress) (switches : Switches) :
        (match progress with | .running => switches | .retired => switches) = switches := by
      cases progress <;> rfl
    cases condition <;>
      simp [cycles, pushing, Completes, continuing, retiring, deciding, idle, jumpLatched,
        jumpRelative, switch, storesImmediate, either]
  | _ =>
    simp [cycles, pushing, Completes, continuing, retiring, idle, jumpLatched,
      returnFromInterrupt, waitForInterrupt, powerDown, suspend, switch, storesImmediate]

end Instruction

end Sm83
