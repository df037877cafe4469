import Sm83.Proofs.Schedule.Operands

/-!
# Bytes changed in place

The operands that instructions test or change in place are a register or the byte that HL points at.
Such an operand holds the same byte however far the program counter has moved and whatever the
flags are by then, a byte that is put there is held there afterwards, and putting it changes nothing
else. So a schedule that gets such an operand, or changes it, is settled by what it does with the
byte.
-/

namespace Sm83

open MachineCycle Schedule

variable {operand : Operand} {before : RegisterFile} {pc : UInt16} {ram left : Ram}
  {byte : UInt8} {latch : Latch} {after : RegisterFile}

namespace Operand

/-- The registers after a byte was put into the operand. -/
def putRegs (operand : Operand) (byte : UInt8) (regs : RegisterFile) : RegisterFile :=
  match operand with
  | register r => regs.set r byte
  | immediate | memory _ => regs

/-- The RAM after a byte was put into the operand. -/
def putRam (operand : Operand) (byte : UInt8) (regs : RegisterFile) (ram : Ram) : Ram :=
  match operand with
  | memory mode => ram.write (mode.effective regs ram) byte
  | register _ | immediate => ram

/-! ## What is held -/

/-- The register file and the RAM behind are those before with the byte put into the operand, and
with nothing else changed. -/
structure PutsOnly (operand : Operand) (byte : UInt8) (regs after : RegisterFile)
    (ram left : Ram) : Prop where
  /-- The operand holds the byte. -/
  held : operand.held after left = byte
  /-- Every other register holds what it held. -/
  registers : ∀ r, operand ≠ .register r → after.get r = regs.get r
  flags : after.f = regs.f
  sp : after.sp = regs.sp
  pc : after.pc = regs.pc
  ime : after.ime = regs.ime
  imePending : after.imePending = regs.imePending
  halted : after.halted = regs.halted
  /-- Every byte of the memory is as it was, but the one that HL points at if it is the operand. -/
  bytes : ∀ address, (operand = .memory (.pair .hl) → address ≠ regs.hl) →
    left.read address = ram.read address

/-- A byte that is put into a named operand is held there, and nothing else changes. -/
theorem putsOnly_put (named : operand.isNamed = true) (byte : UInt8) (regs : RegisterFile)
    (ram : Ram) :
    operand.PutsOnly byte regs (operand.putRegs byte regs) ram (operand.putRam byte regs ram) := by
  rcases Instruction.eq_of_isNamed named with ⟨target, same⟩ | same
  · subst same
    have other : ∀ r, register target ≠ register r →
        (regs.set target byte).get r = regs.get r := by
      intro r different
      exact regs.get_set_of_ne byte fun same => different (congrArg register same)
    have held := regs.get_set_self target byte
    cases target <;> exact ⟨held, other, rfl, rfl, rfl, rfl, rfl, rfl, fun _ _ => rfl⟩
  · subst same
    have held := ram.read_write_self regs.hl byte
    have bytes : ∀ address, (memory (.pair .hl) = memory (.pair .hl) → address ≠ regs.hl) →
        (ram.write regs.hl byte).read address = ram.read address := by
      intro address elsewhere
      exact ram.read_write_of_ne byte (elsewhere rfl).symm
    exact ⟨held, fun _ _ => rfl, rfl, rfl, rfl, rfl, rfl, rfl, bytes⟩

/-- Using an operand that is named or stands behind the opcode moves no register, and the program
counter does not address it. -/
theorem used_of_direct (direct : operand.isNamed = true ∨ operand = .immediate)
    (regs : RegisterFile) : operand ≠ .memory (.pair .pc) ∧ operand.used regs = regs := by
  rcases direct with named | same
  · rcases Instruction.eq_of_isNamed named with ⟨r, same⟩ | same
    · subst same
      exact ⟨nofun, rfl⟩
    · subst same
      exact ⟨nofun, rfl⟩
  · subst same
    exact ⟨nofun, rfl⟩

/-! ## What cycles do -/

/-- A named operand is got as it was held, whatever has been fetched. -/
theorem does_load_named (named : operand.isNamed = true) :
    operand.load.Does ⟨{ before with pc }, latch⟩ ram (operand.held before ram)
      ⟨{ before with pc }, latch⟩ ram := by
  rcases Instruction.eq_of_isNamed named with ⟨r, same⟩ | same
  · subst same
    cases r <;> exact ⟨_, _, rfl⟩
  · subst same
    exact ⟨_, _, rfl⟩

/-- A byte is put into a named operand, whatever has been fetched and whatever the flags are. -/
theorem does_store_named (named : operand.isNamed = true) (byte : UInt8) (flags : Flags) :
    (operand.store byte).Does ⟨{ before with f := flags, pc }, latch⟩ ram ()
      ⟨{ operand.putRegs byte before with f := flags, pc }, latch⟩
      (operand.putRam byte before ram) := by
  rcases Instruction.eq_of_isNamed named with ⟨r, same⟩ | same
  · subst same
    cases r <;> exact ⟨_, _, rfl⟩
  · subst same
    exact ⟨_, _, rfl⟩

end Operand

namespace Schedule

variable {finish : UInt8 → MachineCycle Unit}

/-- A named operand that is remembered waits in the latch as it was held. -/
theorem does_keep (named : operand.isNamed = true) :
    (keep operand).Does ⟨{ before with pc }, latch⟩ ram ()
      ⟨{ before with pc }, { latch with value := operand.held before ram }⟩ ram :=
  (Operand.does_load_named named).bind ⟨_, _, rfl⟩

/-- A named operand is got as it was held, and waits in the latch if it is in memory. -/
theorem does_loadKeeping (named : operand.isNamed = true) :
    let held := operand.held before ram
    let kept := if operand.isMemory then { latch with value := held } else latch
    (loadKeeping operand).Does ⟨{ before with pc }, latch⟩ ram held
      ⟨{ before with pc }, kept⟩ ram := by
  intro held kept
  unfold loadKeeping
  by_cases inMemory : operand.isMemory = true
  · have remembered : kept = { latch with value := held } := if_pos inMemory
    rw [if_pos inMemory, remembered]
    exact (does_keep named).bind (does_latch_bind (does_pure _ _ _))
  · have untouched : kept = latch := if_neg inMemory
    rw [if_neg inMemory, untouched]
    exact Operand.does_load_named named

/-- An instruction that changes a named operand does with its byte what completes it. -/
theorem does_run_updating (named : operand.isNamed = true)
    (finishes : ∀ latch, (finish (operand.held before ram)).Does ⟨{ before with pc }, latch⟩ ram ()
      ⟨after, latch⟩ left) :
    ∃ count latch, (run (updating operand finish)).Does ⟨{ before with pc }, {}⟩ ram count
      ⟨after, latch⟩ left := by
  unfold updating
  by_cases inMemory : operand.isMemory = true
  · rw [if_pos inMemory]
    let kept : Latch := { value := operand.held before ram }
    have writes : (do finish (← MachineCycle.latch).value).Does ⟨{ before with pc }, kept⟩ ram ()
        ⟨after, kept⟩ left := does_latch_bind (finishes kept)
    exact ⟨_, _, does_run_continuing (does_idle _ _)
      (does_run_continuing (does_keep named) (does_run_retiring writes))⟩
  · rw [if_neg inMemory]
    exact ⟨_, _, does_run_retiring ((Operand.does_load_named named).bind (finishes {}))⟩

/-- An instruction that gets a named operand does with its byte what completes it. -/
theorem does_run_consuming (named : operand.isNamed = true)
    (finishes : ∀ latch, (finish (operand.held before ram)).Does ⟨{ before with pc }, latch⟩ ram ()
      ⟨after, latch⟩ left) :
    ∃ count latch, (run (consuming operand finish)).Does ⟨{ before with pc }, {}⟩ ram count
      ⟨after, latch⟩ left := by
  have got := @does_loadKeeping operand before pc ram {} named
  have parts := does_inTurn_idle (operand.accessCycles + 1) ⟨{ before with pc }, {}⟩ ram
  unfold consuming
  rw [run_closing _ (List.cons_ne_nil _ _)]
  exact ⟨_, _, parts.bind ((got.bind (finishes _)).bind (does_pure _ _ _))⟩

end Schedule

end Sm83
