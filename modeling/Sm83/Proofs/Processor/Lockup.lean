import Sm83.Proofs.Processor.History
import Sm83.Proofs.Processor.Transcript

/-!
# Lockup

The tick that fetches an undefined byte reads that byte and does nothing else but to lock the
processor up. A lock absorbs every command: it fails over the same byte and leaves everything alone,
but for a halt that resuming ends. Starting over is the way out, and nothing that comes behind it
shows that there was a lock.
-/

namespace Sm83.Processor

variable {μ : Type} [Memory μ] {processor : Processor} {memory : μ} {command : Command}
  {fault : Fault}

/-- A tick that fetches an undefined byte reads it, moves past it and locks the processor up. -/
theorem exec_tick_locking {ram : Ram} (idle : processor.phase = .idle)
    (fetching : processor.regs.halted = false)
    (undefined : ram.read processor.regs.pc ∈ Decode.undefinedCodes) :
    let fault := Fault.undefinedOpcode ⟨ram.read processor.regs.pc, false⟩
    let regs := processor.promote.skipByte.regs
    processor.tick.exec ram =
      ⟨⟨.error fault, ⟨regs, .locked fault⟩⟩, ram,
        [.read processor.regs.pc (ram.read processor.regs.pc)],
        [.dispatched processor.regs.pc .invalid, .locked fault regs]⟩ := by
  have isInvalid : Decode.plain (Memory.read ram processor.regs.pc).1 = .invalid :=
    (Decode.plain_eq_invalid_iff _).mpr (.inr undefined)
  rw [exec_tick_of_plain idle fetching (Decode.ne_prefixByte_of_undefined undefined),
    OpcodeTable.lookup_standard_plain, advance_of_invalid isInvalid, isInvalid]
  rfl

/-- The registers that fetching an undefined byte leaves. -/
theorem regs_locking (processor : Processor) :
    processor.promote.skipByte.regs =
      { processor.regs with
        pc := processor.regs.pc + 1
        ime := processor.regs.ime || processor.regs.imePending
        imePending := false } := by
  cases pending : processor.regs.imePending with
  | true => simp [promote, skipByte, withRegs, pending]
  | false => simp [promote, skipByte, withRegs, pending]

/-! ## Commands to a locked processor -/

/-- Whether the command resumes fetching. -/
def Command.resumes : Command → Bool
  | .call .resume => true
  | _ => false

/-- Whether the command starts over or puts another register file in place. -/
def Command.replaces : Command → Bool
  | .call (.reset _) | .call (.rewrite _) => true
  | _ => false

/-- What a locked processor answers to a command that neither starts over nor puts another register
file in place. -/
def Command.absorbed (command : Command) (fault : Fault) : Except Fault (Option Nat) :=
  if command.resumes then .ok none else .error fault

/-- The processor without a halt if fetching was resumed. -/
def unhalted (processor : Processor) (resumed : Bool) : Processor :=
  processor.withRegs fun regs => { regs with halted := regs.halted && !resumed }

/-- Fetching may be resumed more than once. -/
theorem unhalted_unhalted (processor : Processor) (first second : Bool) :
    (processor.unhalted first).unhalted second = processor.unhalted (first || second) := by
  simp [unhalted, withRegs, Bool.and_assoc]

/-- A locked processor fails every command with its fault and stays as it is, but for a halt that
resuming ends. -/
theorem exec_obey_of_locked (locked : processor.phase = .locked fault)
    (kept : command.replaces = false) (memory : μ) :
    let done := (processor.obey command).exec memory
    done.value = ⟨command.absorbed fault, processor.unhalted command.resumes⟩ ∧
      done.memory = memory ∧ done.accesses = [] := by
  have same : processor.unhalted false = processor := by simp [unhalted, withRegs]
  have tick : processor.tick = .done ⟨.error fault, processor⟩ := by
    rw [tick, locked]
    rfl
  cases command with
  | run =>
    have run : processor.runUntilIdle = .done ⟨.error fault, processor⟩ := by
      simp [runUntilIdle, tickLimit, runFor, tick]
    simp only [obey, run, Command.absorbed, Command.resumes, same]
    exact ⟨rfl, rfl, rfl⟩
  | call call =>
    cases call with
    | tick =>
      simp only [obey, tick, Command.absorbed, Command.resumes, same]
      exact ⟨rfl, rfl, rfl⟩
    | request interrupt =>
      simp only [obey, request, locked, Command.absorbed, Command.resumes, same]
      exact ⟨rfl, rfl, rfl⟩
    | resume =>
      obtain ⟨value, left, silent⟩ := processor.exec_resume memory
      have resumed : (processor.withRegs fun regs => { regs with halted := false }) =
          processor.unhalted true := by simp [unhalted]
      simp only [obey, after, Bus.exec_bind, value, resumed, left, silent]
      exact ⟨rfl, rfl, rfl⟩
    | reset | rewrite => cases kept

/-- A locked processor absorbs any number of commands that neither start over nor put another
register file in place. -/
theorem transcript_of_locked {commands : List Command} (locked : processor.phase = .locked fault)
    (kept : ∀ command ∈ commands, command.replaces = false) (memory : μ) :
    (∀ entry ∈ processor.transcript memory commands,
      entry.done.value.outcome = entry.command.absorbed fault ∧ entry.done.memory = memory ∧
        entry.done.accesses = []) ∧
    processor.left memory commands =
      (processor.unhalted (commands.any Command.resumes), memory) := by
  induction commands generalizing processor with
  | nil =>
    refine ⟨fun _ listed => absurd listed List.not_mem_nil, ?_⟩
    simp [left, unhalted, withRegs]
  | cons command rest ih =>
    have first := kept command List.mem_cons_self
    have others := fun other listed => kept other (List.mem_cons_of_mem command listed)
    obtain ⟨value, remains, silent⟩ := exec_obey_of_locked locked first memory
    have later := @ih (processor.unhalted command.resumes) locked others
    constructor
    · intro entry listed
      simp only [transcript, value, remains, List.mem_cons] at listed
      rcases listed with rfl | listed
      · exact ⟨by rw [value], remains, silent⟩
      · exact later.1 entry listed
    · simp only [left, value, remains, later.2, unhalted_unhalted, List.any_cons]

/-- Lockup is clean and absorbing. The tick that fetches an undefined byte reads that byte and no
other, moves the program counter past it, enables interrupts that were about to be, and fails over
the byte; it leaves all else as it was and the processor locked up. From then on, whatever is put
into the registers, every tick, every run and every request fails over that byte, no access is made,
and nothing changes but that resuming ends a halt. Starting over ends the lock, and all that follows
goes as it would have gone from the start over the same memory. -/
theorem lockup_absorbs (processor : Processor) (ram : Ram) (idle : processor.phase = .idle)
    (fetching : processor.regs.halted = false)
    (undefined : ram.read processor.regs.pc ∈ Decode.undefinedCodes) :
    let regs := processor.regs
    let code := ram.read regs.pc
    let fault := Fault.undefinedOpcode ⟨code, false⟩
    let ticked := processor.tick.exec ram
    (ticked.value.outcome = .error fault ∧ ticked.accesses = [.read regs.pc code] ∧
      ticked.memory = ram ∧ ticked.value.processor =
        ⟨{ regs with
          pc := regs.pc + 1
          ime := regs.ime || regs.imePending
          imePending := false }, .locked fault⟩) ∧
    ∀ (owned : RegisterFile) (commands : List Command),
      (∀ command ∈ commands, command.replaces = false) →
        let locked : Processor := ⟨owned, .locked fault⟩
        (∀ entry ∈ locked.transcript ram commands,
          entry.done.value.outcome =
              (if entry.command.resumes then .ok none else .error fault) ∧
            entry.done.accesses = [] ∧ entry.done.memory = ram) ∧
        locked.left ram commands =
          (⟨{ owned with halted := owned.halted && !commands.any Command.resumes },
            .locked fault⟩, ram) ∧
        ∀ (model : Model) (continuation : List Command),
          locked.transcript ram (commands ++ .call (.reset model) :: continuation) =
            locked.transcript ram commands ++
              ⟨.call (.reset model), ⟨⟨.ok none, afterBoot model⟩, ram, [], [.reset model]⟩⟩ ::
                (afterBoot model).transcript ram continuation := by
  intro regs code fault ticked
  have tick : ticked = _ := exec_tick_locking idle fetching undefined
  rw [tick, regs_locking]
  refine ⟨⟨rfl, rfl, rfl, rfl⟩, fun owned commands kept => ?_⟩
  have isLocked : Processor.phase ⟨owned, .locked fault⟩ = .locked fault := rfl
  obtain ⟨entries, ends⟩ := transcript_of_locked isLocked kept ram
  refine ⟨fun entry listed => ?_, ends, fun model continuation => ?_⟩
  · obtain ⟨outcome, remains, silent⟩ := entries entry listed
    exact ⟨outcome, silent, remains⟩
  · rw [transcript_append, ends]
    rfl

/-- An undefined byte behind an enabling of interrupts, at the last address, locks the processor up
for good, also if it is halted by hand, and starting over forgets the lock. -/
theorem lockup_at_last_address :
    let ram := Ram.ofProgram 0xFFFF [0xFC]
    let processor : Processor := ⟨{ pc := 0xFFFF, imePending := true }, .idle⟩
    let fault := Fault.undefinedOpcode ⟨0xFC, false⟩
    let locked : Processor := ⟨{ pc := 0x0000, ime := true, halted := true }, .locked fault⟩
    let commands : List Command := [.call .tick, .run, .call (.request .vblank), .call .resume]
    (processor.phase = .idle ∧ processor.regs.halted = false ∧
      ram.read processor.regs.pc ∈ Decode.undefinedCodes ∧
      ∀ command ∈ commands, command.replaces = false) ∧
    (processor.tick.exec ram).value.processor =
      ⟨{ pc := 0x0000, ime := true }, .locked fault⟩ ∧
    locked.left ram commands = (⟨{ pc := 0x0000, ime := true }, .locked fault⟩, ram) ∧
    locked.transcript ram (commands ++ [.call (.reset .mgb), .run]) =
      locked.transcript ram commands ++
        ⟨.call (.reset .mgb), ⟨⟨.ok none, afterBoot .mgb⟩, ram, [], [.reset .mgb]⟩⟩ ::
          (afterBoot .mgb).transcript ram [.run] := by
  intro ram processor fault locked commands
  have loaded : ram.read processor.regs.pc = 0xFC := Ram.read_write_self _ _ _
  have undefined : ram.read processor.regs.pc ∈ Decode.undefinedCodes := by
    rw [loaded]
    decide
  have kept : ∀ command ∈ commands, command.replaces = false := by simp [commands, Command.replaces]
  obtain ⟨⟨-, -, -, locks⟩, absorbs⟩ := lockup_absorbs processor ram rfl rfl undefined
  rw [loaded] at locks absorbs
  have next : processor.regs.pc + 1 = 0x0000 := by decide
  rw [next] at locks
  obtain ⟨-, ends, restarts⟩ := absorbs locked.regs commands kept
  exact ⟨⟨rfl, rfl, undefined, kept⟩, locks, ends, restarts .mgb [.run]⟩

end Sm83.Processor
