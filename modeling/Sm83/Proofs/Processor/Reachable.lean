import Sm83.Proofs.Processor.Phase
import Sm83.Ram

/-!
# Reachable processors

A processor is reachable if calls bring it about from the state that the boot program leaves. The
calls may come in any order, each over a memory of its own, and between them the register file may
be rewritten at will. Every reachable processor is in a sound phase, so no call is ever refused
because the processor lost track of an instruction.
-/

namespace Sm83

namespace Processor

open Phase

variable {processor : Processor}

/-- How a tick can fail: the processor was locked up, or it fetches one of the undefined bytes. -/
def Locks (processor : Processor) (accesses : List Access) (fault : Fault) : Prop :=
  ∃ code ∈ Decode.undefinedCodes, fault = .undefinedOpcode ⟨code, false⟩ ∧
    (processor.phase = .locked fault ∨
      processor.phase = .idle ∧ processor.regs.halted = false ∧
        accesses = [.read processor.regs.pc code])

/-- What a tick from a sound phase leaves: a sound phase and, unless the processor locks up,
success. -/
def Ticks (processor : Processor) (answer : Answer Unit) (accesses : List Access) : Prop :=
  answer.processor.phase.Sound ∧
    ∀ fault, answer.outcome = .error fault →
      answer.processor.phase = .locked fault ∧ processor.Locks accesses fault

/-- A tick that does not fail has only to leave a sound phase. -/
theorem ticks_of_ok {answer : Answer Unit} {accesses : List Access}
    (succeeded : answer.outcome = .ok ()) (sound : answer.processor.phase.Sound) :
    processor.Ticks answer accesses := by
  refine ⟨sound, fun fault failed => ?_⟩
  rw [succeeded] at failed
  cases failed

/-- The first step of a listed opcode with a behaviour keeps the phase sound and does not fail. -/
theorem always_dispatch (address : UInt16) {encoding : Encoding}
    (defined : (OpcodeTable.standard.lookup encoding).instruction ≠ .invalid) :
    (processor.dispatch address encoding).Always fun answer _ _ =>
      answer.outcome = .ok () ∧ answer.processor.phase.Sound := by
  have listed := OpcodeTable.standard.lookup_mem_entries encoding
  have due := (OpcodeTable.standard.lookup encoding).due_first
  rw [dispatch_eq, Bus.always_report]
  exact always_advance_sound listed defined due

/-- The tick that fetches a first byte either starts a listed opcode or locks the processor up. -/
theorem always_fetchOpcode (idle : processor.phase = .idle)
    (fetching : processor.regs.halted = false) :
    processor.promote.fetchOpcode.Always fun answer accesses _ =>
      processor.Ticks answer accesses := by
  unfold fetchOpcode
  simp only [Bus.readByte, Bus.read_bind, Bus.done_bind, Bus.always_read]
  intro code
  by_cases isPrefix : code = prefixByte
  · rw [if_pos isPrefix]
    exact ticks_of_ok rfl trivial
  · rw [if_neg isPrefix]
    by_cases undefined : Decode.plain code = .invalid
    · have listed := ((Decode.plain_eq_invalid_iff code).mp undefined).resolve_left isPrefix
      rw [dispatch_eq, OpcodeTable.lookup_standard_plain, advance_of_invalid undefined]
      refine ⟨⟨code, listed, rfl⟩, ?_⟩
      intro fault failed
      obtain rfl : _ = fault := Except.error.inj failed
      exact ⟨rfl, code, listed, rfl, .inr ⟨idle, fetching, by simp⟩⟩
    · have defined : (OpcodeTable.standard.lookup ⟨code, false⟩).instruction ≠ .invalid := by
        rw [OpcodeTable.lookup_standard_plain]
        exact undefined
      apply (always_dispatch processor.promote.regs.pc defined).mono
      rintro answer accesses events ⟨succeeded, sound⟩
      exact ticks_of_ok succeeded sound

/-- The tick that fetches a byte behind the prefix starts a listed opcode. -/
theorem always_fetchPrefixed (processor : Processor) :
    processor.fetchPrefixed.Always fun answer accesses _ => processor.Ticks answer accesses := by
  unfold fetchPrefixed
  simp only [Bus.readByte, Bus.read_bind, Bus.done_bind, Bus.always_read]
  intro code
  have defined := OpcodeTable.lookup_prefixed_ne_invalid code
  apply (always_dispatch (processor.regs.pc - 1) defined).mono
  rintro answer accesses events ⟨succeeded, sound⟩
  exact ticks_of_ok succeeded sound

/-- A cycle of the dispatch of an interrupt goes on to the next one or completes the dispatch. -/
theorem always_dispatchCycle (processor : Processor) (interrupt : Interrupt) (cycle : Nat) :
    (processor.dispatchCycle interrupt cycle).Always fun answer _ _ =>
      answer.outcome = .ok () ∧ answer.processor.phase.Sound := by
  unfold dispatchCycle
  split <;> simp [Bus.writeByte, Sound]

/-- A tick from a sound phase leaves a sound phase, and fails only if the processor locks up. -/
theorem always_tick (sound : processor.phase.Sound) :
    processor.tick.Always fun answer accesses _ => processor.Ticks answer accesses := by
  unfold tick
  cases phase : processor.phase with
  | idle =>
    by_cases halted : processor.regs.halted = true
    · simp only [halted_promote, halted, if_true, Bus.pure_eq_done, Bus.always_done]
      exact ticks_of_ok rfl (by simp [phase, Sound])
    · simp only [halted_promote, halted, if_false, Bool.false_eq_true]
      exact always_fetchOpcode phase (by simpa using halted)
  | prefixed => exact always_fetchPrefixed processor
  | executing opcode cycle activation =>
    rw [phase] at sound
    have underway : Underway opcode cycle activation := sound
    apply (always_advance_sound underway.listed underway.defined underway.due).mono
    rintro answer accesses events ⟨succeeded, sound⟩
    exact ticks_of_ok succeeded sound
  | servicing interrupt cycle =>
    apply (processor.always_dispatchCycle interrupt (cycle + 1)).mono
    rintro answer accesses events ⟨succeeded, sound⟩
    exact ticks_of_ok succeeded sound
  | locked fault =>
    rw [phase] at sound
    have locked := sound
    obtain ⟨code, listed, rfl⟩ := locked
    refine ⟨by rw [phase]; exact sound, ?_⟩
    rintro fault failed
    obtain rfl : _ = fault := Except.error.inj failed
    exact ⟨phase, code, listed, rfl, .inl phase⟩

/-! ## Calls -/

/-- What may be done to a processor between two ticks, and the tick itself. -/
inductive Call where
  /-- Advance by one machine cycle. -/
  | tick
  /-- Ask for the dispatch of an interrupt. -/
  | request (interrupt : Interrupt)
  /-- Resume fetching. -/
  | resume
  /-- Start over. -/
  | reset (model : Model)
  /-- Put another register file in place. -/
  | rewrite (regs : RegisterFile)

/-- The processor after a call, whether the call succeeds or not. -/
def after (processor : Processor) : Call → Bus Processor
  | .tick => return (← processor.tick).processor
  | .request interrupt => return (← processor.request interrupt).processor
  | .resume => processor.resume
  | .reset model => processor.reset model
  | .rewrite regs => return { processor with regs := regs }

/-- Resuming to fetch ends a halt and does nothing else. -/
theorem exec_resume {μ : Type} [Memory μ] (processor : Processor) (memory : μ) :
    let done := processor.resume.exec memory
    (done.value = processor.withRegs fun regs => { regs with halted := false }) ∧
      done.memory = memory ∧ done.accesses = [] := by
  unfold resume
  split <;> exact ⟨rfl, rfl, rfl⟩

/-- A call keeps the phase sound. -/
theorem always_after (sound : processor.phase.Sound) (call : Call) :
    (processor.after call).Always fun left _ _ => left.phase.Sound := by
  cases call with
  | tick =>
    simp only [after, Bus.always_bind]
    exact (always_tick sound).mono fun answer accesses events ticked => ticked.1
  | request interrupt =>
    simp only [after, Bus.always_bind, request]
    cases phase : processor.phase <;> simp_all [Bus.log, Sound]
  | resume =>
    simp only [after, resume]
    split
    · exact sound
    · exact sound
  | reset model => trivial
  | rewrite regs => exact sound

/-- The processors that calls bring about. -/
inductive Reachable : Processor → Prop where
  /-- A processor that is about to run its first instruction. -/
  | boot (model : Model) : Reachable (afterBoot model)
  /-- A processor that was called over some memory. -/
  | call {μ : Type} [Memory μ] {processor : Processor} (reachable : Reachable processor)
    (call : Call) (memory : μ) : Reachable ((processor.after call).exec memory).value

/-- Every reachable processor is in a sound phase. -/
theorem Reachable.sound (reachable : Reachable processor) : processor.phase.Sound := by
  induction reachable with
  | boot model => trivial
  | call reachable call memory sound => exact (always_after sound call).exec memory

/-- A reachable processor never loses track of what it executes: its phase is sound, its next cycle
has a number that fits in a byte, and a tick over any memory fails only because the processor is
locked up or locks up over an undefined byte that it fetches. -/
theorem Reachable.keeps_track (reachable : Reachable processor) :
    processor.phase.Sound ∧ processor.phase.nextCycle < UInt8.size ∧
      ∀ {μ : Type} [Memory μ] (memory : μ) (fault : Fault),
        (processor.tick.exec memory).value.outcome = .error fault →
          fault.isMisuse = false ∧ processor.Locks (processor.tick.exec memory).accesses fault := by
  have sound := reachable.sound
  have small := sound.nextCycle_le
  refine ⟨sound, Nat.lt_of_le_of_lt small (by decide), ?_⟩
  intro μ _ memory fault failed
  have ticked := (always_tick sound).exec memory
  obtain ⟨-, locks⟩ := ticked.2 fault failed
  obtain ⟨code, -, rfl, -⟩ := id locks
  exact ⟨rfl, locks⟩

/-- A processor in the middle of a jump keeps track. -/
theorem keeps_track_of_jump :
    ∃ processor, Reachable processor ∧
      processor.phase = .executing ⟨⟨0xC3, false⟩, .jp none⟩ 1 ⟨1, false, {}⟩ ∧
      processor.phase.Sound ∧ processor.phase.nextCycle < UInt8.size := by
  have reachable := (Reachable.boot .dmgAbc).call .tick (Ram.ofProgram 0x0100 [0xC3, 0x00, 0x02])
  refine ⟨_, reachable, ?_, reachable.keeps_track.1, reachable.keeps_track.2.1⟩
  decide +kernel

end Processor

end Sm83
