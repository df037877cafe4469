import Sm83.Proofs.Processor.Duration
import Sm83.Proofs.Stack.Refinement

/-!
# Service that leaves no trace

The dispatch of an interrupt and the return from it are two machines of their own that undo one
another: the dispatch pushes the program counter and moves to the handler, the return pops it again.
A handler that does nothing but return leaves the program where it was, with every register and
every latch but the switches as before, and the memory as before but for the two bytes below the
stack pointer.
-/

namespace Sm83.Processor

open MachineCycle Schedule

variable {processor : Processor} {ram : Ram}

/-- The processor between the request for an interrupt and the first cycle of its dispatch. -/
def accepted (processor : Processor) (interrupt : Interrupt) : Processor :=
  ⟨{ processor.regs with ime := false, imePending := false, halted := false },
    .servicing interrupt 0⟩

/-- The processor at the handler of an interrupt whose dispatch is complete. -/
def atHandler (processor : Processor) (interrupt : Interrupt) : Processor :=
  ⟨{ processor.regs with
    sp := processor.regs.sp - 2
    pc := interrupt.handler
    ime := false
    imePending := false
    halted := false }, .idle⟩

/-- Between instructions a request is accepted, without an access. -/
theorem exec_request (idle : processor.phase = .idle) (interrupt : Interrupt) (ram : Ram) :
    (processor.request interrupt).exec ram =
      ⟨⟨.ok (), processor.accepted interrupt⟩, ram, [],
        [.servicing interrupt processor.regs.pc]⟩ := by
  unfold request
  rw [idle]
  rfl

/-- The five ticks of a dispatch push the program counter and move to the handler. -/
theorem exec_ticks_accepted (idle : processor.phase = .idle) (interrupt : Interrupt) (ram : Ram) :
    let served := ((processor.accepted interrupt).ticks 5).exec ram
    served.value = ⟨.ok (), processor.atHandler interrupt⟩ ∧
      served.memory = ram.pushWord processor.regs.sp processor.regs.pc := by
  have takes : (processor.accepted interrupt).Takes ram 5 := takes_servicing (Nat.zero_le 4) rfl
  obtain ⟨value, memory⟩ := takes.exec_ticks (by decide)
  have whole := processor.exec_serve idle interrupt ram
  unfold serve at whole
  rw [Bus.exec_bind, exec_request idle] at whole
  intro served
  rw [value, memory]
  exact ⟨congrArg _ whole.1, whole.2⟩

/-- The processor behind a return from an interrupt to a given address. -/
def returned (processor : Processor) (target : UInt16) : Processor :=
  ⟨{ processor.regs with
    sp := processor.regs.sp + 2
    pc := target
    ime := true
    imePending := false }, .idle⟩

/-- A return from an interrupt takes four ticks, and continues where the word on top of the stack
says. -/
theorem exec_ticks_of_reti (idle : processor.phase = .idle)
    (fetching : processor.regs.halted = false) (returning : ram.read processor.regs.pc = 0xD9) :
    let back := (processor.ticks 4).exec ram
    processor.Takes ram 4 ∧
      back.value = ⟨.ok (), processor.returned (ram.wordAt processor.regs.sp)⟩ ∧
      back.memory = ram := by
  have fetched : (Memory.read ram processor.regs.pc).1 = 0xD9 := returning
  have found : instructionAt ram processor.regs.pc = .reti := by
    unfold instructionAt encodingAt
    rw [fetched, if_neg (by decide), OpcodeTable.lookup_standard_plain]
    rfl
  have takes : processor.Takes ram 4 := by
    have takes := takes_idle idle fetching (by rw [fetched]; decide)
    rwa [found] at takes
  obtain ⟨ime, imePending, started⟩ := @exists_started .reti processor rfl
  have leads : Instruction.reti.Leads (processor.started .reti) ram
      (processor.returned (ram.wordAt processor.regs.sp)).regs ram := by
    rw [started]
    exact Instruction.leads_reti
  obtain ⟨count, whole⟩ := runsTo_of_leads idle fetching found Instruction.noConfusion leads
  obtain ⟨value, remains⟩ := takes.exec_ticks (by decide)
  intro back
  rw [value, remains, whole.1, whole.2]
  exact ⟨takes, rfl, rfl⟩

/-- Returning from the handler of an interrupt undoes its dispatch but for the switches. -/
theorem returned_atHandler (processor : Processor) (interrupt : Interrupt) :
    (processor.atHandler interrupt).returned processor.regs.pc =
      ⟨{ processor.regs with ime := true, imePending := false, halted := false }, .idle⟩ := by
  have pointer : processor.regs.sp - 2 + 2 = processor.regs.sp := UInt16.sub_add_cancel _ _
  simp [returned, atHandler, pointer]

/-- Interrupts are served without a trace. Between instructions a request is always accepted, and
the next five ticks, and no fewer, leave the processor idle at the handler with the address of the
program on the stack and the switches cleared, and every other register and byte as it was. Where
the handler holds a return that the push has not overwritten, four more ticks leave the registers as
they were before the request, but for the switches, and the memory but for the two bytes of the
stack. -/
theorem service_restores (processor : Processor) (interrupt : Interrupt) (ram : Ram)
    (idle : processor.phase = .idle) :
    let regs := processor.regs
    let asked := (processor.request interrupt).exec ram
    let served := (asked.value.processor.ticks 5).exec asked.memory
    let back := (served.value.processor.ticks 4).exec served.memory
    (asked.value.outcome = .ok () ∧ asked.accesses = [] ∧ asked.memory = ram) ∧
    (∀ made < 5,
      let early := (asked.value.processor.ticks made).exec asked.memory
      early.value.outcome = .ok () ∧ early.value.processor.isIdle = false) ∧
    served.value = ⟨.ok (), ⟨{ regs with
      sp := regs.sp - 2
      pc := interrupt.handler
      ime := false
      imePending := false
      halted := false }, .idle⟩⟩ ∧
    served.memory.read (regs.sp - 1) = Word.high regs.pc ∧
    served.memory.read (regs.sp - 2) = Word.low regs.pc ∧
    (∀ address, address ≠ regs.sp - 1 → address ≠ regs.sp - 2 →
      served.memory.read address = ram.read address) ∧
    (interrupt.handler ≠ regs.sp - 1 → interrupt.handler ≠ regs.sp - 2 →
      ram.read interrupt.handler = 0xD9 →
        (∀ made, 1 ≤ made → made < 4 →
          let early := (served.value.processor.ticks made).exec served.memory
          early.value.outcome = .ok () ∧ early.value.processor.isIdle = false) ∧
        back.value =
          ⟨.ok (), ⟨{ regs with ime := true, imePending := false, halted := false }, .idle⟩⟩ ∧
        ∀ address, address ≠ regs.sp - 1 → address ≠ regs.sp - 2 →
          back.memory.read address = ram.read address) := by
  intro regs asked served back
  have accepted : asked = _ := exec_request idle interrupt ram
  have takes : (processor.accepted interrupt).Takes ram 5 := takes_servicing (Nat.zero_le 4) rfl
  obtain ⟨atHandler, pushed⟩ := exec_ticks_accepted idle interrupt ram
  simp only [back, served, accepted]
  refine ⟨⟨trivial, trivial, trivial⟩, ?_, atHandler, ?_, ?_, ?_, ?_⟩
  · intro made early
    obtain ⟨succeeded, busy, -⟩ := takes.split (by decide) early
    refine ⟨succeeded, ?_⟩
    cases made with
    | zero => rfl
    | succ made => exact busy (Nat.succ_pos made)
  · rw [pushed]
    exact ram.read_pushWord_high regs.sp regs.pc
  · rw [pushed]
    exact ram.read_pushWord_low regs.sp regs.pc
  · rw [pushed]
    exact fun address high low => ram.read_pushWord_of_ne regs.pc high low
  · intro high low returning
    rw [atHandler, pushed]
    have kept : (ram.pushWord regs.sp regs.pc).read interrupt.handler = 0xD9 :=
      (ram.read_pushWord_of_ne regs.pc high low).trans returning
    obtain ⟨takes, value, memory⟩ :=
      @exec_ticks_of_reti (processor.atHandler interrupt) _ rfl rfl kept
    have popped : (ram.pushWord regs.sp regs.pc).wordAt (regs.sp - 2) = regs.pc :=
      ram.wordAt_pushWord regs.sp regs.pc
    refine ⟨?_, ?_, ?_⟩
    · intro made started early
      obtain ⟨succeeded, busy, -⟩ := takes.split (by decide) early
      exact ⟨succeeded, busy started⟩
    · rw [value, ← returned_atHandler processor interrupt]
      exact congrArg (fun target => (⟨.ok (), Processor.returned _ target⟩ : Answer Unit)) popped
    · rw [memory]
      exact fun address high low => ram.read_pushWord_of_ne regs.pc high low

/-- A halted processor whose stack wraps around serves the timer and is back where it was. -/
theorem service_of_wrapping_stack :
    let ram := Ram.ofProgram 0x0050 [0xD9]
    let processor : Processor :=
      ⟨{ a := 0x42, sp := 0x0001, pc := 0x1234, imePending := true, halted := true }, .idle⟩
    let asked := (processor.request .timer).exec ram
    let served := (asked.value.processor.ticks 5).exec asked.memory
    (processor.phase = .idle ∧ Interrupt.timer.handler ≠ processor.regs.sp - 1 ∧
      Interrupt.timer.handler ≠ processor.regs.sp - 2 ∧ ram.read Interrupt.timer.handler = 0xD9) ∧
      served.memory.read 0x0000 = 0x12 ∧ served.memory.read 0xFFFF = 0x34 ∧
      ((served.value.processor.ticks 4).exec served.memory).value =
        ⟨.ok (), ⟨{ a := 0x42, sp := 0x0001, pc := 0x1234, ime := true }, .idle⟩⟩ := by
  intro ram processor asked served
  have loaded : ram.read 0x0050 = 0xD9 := by decide +kernel
  obtain ⟨-, -, -, high, low, -, restores⟩ := service_restores processor .timer ram rfl
  obtain ⟨-, back, -⟩ := restores (by decide) (by decide) loaded
  have top : processor.regs.sp - 1 = 0x0000 := by decide
  have next : processor.regs.sp - 2 = 0xFFFF := by decide
  rw [top] at high
  rw [next] at low
  exact ⟨⟨rfl, by decide, by decide, loaded⟩, high.trans (by decide), low.trans (by decide), back⟩

end Sm83.Processor
