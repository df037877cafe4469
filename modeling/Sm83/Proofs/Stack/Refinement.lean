import Sm83.Proofs.Processor.Outcome

/-!
# The stack of the processor is a stack

A run of operations that have to do with the stack, instructions and dispatches of interrupts in any
order, does to the words below the stack pointer what its events do to a list of words. So it keeps
the discipline of a stack as long as there is room for what it pushes and something for it to pop.
-/

namespace Sm83

open Schedule

namespace Processor

/-- Ask for the dispatch of an interrupt, and tick until it is done. -/
def serve (processor : Processor) (interrupt : Interrupt) : Bus (Answer Nat) := do
  let asked ← processor.request interrupt
  asked.processor.runUntilIdle

variable {processor : Processor} {ram : Ram}

/-- The dispatch of an interrupt pushes the program counter as an instruction would. -/
theorem exec_serve (idle : processor.phase = .idle) (interrupt : Interrupt) (ram : Ram) :
    ((processor.serve interrupt).exec ram).value.processor =
        ⟨{ processor.regs with
          sp := processor.regs.sp - 2
          pc := interrupt.handler
          ime := false
          imePending := false
          halted := false }, .idle⟩ ∧
      ((processor.serve interrupt).exec ram).memory =
        ram.pushWord processor.regs.sp processor.regs.pc := by
  obtain ⟨regs, phase⟩ := processor
  subst idle
  rw [← Word.sub_one_sub_one]
  unfold Ram.pushWord
  rw [← Word.sub_one_sub_one]
  exact ⟨rfl, rfl⟩

end Processor

/-! ## Steps and runs -/

/-- An operation of a processor that is idle and has to do with the stack: an instruction, or the
dispatch of an interrupt, which puts the address that was to be executed next. -/
inductive StackStep (processor : Processor) (ram : Ram) : StackEvent → Processor → Ram → Prop where
  /-- The instruction at the program counter is executed. -/
  | instruction {event : StackEvent} (idle : processor.phase = .idle)
    (fetching : processor.regs.halted = false)
    (uses : (instructionAt ram processor.regs.pc).stackEvent? processor.regs
      (processor.runUntilIdle.exec ram).value.processor.regs = some event) :
    StackStep processor ram event (processor.runUntilIdle.exec ram).value.processor
      (processor.runUntilIdle.exec ram).memory
  /-- An interrupt is dispatched. -/
  | interrupt (idle : processor.phase = .idle) (source : Interrupt) :
    StackStep processor ram (.push processor.regs.pc)
      ((processor.serve source).exec ram).value.processor ((processor.serve source).exec ram).memory

/-- Operations that have to do with the stack, one after another. -/
inductive StackRun : Processor → Ram → List StackEvent → Processor → Ram → Prop where
  /-- No operation. -/
  | nil {processor : Processor} {ram : Ram} : StackRun processor ram [] processor ram
  /-- An operation and those that come behind it. -/
  | cons {processor between after : Processor} {ram middle left : Ram} {event : StackEvent}
    {events : List StackEvent} (step : StackStep processor ram event between middle)
    (rest : StackRun between middle events after left) :
    StackRun processor ram (event :: events) after left

/-- No instruction behind the prefix byte has to do with the stack. -/
theorem Instruction.isPrefixed_of_stackEvent? {instruction : Instruction}
    {before after : RegisterFile} {event : StackEvent}
    (uses : instruction.stackEvent? before after = some event) :
    instruction.isPrefixed = false := by
  cases instruction with
  | shift | bit | res | set => cases uses
  | _ => rfl

/-- No plain instruction pushes or pops what points at the stack or at the program. -/
theorem Decode.movesPointer_plain : ∀ code : UInt8, (plain code).movesPointer = false :=
  forall_byte (by decide +kernel)

variable {processor between after : Processor} {ram middle left : Ram} {event : StackEvent}
  {events : List StackEvent}

/-- An operation completes and moves the stack as its event says. -/
theorem StackStep.moves (step : StackStep processor ram event after left) :
    after.phase = .idle ∧ Moves ram processor.regs.sp event left after.regs.sp := by
  cases step with
  | instruction idle fetching uses =>
    have unprefixed := Instruction.isPrefixed_of_stackEvent? uses
    have defined : instructionAt ram processor.regs.pc ≠ .invalid := by
      intro undefined
      rw [undefined] at uses
      cases uses
    have proper : (instructionAt ram processor.regs.pc).movesPointer = false := by
      rw [(plain_of_instructionAt unprefixed).2]
      exact Decode.movesPointer_plain _
    obtain ⟨ime, imePending, started⟩ := processor.exists_started unprefixed
    obtain ⟨count, after, latch, left, other, does, caused, moves⟩ :=
      @Instruction.movesStack processor.regs ime imePending ram _ proper _
        (Option.isSome_of_mem uses)
    rw [← started] at does
    obtain ⟨_, value, memory⟩ :=
      Processor.runsTo_of_leads idle fetching rfl defined ⟨count, latch, does⟩
    rw [value] at uses ⊢
    rw [memory]
    obtain rfl : other = event := Option.some.inj (caused.symm.trans uses)
    exact ⟨rfl, moves⟩
  | interrupt idle source =>
    obtain ⟨value, memory⟩ := processor.exec_serve idle source ram
    rw [value, memory]
    exact ⟨rfl, .push _⟩

/-- Where the stack is held, an event that fits leads to another stack that is held. -/
theorem Moves.refines {pointer pointer' : UInt16} {words : List UInt16}
    (moves : Moves ram pointer event left pointer') (holds : ram.Holds pointer words)
    (fits : Fits words.length (event :: events)) :
    ∃ words', Lifo words [event] words' ∧ left.Holds pointer' words' ∧
      pointer' + UInt16.ofNat (2 * words'.length) = pointer + UInt16.ofNat (2 * words.length) ∧
      Fits words'.length events := by
  cases moves with
  | push word =>
    refine ⟨word :: words, .push .nil, holds.push fits.1 word, ?_, fits.2⟩
    rw [List.length_cons, Nat.mul_succ, Nat.add_comm, UInt16.ofNat_add, ← UInt16.add_assoc]
    exact congrArg (· + _) (UInt16.sub_add_cancel pointer 2)
  | take takes =>
    obtain ⟨nonempty, fewer⟩ := fits.of_take takes.isTake
    cases words with
    | nil => cases nonempty
    | cons top words =>
      obtain ⟨first, rest⟩ := Ram.holds_cons.mp holds
      rw [first] at takes
      refine ⟨words, .take takes .nil, rest, ?_, fewer⟩
      rw [List.length_cons, Nat.mul_succ, Nat.add_comm _ 2, UInt16.ofNat_add, ← UInt16.add_assoc]
      rfl
  | keep => exact ⟨words, .keep .nil, holds, rfl, fits⟩

/-- A run from where the stack is held may be parted anywhere: up to there its events lead to a
stack that is held, as far from the bottom of the stack as it is deep. -/
theorem StackRun.refines {words : List UInt16} (run : StackRun processor ram events after left)
    (idle : processor.phase = .idle) (holds : ram.Holds processor.regs.sp words)
    (fits : Fits words.length events) {early late : List StackEvent}
    (parted : events = early ++ late) :
    ∃ between middle words',
      StackRun processor ram early between middle ∧ StackRun between middle late after left ∧
        between.phase = .idle ∧ Lifo words early words' ∧
        middle.Holds between.regs.sp words' ∧
        between.regs.sp + UInt16.ofNat (2 * words'.length) =
          processor.regs.sp + UInt16.ofNat (2 * words.length) := by
  induction early generalizing processor ram events words with
  | nil =>
    obtain rfl : events = late := parted
    exact ⟨processor, ram, words, .nil, run, idle, .nil, holds, rfl⟩
  | cons event early ih =>
    subst parted
    cases run with
    | cons step rest =>
      obtain ⟨settled, moves⟩ := step.moves
      obtain ⟨next, first, held, bottom, further⟩ := moves.refines holds fits
      obtain ⟨between, middle, words', behind, remaining, ends, onward, kept, same⟩ :=
        ih rest settled held further rfl
      exact ⟨between, middle, words', .cons step behind, remaining, ends, first.append onward, kept,
        same.trans bottom⟩

/-- What a pair holds it keeps: the flags have no lower half to begin with. -/
theorem RegisterPair.kept_getPair (pair : RegisterPair) (regs : RegisterFile) :
    pair.kept (regs.getPair pair) = regs.getPair pair := by
  have same : regs.setPair pair (regs.getPair pair) = regs := by
    cases pair <;> simp [RegisterFile.setPair, RegisterFile.getPair]
  have kept := regs.getPair_setPair pair (regs.getPair pair)
  rw [same] at kept
  exact kept.symm

/-- The stack below the stack pointer is a stack. Wherever a run is parted that has room for what it
pushes and something for what it pops, the events up to there lead from the stack that was held to
one that is held. So what is popped behind a balanced part of the run is what was pushed in front of
it: every return continues where its call said. And no pair loses anything by being pushed and
popped. -/
theorem stack_refines_lifo {stack : List UInt16} (run : StackRun processor ram events after left)
    (idle : processor.phase = .idle) (holds : ram.Holds processor.regs.sp stack)
    (fits : Fits stack.length events) :
    (∀ early late, events = early ++ late →
      ∃ between middle words,
        StackRun processor ram early between middle ∧ StackRun between middle late after left ∧
          between.phase = .idle ∧ Lifo stack early words ∧ middle.Holds between.regs.sp words ∧
          between.regs.sp + UInt16.ofNat (2 * words.length) =
            processor.regs.sp + UInt16.ofNat (2 * stack.length)) ∧
    (∀ early word inner closer late,
      events = early ++ .push word :: (inner ++ closer :: late) → Balanced inner →
        closer.isTake = true → closer.Takes word) ∧
    ∀ (pair : RegisterPair) (regs : RegisterFile),
      pair.kept (regs.getPair pair) = regs.getPair pair := by
  refine ⟨fun early late parted => run.refines idle holds fits parted, ?_,
    RegisterPair.kept_getPair⟩
  intro early word inner closer late parted balanced closes
  obtain ⟨between, middle, words, -, -, -, leads, -⟩ :=
    run.refines idle holds fits (List.append_nil events).symm
  rw [parted] at leads
  exact Lifo.takes_of_balanced balanced closes leads

/-- A call and the return from it leave the stack as it was. -/
theorem lifo_of_call_and_return :
    let ram := Ram.ofProgram 0x0000 [0xCD, 0x04, 0x00, 0x00, 0xC9]
    let processor : Processor := ⟨{ sp := 0x0040 }, .idle⟩
    ∃ after left, StackRun processor ram [.push 3, .ret 3] after left ∧
      (processor.phase = .idle ∧ ram.Holds processor.regs.sp [] ∧ Fits 0 [.push 3, .ret 3]) ∧
      ∃ words, Lifo [] [.push 3, .ret 3] words ∧ left.Holds after.regs.sp words := by
  intro ram processor
  have call : StackStep processor ram (.push 3) _ _ := .instruction rfl rfl (by decide +kernel)
  have back : StackStep (processor.runUntilIdle.exec ram).value.processor
      (processor.runUntilIdle.exec ram).memory (.ret 3) _ _ :=
    .instruction (by decide +kernel) (by decide +kernel) (by decide +kernel)
  have run : StackRun processor ram [.push 3, .ret 3] _ _ := .cons call (.cons back .nil)
  have fits : Fits 0 [.push 3, .ret 3] := ⟨by decide, by decide, trivial⟩
  obtain ⟨between, middle, words, -, rest, -, leads, held, -⟩ :=
    (stack_refines_lifo run rfl (ram.holds_nil _) fits).1 [.push 3, .ret 3] [] rfl
  cases rest
  exact ⟨_, _, run, ⟨rfl, ram.holds_nil _, fits⟩, words, leads, held⟩

end Sm83
