import Sm83.Proofs.Processor.Duration
import Sm83.Proofs.Processor.History

/-!
# Driving an opcode by hand

A program that wants no processor can fetch an opcode itself, look it up, and step it with cycles
numbered from one until it completes or fails, keeping one activation for all that it runs. The
processor keeps the activation and the number of the cycle in its phase instead, and the prefix byte
in a phase of its own. Machine cycle by machine cycle both do the same.
-/

namespace Sm83

/-- What one machine cycle shows: its accesses, and the registers and the memory that it leaves. -/
structure Moment (μ : Type) where
  /-- The accesses, in order. -/
  accesses : List Access
  /-- The register file after the cycle. -/
  regs : RegisterFile
  /-- The memory after the cycle. -/
  memory : μ

/-- A moment behind accesses of the same machine cycle. -/
def Moment.behind {μ : Type} (moment : Moment μ) (accesses : List Access) : Moment μ :=
  { moment with accesses := accesses ++ moment.accesses }

/-- What the execution of a step shows. -/
def Stepped.moment {μ : Type} (step : Execution μ Stepped) : Moment μ :=
  ⟨step.accesses, step.value.regs, step.memory⟩

/-- What the execution of a tick shows. -/
def Processor.moment {μ : Type} (tick : Execution μ (Processor.Answer Unit)) : Moment μ :=
  ⟨tick.accesses, tick.value.processor.regs, tick.memory⟩

namespace RegisterFile

/-- The registers with interrupts enabled if they were about to be. -/
def promoted (regs : RegisterFile) : RegisterFile :=
  if regs.imePending then { regs with ime := true, imePending := false } else regs

/-- The registers with the program counter moved past a byte. -/
def skipByte (regs : RegisterFile) : RegisterFile := { regs with pc := regs.pc + 1 }

end RegisterFile

variable {μ : Type} [Memory μ]

/-- Stepping an opcode with this cycle, and then with the ones behind it until one completes it or
fails, shows these moments and ends with this step and memory. The activation of each step is the
one that the step before it left. -/
inductive StepsOut (opcode : Opcode) : Nat → Activation → RegisterFile → μ → List (Moment μ) →
    Stepped → μ → Prop where
  /-- The step completes the opcode or fails. -/
  | last {cycle : Nat} {activation : Activation} {regs : RegisterFile} {memory : μ}
    {step : Execution μ Stepped} (made : (opcode.step cycle activation regs).exec memory = step)
    (ends : step.value.outcome ≠ .ok .running) :
    StepsOut opcode cycle activation regs memory [Stepped.moment step] step.value step.memory
  /-- The opcode goes on with the next cycle. -/
  | more {cycle : Nat} {activation : Activation} {regs : RegisterFile} {memory left : μ}
    {step : Execution μ Stepped} {later : List (Moment μ)} {stepped : Stepped}
    (made : (opcode.step cycle activation regs).exec memory = step)
    (onward : step.value.outcome = .ok .running)
    (rest : StepsOut opcode (cycle + 1) step.value.activation step.value.regs step.memory later
      stepped left) :
    StepsOut opcode cycle activation regs memory (Stepped.moment step :: later) stepped left

/-- Fetching, looking up and stepping out the instruction at the program counter by hand. The fetch
of an opcode belongs to the machine cycle of its first step, that of the prefix byte is one of its
own. -/
inductive RunsByHand (activation : Activation) (regs : RegisterFile) (memory : μ) :
    List (Moment μ) → Stepped → μ → Prop where
  /-- The byte is an opcode. -/
  | plain {code : UInt8} {between left : μ} {first : Moment μ} {later : List (Moment μ)}
    {stepped : Stepped} (fetched : Memory.read memory regs.pc = (code, between))
    (plain : code ≠ prefixByte)
    (steps : StepsOut (OpcodeTable.standard.lookup ⟨code, false⟩) 1 activation regs.skipByte between
      (first :: later) stepped left) :
    RunsByHand activation regs memory (first.behind [.read regs.pc code] :: later) stepped left
  /-- The byte is the prefix byte, and the one behind it is an opcode. -/
  | prefixed {code : UInt8} {between behind left : μ} {first : Moment μ} {later : List (Moment μ)}
    {stepped : Stepped} (fetched : Memory.read memory regs.pc = (prefixByte, between))
    (selected : Memory.read between regs.skipByte.pc = (code, behind))
    (steps : StepsOut (OpcodeTable.standard.lookup ⟨code, true⟩) 1 activation
      regs.skipByte.skipByte behind (first :: later) stepped left) :
    RunsByHand activation regs memory
      (⟨[.read regs.pc prefixByte], regs.skipByte, between⟩ ::
        first.behind [.read regs.skipByte.pc code] :: later) stepped left

/-! ## What is driven by hand is determined -/

section

variable {opcode : Opcode} {cycle : Nat} {activation : Activation} {regs : RegisterFile}
  {memory left left' : μ} {moments moments' : List (Moment μ)} {stepped stepped' : Stepped}

/-- Stepping out an opcode has one result. -/
theorem StepsOut.unique (steps : StepsOut opcode cycle activation regs memory moments stepped left)
    (others : StepsOut opcode cycle activation regs memory moments' stepped' left') :
    moments' = moments ∧ stepped' = stepped ∧ left' = left := by
  induction steps generalizing moments' with
  | last made ends =>
    subst made
    cases others with
    | last made ends => subst made; exact ⟨rfl, rfl, rfl⟩
    | more made onward rest => subst made; exact absurd onward ends
  | more made onward rest ih =>
    subst made
    cases others with
    | last made ends => subst made; exact absurd onward ends
    | more made onward rest =>
      subst made
      obtain ⟨rfl, rfl, rfl⟩ := ih rest
      exact ⟨rfl, rfl, rfl⟩

/-- Running an instruction by hand has one result. -/
theorem RunsByHand.unique (run : RunsByHand activation regs memory moments stepped left)
    (other : RunsByHand activation regs memory moments' stepped' left') :
    moments' = moments ∧ stepped' = stepped ∧ left' = left := by
  cases run with
  | plain fetched plain steps =>
    cases other with
    | plain fetched' plain' steps' =>
      obtain ⟨rfl, rfl⟩ := Prod.mk.inj (fetched.symm.trans fetched')
      obtain ⟨same, rfl, rfl⟩ := steps.unique steps'
      obtain ⟨rfl, rfl⟩ := List.cons.inj same
      exact ⟨rfl, rfl, rfl⟩
    | prefixed fetched' selected' steps' =>
      exact absurd (Prod.mk.inj (fetched.symm.trans fetched')).1 plain
  | prefixed fetched selected steps =>
    cases other with
    | plain fetched' plain' steps' =>
      exact absurd (Prod.mk.inj (fetched'.symm.trans fetched)).1 plain'
    | prefixed fetched' selected' steps' =>
      obtain ⟨-, rfl⟩ := Prod.mk.inj (fetched.symm.trans fetched')
      obtain ⟨rfl, rfl⟩ := Prod.mk.inj (selected.symm.trans selected')
      obtain ⟨same, rfl, rfl⟩ := steps.unique steps'
      obtain ⟨rfl, rfl⟩ := List.cons.inj same
      exact ⟨rfl, rfl, rfl⟩

/-- An activation takes a first cycle if nothing was stepped in it or an instruction has completed
in it. -/
def Activation.Ready (activation : Activation) : Prop :=
  activation = {} ∨ activation.retired = true

/-- A first step finds nothing of what was completed before. -/
theorem Opcode.step_first_of_ready (opcode : Opcode) (ready : activation.Ready) :
    opcode.step 1 activation regs = opcode.step 1 {} regs := by
  have due : activation.violation opcode.lastCycle 1 = none := by
    rw [Activation.violation_eq_none_iff]
    refine ⟨Nat.le_refl 1, opcode.lastCycle_pos, ?_⟩
    rw [if_pos rfl]
    exact ready.imp (fun fresh => by rw [fresh]) id
  exact step_first_of_due regs due

/-- A step that completes an opcode notes so in the activation. -/
theorem Opcode.always_step_retired (opcode : Opcode) (cycle : Nat) (activation : Activation)
    (regs : RegisterFile) :
    (opcode.step cycle activation regs).Always fun stepped _ _ =>
      stepped.outcome = .ok .retired → stepped.activation.retired = true := by
  cases refused : activation.violation opcode.lastCycle cycle with
  | some violation => simp [step_of_violation refused]
  | none =>
    by_cases undefined : opcode.instruction = .invalid
    · simp [step_of_invalid undefined refused]
    · obtain ⟨work, listed, step⟩ := step_of_due regs undefined refused
      rw [step, always_carryOut]
      apply Bus.always_of_forall
      rintro ⟨outcome, context⟩ accesses events
      cases outcome with
      | error fault => exact nofun
      | ok progress =>
        rintro ⟨⟩
        rfl

/-- What is stepped out to completion is noted as complete. -/
theorem StepsOut.retired
    (steps : StepsOut opcode cycle activation regs memory moments stepped left)
    (completed : stepped.outcome = .ok .retired) : stepped.activation.retired = true := by
  induction steps with
  | @last cycle activation regs memory step made ends =>
    have noted := (opcode.always_step_retired cycle activation regs).exec memory
    rw [made] at noted
    exact noted completed
  | more made onward rest ih => exact ih completed

/-- What is run by hand to completion is noted as complete. -/
theorem RunsByHand.retired (run : RunsByHand activation regs memory moments stepped left)
    (completed : stepped.outcome = .ok .retired) : stepped.activation.retired = true := by
  cases run with
  | plain fetched plain steps => exact steps.retired completed
  | prefixed fetched selected steps => exact steps.retired completed

end

/-! ## The processor -/

namespace Processor

open Phase

variable {processor : Processor} {opcode : Opcode} {cycle : Nat} {activation : Activation}
  {regs : RegisterFile} {memory between left : μ} {count : Nat} {answer : Answer Unit}
  {step : Execution μ Stepped}

/-- The last answer of a run is that of a step by hand. -/
structure Answer.Matches (answer : Answer Unit) (stepped : Stepped) : Prop where
  /-- The tick fails over what the step fails over, and otherwise succeeds. -/
  outcome : answer.outcome = stepped.outcome.map fun _ => ()
  /-- The registers are the same. -/
  regs : answer.processor.regs = stepped.regs

/-- The answer to a step matches it. -/
theorem matches_answer (stepped : Stepped) (opcode : Opcode) (cycle : Nat) :
    (stepped.answer opcode cycle).Matches stepped :=
  ⟨stepped.outcome_answer opcode cycle, stepped.regs_answer opcode cycle⟩

/-- The loop goes on exactly if the opcode does. -/
theorem isLast_answer_eq_false_iff (stepped : Stepped) (opcode : Opcode) (cycle : Nat) :
    (stepped.answer opcode cycle).isLast = false ↔ stepped.outcome = .ok .running := by
  unfold Stepped.answer Answer.isLast
  rcases stepped.outcome with fault | _ | _ <;> simp [isIdle]

/-- An advance shows what its step shows. -/
theorem moment_advance (processor : Processor) (opcode : Opcode) (cycle : Nat)
    (activation : Activation) (memory : μ) :
    moment ((processor.advance opcode cycle activation).exec memory) =
      Stepped.moment ((opcode.step cycle activation processor.regs).exec memory) := by
  obtain ⟨value, remains, accesses⟩ := exec_advance processor opcode cycle activation memory
  rw [moment, value, remains, accesses, Stepped.regs_answer]
  rfl

/-- A loop whose first tick answers a step steps out the opcode: by induction on the ticks, through
the activations that the phase holds between them. -/
theorem Ends.stepsOut (ends : Ends processor memory count answer left)
    (made : (opcode.step cycle activation regs).exec between = step)
    (value : (processor.tick.exec memory).value = step.value.answer opcode cycle)
    (remains : (processor.tick.exec memory).memory = step.memory) :
    ∃ later stepped,
      StepsOut opcode cycle activation regs between (Stepped.moment step :: later) stepped left ∧
        (processor.history memory count).map moment =
          moment (processor.tick.exec memory) :: later ∧
        answer.Matches stepped := by
  induction ends generalizing regs between cycle activation step with
  | last final =>
    have ends : step.value.outcome ≠ .ok .running := by
      intro onward
      rw [value, (isLast_answer_eq_false_iff _ opcode cycle).mpr onward] at final
      cases final
    rw [value, remains]
    exact ⟨[], step.value, .last made ends, rfl, matches_answer _ _ _⟩
  | @more processor memory count answer left ongoing rest ih =>
    have onward : step.value.outcome = .ok .running := by
      rwa [value, isLast_answer_eq_false_iff] at ongoing
    obtain ⟨busy, running⟩ : ∃ busy : Processor,
        busy = ⟨step.value.regs, .executing opcode cycle step.value.activation⟩ := ⟨_, rfl⟩
    have next : (processor.tick.exec memory).value.processor = busy := by
      rw [value, Stepped.answer, onward, running]
    have tick : busy.tick = busy.advance opcode (cycle + 1) step.value.activation :=
      tick_of_executing (by rw [running])
    obtain ⟨answers, leaves, -⟩ :=
      exec_advance busy opcode (cycle + 1) step.value.activation step.memory
    rw [next, remains, tick] at ih
    obtain ⟨later, stepped, steps, history, result⟩ := ih rfl answers leaves
    have kept : busy.regs = step.value.regs := by rw [running]
    rw [kept] at steps
    rw [moment_advance, kept] at history
    refine ⟨_, stepped, .more made onward steps, ?_, result⟩
    rw [Processor.history, List.map_cons, next, remains, history]

/-- A loop whose first tick steps an opcode behind a fetch is the opcode stepped out behind it, in
any activation that takes a first cycle. -/
theorem Ends.stepsOut_behind {fetched : Processor} {accesses : List Access} {events : List Event}
    (ends : Ends processor memory count answer left) (ready : activation.Ready)
    (tick : processor.tick.exec memory =
      ((fetched.advance opcode 1 {}).exec between).behind accesses events) :
    ∃ first later stepped,
      StepsOut opcode 1 activation fetched.regs between (first :: later) stepped left ∧
        (processor.history memory count).map moment = first.behind accesses :: later ∧
        answer.Matches stepped := by
  obtain ⟨value, remains, -⟩ := exec_advance fetched opcode 1 {} between
  have shown := moment_advance fetched opcode 1 {} between
  rw [← opcode.step_first_of_ready ready] at value remains shown
  obtain ⟨later, stepped, steps, history, result⟩ := ends.stepsOut rfl
    (by rw [tick, Execution.value_behind, value]) (by rw [tick, Execution.memory_behind, remains])
  refine ⟨_, later, stepped, steps, ?_, result⟩
  rw [history, tick, ← shown]
  rfl

/-- The registers of a processor whose interrupts are enabled if they were about to be. -/
theorem regs_promote (processor : Processor) :
    processor.promote.regs = processor.regs.promoted := by
  unfold promote RegisterFile.promoted
  split <;> rfl

/-- The fetch of an instruction by hand starts where the processor starts. -/
theorem pc_promoted (processor : Processor) :
    processor.regs.promoted.pc = processor.regs.pc := by
  rw [← regs_promote, pc_promote]

/-- The fetch of a byte moves the program counter by hand as it does in the processor. -/
theorem regs_skipByte_promote (processor : Processor) :
    processor.promote.skipByte.regs = processor.regs.promoted.skipByte :=
  congrArg RegisterFile.skipByte (regs_promote processor)

/-- Ticking until idle runs an instruction without a prefix by hand. -/
theorem Ends.runsByHand_of_plain (ends : Ends processor memory count answer left)
    (idle : processor.phase = .idle) (fetching : processor.regs.halted = false)
    (ready : activation.Ready) (plain : (Memory.read memory processor.regs.pc).1 ≠ prefixByte) :
    ∃ stepped,
      RunsByHand activation processor.regs.promoted memory
          ((processor.history memory count).map moment) stepped left ∧
        answer.Matches stepped := by
  obtain ⟨first, later, stepped, steps, history, result⟩ :=
    ends.stepsOut_behind ready (exec_tick_of_plain idle fetching plain)
  rw [← pc_promoted] at plain steps history
  rw [regs_skipByte_promote] at steps
  rw [history]
  exact ⟨stepped, .plain rfl plain steps, result⟩

/-- Ticking until idle runs an instruction with a prefix by hand. -/
theorem Ends.runsByHand_of_prefix (ends : Ends processor memory count answer left)
    (idle : processor.phase = .idle) (fetching : processor.regs.halted = false)
    (ready : activation.Ready) (isPrefix : (Memory.read memory processor.regs.pc).1 = prefixByte) :
    ∃ stepped,
      RunsByHand activation processor.regs.promoted memory
          ((processor.history memory count).map moment) stepped left ∧
        answer.Matches stepped := by
  have tick := exec_tick_of_prefix idle fetching isPrefix
  cases ends with
  | last final =>
    rw [tick] at final
    cases final
  | more ongoing rest =>
    obtain ⟨busy, prefixed⟩ : ∃ busy : Processor,
        busy = { processor.promote.skipByte with phase := .prefixed } := ⟨_, rfl⟩
    have next : (processor.tick.exec memory).value.processor = busy := by rw [tick, prefixed]
    have remains : (processor.tick.exec memory).memory =
      (Memory.read memory processor.regs.pc).2 := by rw [tick]
    have kept : busy.regs = processor.regs.promoted.skipByte := by
      rw [prefixed, regs_skipByte_promote]
    have moved : busy.skipByte.regs = processor.regs.promoted.skipByte.skipByte :=
      congrArg RegisterFile.skipByte kept
    rw [next, remains] at rest
    obtain ⟨first, later, stepped, steps, history, result⟩ :=
      rest.stepsOut_behind ready (exec_tick_of_prefixed (by rw [prefixed]))
    rw [moved, kept] at steps
    rw [kept] at history
    have shown : moment (processor.tick.exec memory) =
        ⟨[.read processor.regs.promoted.pc prefixByte], processor.regs.promoted.skipByte,
          (Memory.read memory processor.regs.promoted.pc).2⟩ := by
      rw [pc_promoted, tick, ← regs_skipByte_promote]
      rfl
    rw [Processor.history, List.map_cons, next, remains, history, shown]
    rw [← pc_promoted] at isPrefix steps ⊢
    exact ⟨stepped, .prefixed (Prod.ext isPrefix rfl) rfl steps, result⟩

/-- Ticking until idle from between two instructions runs the instruction by hand. -/
theorem Ends.runsByHand (ends : Ends processor memory count answer left)
    (idle : processor.phase = .idle) (fetching : processor.regs.halted = false)
    (ready : activation.Ready) :
    ∃ stepped,
      RunsByHand activation processor.regs.promoted memory
          ((processor.history memory count).map moment) stepped left ∧
        answer.Matches stepped := by
  by_cases isPrefix : (Memory.read memory processor.regs.pc).1 = prefixByte
  · exact ends.runsByHand_of_prefix idle fetching ready isPrefix
  · exact ends.runsByHand_of_plain idle fetching ready isPrefix

/-- Driving the processor is driving the opcode by hand. From between two instructions, and unless
the processor is halted, ticking until idle or until a tick fails ends after as many machine cycles
as the procedure by hand takes in any activation that takes a first cycle. Each of the cycles makes
the same accesses and leaves the same registers and the same memory. The last tick fails over what
the last step fails over, and if that step completes the opcode its activation takes the next
one. -/
theorem drives_as_by_hand (processor : Processor) (activation : Activation) (memory : μ)
    (idle : processor.phase = .idle) (fetching : processor.regs.halted = false)
    (ready : activation = {} ∨ activation.retired = true) :
    ∃ moments stepped left answer,
      RunsByHand activation processor.regs.promoted memory moments stepped left ∧
      (∀ moments' stepped' left',
        RunsByHand activation processor.regs.promoted memory moments' stepped' left' →
          moments' = moments ∧ stepped' = stepped ∧ left' = left) ∧
      Ends processor memory moments.length answer left ∧
      (processor.history memory moments.length).map moment = moments ∧
      answer.outcome = stepped.outcome.map (fun _ => ()) ∧
      answer.processor.regs = stepped.regs ∧
      (stepped.outcome = .ok .retired → stepped.activation.retired = true) := by
  obtain ⟨count, answer, left, -, ends, -⟩ :=
    endsSoon_of_sound (show processor.phase.Sound by rw [idle]; trivial) memory
  obtain ⟨stepped, run, result⟩ := ends.runsByHand idle fetching ready
  have length : ((processor.history memory count).map moment).length = count := by
    rw [List.length_map, length_history]
  refine ⟨_, stepped, left, answer, run, fun _ _ _ other => run.unique other, ?_, ?_,
    result.outcome, result.regs, run.retired⟩
  · rw [length]
    exact ends
  · rw [length]

/-- A prefixed instruction that changes a byte in memory is driven by hand in the activation that an
earlier instruction left. -/
theorem by_hand_of_swap :
    let ram := Ram.ofProgram 0x0100 [0xCB, 0x36, 0xAB]
    let processor : Processor := ⟨{ h := 0x01, l := 0x02, pc := 0x0100, imePending := true }, .idle⟩
    let activation : Activation := ⟨4, true, ⟨0x11, 0x22, 0x33⟩⟩
    (processor.phase = .idle ∧ processor.regs.halted = false ∧ activation.retired = true) ∧
      ∃ moments stepped left,
        RunsByHand activation processor.regs.promoted ram moments stepped left ∧
          moments.map (·.accesses) =
            [[.read 0x0100 0xCB], [.read 0x0101 0x36], [.read 0x0102 0xAB],
              [.write 0x0102 0xBA]] ∧
          stepped.outcome.map (fun _ => ()) = .ok () := by
  intro ram processor activation
  obtain ⟨moments, stepped, left, answer, run, -, ends, history, outcome, -⟩ :=
    drives_as_by_hand processor activation ram rfl rfl (.inr rfl)
  have found : (instructionAt ram processor.regs.pc).ticks processor.regs = 4 := by
    decide +kernel
  obtain ⟨answer', left', others, succeeded⟩ :=
    @takes_idle _ _ processor ram rfl rfl (by decide +kernel)
  rw [found] at others
  obtain ⟨length, rfl, rfl⟩ := others.unique ends
  rw [length] at history
  refine ⟨⟨rfl, rfl, rfl⟩, moments, stepped, left, run, ?_, outcome.symm.trans succeeded⟩
  rw [← history]
  decide +kernel

end Processor

end Sm83
