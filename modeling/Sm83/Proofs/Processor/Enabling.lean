import Sm83.Proofs.Processor.Switches

/-!
# The enabling of interrupts

Between two instructions the enabling of interrupts is in one of three states: off, about to be on,
and on. Which one is a matter of what has happened up to there, one thing after another: the
instructions that completed, the requests that were accepted, and the resets. Every other call
leaves the state alone, and so do the ticks in the middle of an instruction, as far as can be seen
once it has completed.
-/

namespace Sm83

/-- The enabling of interrupts between two instructions. -/
inductive Enabling where
  /-- Interrupts are disabled. -/
  | off
  /-- Interrupts will be enabled when the next instruction starts. -/
  | pending
  /-- Interrupts are enabled. -/
  | on
deriving DecidableEq, Repr

/-- What may change the enabling of interrupts. -/
inductive Signal where
  /-- An instruction completed. -/
  | completed (instruction : Instruction)
  /-- A request for the dispatch of an interrupt was accepted. -/
  | accepted
  /-- The processor started over. -/
  | reset
deriving DecidableEq, Repr

namespace Enabling

/-- The enabling once the next instruction starts. -/
def settled : Enabling → Enabling
  | off => off
  | pending | on => on

/-- The enabling behind an instruction. -/
def complete (enabling : Enabling) : Instruction → Enabling
  | .ei => if enabling = off then pending else on
  | .di => off
  | .reti => on
  | _ => enabling.settled

/-- The enabling behind what may change it. -/
def after (enabling : Enabling) : Signal → Enabling
  | .completed instruction => enabling.complete instruction
  | .accepted | .reset => off

/-- The switches of a processor whose interrupts are enabled so. -/
def switches (enabling : Enabling) (halted : Bool) : Switches :=
  ⟨enabling = on, enabling = pending, halted⟩

/-- What an instruction makes of the switches that it starts with is what it makes of the enabling.
None leaves the processor halted with interrupts about to be enabled. -/
theorem switch_settled (enabling : Enabling) (instruction : Instruction) :
    ∃ halted, instruction.switch (enabling.settled.switches false) =
        (enabling.complete instruction).switches halted ∧
      (enabling.complete instruction = pending → halted = false) := by
  cases instruction with
  | halt | stop =>
    refine ⟨true, by cases enabling <;> rfl, fun waits => ?_⟩
    cases enabling <;> cases waits
  | _ => exact ⟨false, by cases enabling <;> rfl, fun _ => rfl⟩

end Enabling

namespace Processor

variable {processor : Processor} {enabling : Enabling} {μ : Type} [Memory μ]

/-- What a call tells about the enabling of interrupts: a tick, whether it completes an instruction;
a request, whether it is accepted. -/
def signals (processor : Processor) (memory : μ) : Call → List Signal
  | .tick =>
    if (processor.tick.exec memory).value.processor.phase = .idle then
      ((processor.underway? memory).map Signal.completed).toList
    else
      []
  | .request _ => if processor.phase = .idle then [.accepted] else []
  | .reset _ => [.reset]
  | .resume | .rewrite _ => []

/-- Whether the call puts another register file in place. -/
def Call.rewrites : Call → Bool
  | .rewrite _ => true
  | _ => false

/-- The processors that calls bring about that leave the register file to the processor, each with
what the calls told. -/
inductive Driven : Processor → List Signal → Prop where
  /-- A processor that is about to run its first instruction. -/
  | boot (model : Model) : Driven (afterBoot model) []
  /-- A processor that was called over some memory. -/
  | call {μ : Type} [Memory μ] {processor : Processor} {told : List Signal}
    (driven : Driven processor told) {call : Call} (kept : call.rewrites = false) (memory : μ) :
    Driven ((processor.after call).exec memory).value (told ++ processor.signals memory call)

/-- The processor has come from that enabling: between two instructions its switches say so, in the
middle of one they are what it started with, and in the dispatch of an interrupt they are off. -/
def Tracks (processor : Processor) (enabling : Enabling) : Prop :=
  match processor.phase with
  | .idle => ∃ halted, processor.regs.switches = enabling.switches halted ∧
      (enabling = .pending → halted = false)
  | .prefixed | .executing .. | .locked _ =>
    processor.regs.switches = enabling.settled.switches false
  | .servicing .. => enabling = .off ∧ processor.regs.switches = Enabling.off.switches false

/-- Between two instructions interrupts that were about to be enabled are enabled. -/
theorem switches_promote {halted : Bool}
    (switches : processor.regs.switches = enabling.switches halted) :
    processor.promote.regs.switches = enabling.settled.switches halted := by
  have pending : processor.regs.imePending = decide (enabling = .pending) :=
    congrArg Switches.imePending switches
  have stopped : processor.regs.halted = halted := congrArg Switches.halted switches
  unfold promote
  rw [pending]
  cases enabling with
  | off | on => exact switches
  | pending => exact congrArg (Switches.mk true false) stopped

/-- A tick that is made of an instruction tells what the enabling of interrupts becomes. -/
theorem tracks_of_switched {left : Processor} {instruction : Instruction}
    (switched : left.Switched instruction (enabling.settled.switches false)) :
    left.Tracks ((if left.phase = .idle then [Signal.completed instruction] else []).foldl
      Enabling.after enabling) := by
  unfold Switched at switched
  unfold Tracks
  cases phase : left.phase with
  | idle =>
    rw [phase] at switched
    obtain ⟨halted, made, fetching⟩ := enabling.switch_settled instruction
    exact ⟨halted, switched.trans made, fetching⟩
  | prefixed | executing | locked =>
    rw [phase] at switched
    exact switched
  | servicing =>
    rw [phase] at switched
    exact switched.elim

/-- An instruction starts with the switches of a settled enabling. -/
theorem Tracks.entering {instruction : Instruction} {memory : μ}
    (tracks : processor.Tracks enabling)
    (made : processor.underway? memory = some instruction) :
    processor.entering = enabling.settled.switches false := by
  unfold Tracks at tracks
  unfold underway? at made
  unfold Processor.entering
  cases phase : processor.phase with
  | idle =>
    rw [phase] at tracks made
    obtain ⟨halted, switches, -⟩ := tracks
    have stopped : processor.regs.halted = halted := congrArg Switches.halted switches
    cases halted with
    | true => simp [stopped] at made
    | false => exact switches_promote switches
  | prefixed | executing =>
    rw [phase] at tracks
    exact tracks
  | servicing | locked =>
    rw [phase] at made
    cases made

/-- Halted between two instructions the processor stays as it is. -/
theorem Tracks.tick_of_halted (tracks : processor.Tracks enabling) (idle : processor.phase = .idle)
    (halted : processor.regs.halted = true) : processor.tick = .done ⟨.ok (), processor⟩ := by
  unfold Tracks at tracks
  rw [idle] at tracks
  obtain ⟨stopped, switches, fetching⟩ := tracks
  have same : processor.regs.halted = stopped := congrArg Switches.halted switches
  have settled : processor.regs.imePending = false := by
    have pending : processor.regs.imePending = decide (enabling = .pending) :=
      congrArg Switches.imePending switches
    rw [pending, decide_eq_false_iff_not]
    intro waits
    rw [same, fetching waits] at halted
    cases halted
  have unchanged : processor.promote = processor := by
    unfold promote
    simp [settled]
  rw [tick, idle, unchanged]
  simp [halted]

/-- The cycles of the dispatch of an interrupt keep the switches. -/
theorem always_dispatchCycle_switches (processor : Processor) (interrupt : Interrupt)
    (cycle : Nat) :
    (processor.dispatchCycle interrupt cycle).Always fun answer _ _ =>
      answer.processor.regs.switches = processor.regs.switches ∧
        (answer.processor.phase = .idle ∨
          answer.processor.phase = .servicing interrupt cycle) := by
  unfold dispatchCycle
  split
  · exact ⟨rfl, .inr rfl⟩
  · exact ⟨rfl, .inr rfl⟩
  · exact ⟨rfl, .inr rfl⟩
  · exact ⟨rfl, .inr rfl⟩
  · exact ⟨rfl, .inl rfl⟩

/-- A tick that is made of no instruction keeps the enabling of interrupts. -/
theorem tracks_tick_of_none {memory : μ} (tracks : processor.Tracks enabling)
    (made : processor.underway? memory = none) :
    (processor.tick.exec memory).value.processor.Tracks enabling := by
  have came := tracks
  unfold underway? at made
  unfold Tracks at came
  cases phase : processor.phase with
  | idle =>
    rw [phase] at made
    have halted : processor.regs.halted = true := by simpa using made
    rw [tracks.tick_of_halted phase halted]
    exact tracks
  | servicing interrupt cycle =>
    rw [phase] at came
    obtain ⟨rfl, switches⟩ := came
    have cycled := (processor.always_dispatchCycle_switches interrupt (cycle + 1)).exec memory
    rw [tick, phase]
    obtain ⟨kept, idle | servicing⟩ := cycled
    · unfold Tracks
      rw [idle]
      exact ⟨false, kept.trans switches, fun _ => rfl⟩
    · unfold Tracks
      rw [servicing]
      exact ⟨rfl, kept.trans switches⟩
  | locked fault =>
    rw [tick, phase]
    exact tracks
  | prefixed | executing =>
    rw [phase] at made
    cases made

/-- A tick tells what the enabling of interrupts becomes. -/
theorem tracks_tick (sound : processor.phase.Sound) (tracks : processor.Tracks enabling)
    (memory : μ) :
    (processor.tick.exec memory).value.processor.Tracks
      ((processor.signals memory .tick).foldl Enabling.after enabling) := by
  cases made : processor.underway? memory with
  | none =>
    have silent : processor.signals memory .tick = [] := by simp [signals, made]
    rw [silent]
    exact tracks_tick_of_none tracks made
  | some instruction =>
    have told : processor.signals memory .tick =
        if (processor.tick.exec memory).value.processor.phase = .idle then
          [.completed instruction]
        else
          [] := by
      simp [signals, made]
    have switched := switched_tick sound memory made
    rw [tracks.entering made] at switched
    rw [told]
    exact tracks_of_switched switched

/-- Resuming to fetch keeps the enabling of interrupts. -/
theorem tracks_resume (tracks : processor.Tracks enabling) (memory : μ) :
    (processor.resume.exec memory).value.Tracks enabling := by
  have resumed {switches : Switches} (same : processor.regs.switches = switches) :
      { processor.regs with halted := false }.switches = { switches with halted := false } :=
    congrArg (fun switches : Switches => { switches with halted := false }) same
  rw [(processor.exec_resume memory).1]
  unfold Tracks at *
  simp only [withRegs]
  cases phase : processor.phase with
  | idle =>
    rw [phase] at tracks
    obtain ⟨halted, switches, -⟩ := tracks
    exact ⟨false, resumed switches, fun _ => rfl⟩
  | prefixed | executing | locked =>
    rw [phase] at tracks
    exact resumed tracks
  | servicing =>
    rw [phase] at tracks
    exact ⟨tracks.1, resumed tracks.2⟩

/-- A request tells whether it is accepted, and then interrupts are disabled. -/
theorem tracks_request (tracks : processor.Tracks enabling) (interrupt : Interrupt)
    (memory : μ) :
    ((processor.request interrupt).exec memory).value.processor.Tracks
      ((processor.signals memory (.request interrupt)).foldl Enabling.after enabling) := by
  unfold request signals
  cases phase : processor.phase with
  | idle => exact ⟨rfl, rfl⟩
  | prefixed | executing | servicing | locked => exact tracks

/-- A call that leaves the register file to the processor tells what the enabling of interrupts
becomes. -/
theorem tracks_after (sound : processor.phase.Sound) (tracks : processor.Tracks enabling)
    {call : Call} (kept : call.rewrites = false) (memory : μ) :
    ((processor.after call).exec memory).value.Tracks
      ((processor.signals memory call).foldl Enabling.after enabling) := by
  cases call with
  | tick =>
    have ticked := tracks_tick sound tracks memory
    simp only [after, Bus.exec_bind, Bus.pure_eq_done, Bus.exec_done, Execution.value_behind]
    exact ticked
  | request interrupt =>
    have asked := tracks_request tracks interrupt memory
    simp only [after, Bus.exec_bind, Bus.pure_eq_done, Bus.exec_done, Execution.value_behind]
    exact asked
  | resume => exact tracks_resume tracks memory
  | reset model => exact ⟨false, rfl, fun _ => rfl⟩
  | rewrite regs => cases kept

/-! ## Runs -/

/-- The processors that calls bring about are reachable. -/
theorem Driven.reachable {told : List Signal} (driven : Driven processor told) :
    Reachable processor := by
  induction driven with
  | boot model => exact .boot model
  | call driven kept memory reachable => exact reachable.call _ memory

/-- A processor that calls bring about has come from the enabling that they told. -/
theorem Driven.tracks {told : List Signal} (driven : Driven processor told) :
    processor.Tracks (told.foldl Enabling.after .off) := by
  induction driven with
  | boot model => exact ⟨false, by cases model <;> rfl, fun _ => rfl⟩
  | call driven kept memory tracks =>
    rw [List.foldl_append]
    exact tracks_after driven.reachable.sound tracks kept memory

/-- Whether the call has nothing to do with the enabling of interrupts: the processor is woken, a
request is refused, or a tick passes while the processor is halted or dispatches an interrupt. -/
def passes (processor : Processor) : Call → Bool
  | .resume => true
  | .request _ => !processor.isIdle
  | .tick =>
    match processor.phase with
    | .idle => processor.regs.halted
    | .servicing .. => true
    | .prefixed | .executing .. | .locked _ => false
  | .reset _ | .rewrite _ => false

/-- The latches of a processor are those of an enabling. It is about to be on only between two
instructions without a halt, a halt is seen between two instructions alone, and there the enabling
is the one that the processor has come from. -/
theorem Tracks.exists_switches (tracks : processor.Tracks enabling) :
    ∃ seen halted, processor.regs.switches = Enabling.switches seen halted ∧
      (seen = .pending → processor.phase = .idle ∧ halted = false) ∧
      (halted = true → processor.phase = .idle) ∧
      (processor.phase = .idle → seen = enabling) ∧
      ∀ interrupt cycle, processor.phase = .servicing interrupt cycle →
        enabling = .off ∧ seen = .off := by
  unfold Tracks at tracks
  cases phase : processor.phase with
  | idle =>
    rw [phase] at tracks
    obtain ⟨halted, switches, fetching⟩ := tracks
    exact ⟨enabling, halted, switches, fun waits => ⟨rfl, fetching waits⟩, fun _ => rfl,
      fun _ => rfl, nofun⟩
  | prefixed | executing | locked =>
    rw [phase] at tracks
    refine ⟨enabling.settled, false, tracks, fun waits => ?_, nofun, nofun, nofun⟩
    cases enabling <;> cases waits
  | servicing =>
    rw [phase] at tracks
    exact ⟨.off, false, tracks.2, nofun, nofun, nofun, fun _ _ _ => ⟨tracks.1, rfl⟩⟩

/-- A call that has nothing to do with the enabling of interrupts keeps it. -/
theorem Tracks.of_passes (tracks : processor.Tracks enabling) {call : Call}
    (passing : processor.passes call = true) (memory : μ) :
    ((processor.after call).exec memory).value.regs.ime = processor.regs.ime ∧
      ((processor.after call).exec memory).value.regs.imePending = processor.regs.imePending := by
  unfold passes at passing
  cases call with
  | resume =>
    simp only [after, (processor.exec_resume memory).1]
    exact ⟨rfl, rfl⟩
  | request interrupt =>
    unfold after request
    cases phase : processor.phase with
    | idle => simp [isIdle, phase] at passing
    | prefixed | executing | servicing | locked => exact ⟨rfl, rfl⟩
  | tick =>
    simp only [after, Bus.exec_bind, Bus.pure_eq_done, Bus.exec_done, Execution.value_behind]
    cases phase : processor.phase with
    | idle =>
      simp only [phase] at passing
      rw [tracks.tick_of_halted phase passing]
      exact ⟨rfl, rfl⟩
    | servicing interrupt cycle =>
      have cycled := (processor.always_dispatchCycle_switches interrupt (cycle + 1)).exec memory
      rw [tick, phase]
      exact ⟨congrArg Switches.ime cycled.1, congrArg Switches.imePending cycled.1⟩
    | prefixed | executing | locked => simp [phase] at passing
  | reset | rewrite => cases passing

/-- Without a completed instruction interrupts do not become enabled. -/
theorem foldl_ne_on {told : List Signal} (start : enabling ≠ .on)
    (incomplete : ∀ instruction, .completed instruction ∉ told) :
    told.foldl Enabling.after enabling ≠ .on := by
  induction told generalizing enabling with
  | nil => exact start
  | cons signal told ih =>
    have rest := fun instruction listed =>
      incomplete instruction (List.mem_cons_of_mem signal listed)
    cases signal with
    | completed instruction => exact absurd List.mem_cons_self (incomplete instruction)
    | accepted | reset => exact @ih .off nofun rest

/-- The enabling of interrupts is what the calls told, whatever they are and over whatever memory,
as long as they leave the register file to the processor. Interrupts are never enabled and about to
be at once, and about to be only between two instructions without a halt; a halt itself is seen
between two instructions alone. Between two instructions the latches say what was told, in the
dispatch of an interrupt they are off, and calls that have nothing to do with them keep them. So
once interrupts were off, they are not seen enabled before an instruction behind the enabling one
has completed, and not at all if that one disables them. -/
theorem Driven.refines_enabling {told : List Signal} (driven : Driven processor told) :
    let enabling := told.foldl Enabling.after .off
    ¬ (processor.regs.ime = true ∧ processor.regs.imePending = true) ∧
    (processor.regs.imePending = true →
      processor.phase = .idle ∧ processor.regs.halted = false) ∧
    (processor.regs.halted = true → processor.phase = .idle) ∧
    (processor.phase = .idle →
      (processor.regs.ime = true ↔ enabling = .on) ∧
        (processor.regs.imePending = true ↔ enabling = .pending)) ∧
    (∀ interrupt cycle, processor.phase = .servicing interrupt cycle →
      enabling = .off ∧ processor.regs.ime = false ∧ processor.regs.imePending = false) ∧
    (∀ call, processor.passes call = true → ∀ {μ : Type} [Memory μ] (memory : μ),
      ((processor.after call).exec memory).value.regs.ime = processor.regs.ime ∧
        ((processor.after call).exec memory).value.regs.imePending =
          processor.regs.imePending) ∧
    (∀ early late, told = early ++ .completed .ei :: late →
      early.foldl Enabling.after .off = .off → (∀ instruction, .completed instruction ∉ late) →
        processor.phase = .idle → processor.regs.ime = false) ∧
    ∀ early middle late, told = early ++ .completed .ei :: (middle ++ .completed .di :: late) →
      (∀ instruction, .completed instruction ∉ middle ++ late) →
        processor.phase = .idle → processor.regs.ime = false := by
  intro enabling
  have tracks : processor.Tracks enabling := driven.tracks
  obtain ⟨seen, halted, switches, waits, stops, shows, serves⟩ := tracks.exists_switches
  have ime : processor.regs.ime = decide (seen = .on) := congrArg Switches.ime switches
  have pending : processor.regs.imePending = decide (seen = .pending) :=
    congrArg Switches.imePending switches
  have stopped : processor.regs.halted = halted := congrArg Switches.halted switches
  have disabled (idle : processor.phase = .idle) (incomplete : enabling ≠ .on) :
      processor.regs.ime = false := by
    rw [ime, shows idle]
    exact decide_eq_false incomplete
  refine ⟨?_, ?_, ?_, ?_, ?_, ?_, ?_, ?_⟩
  · rintro ⟨enabled, waiting⟩
    rw [ime, decide_eq_true_iff] at enabled
    rw [pending, decide_eq_true_iff, enabled] at waiting
    cases waiting
  · intro waiting
    rw [pending, decide_eq_true_iff] at waiting
    rw [stopped]
    exact waits waiting
  · rw [stopped]
    exact stops
  · intro idle
    rw [ime, pending, shows idle, decide_eq_true_iff, decide_eq_true_iff]
    exact ⟨Iff.rfl, Iff.rfl⟩
  · intro interrupt cycle phase
    obtain ⟨left, rfl⟩ := serves interrupt cycle phase
    exact ⟨left, ime, pending⟩
  · exact fun call passing _ _ memory => tracks.of_passes passing memory
  · rintro early late rfl start incomplete idle
    refine disabled idle ?_
    simp only [enabling, List.foldl_append, List.foldl_cons, start]
    exact foldl_ne_on nofun incomplete
  · rintro early middle late rfl incomplete idle
    refine disabled idle ?_
    simp only [enabling, List.foldl_append, List.foldl_cons]
    exact foldl_ne_on nofun fun instruction listed =>
      incomplete instruction (List.mem_append_right middle listed)

/-- Interrupts that an instruction enables are seen enabled behind the next one, not in front of
it. -/
theorem enabling_of_ei :
    let ram := Ram.ofProgram 0x0100 [0xFB]
    ∃ before after, Driven before [.completed .ei] ∧ before.phase = .idle ∧
      before.regs.ime = false ∧ Driven after [.completed .ei, .completed .nop] ∧
      after = ((before.after .tick).exec ram).value ∧ after.phase = .idle ∧
      after.regs.ime = true := by
  intro ram
  have enabling : (afterBoot .dmgAbc).signals ram .tick = [.completed .ei] := by decide +kernel
  have before := (Driven.boot .dmgAbc).call (rfl : Call.tick.rewrites = false) ram
  rw [enabling] at before
  have following : (((afterBoot .dmgAbc).after .tick).exec ram).value.signals ram .tick =
      [.completed .nop] := by decide +kernel
  have after := before.call (rfl : Call.tick.rewrites = false) ram
  rw [following] at after
  have idle : (((afterBoot .dmgAbc).after .tick).exec ram).value.phase = .idle := by
    decide +kernel
  have still : (((((afterBoot .dmgAbc).after .tick).exec ram).value.after .tick).exec
      ram).value.phase = .idle := by decide +kernel
  obtain ⟨-, -, -, -, -, -, unseen, -⟩ := before.refines_enabling
  obtain ⟨-, -, -, shown, -⟩ := after.refines_enabling
  exact ⟨_, _, before, idle, unseen [] [] rfl rfl nofun idle, after, rfl, still,
    (shown still).1.mpr rfl⟩

end Processor

end Sm83
