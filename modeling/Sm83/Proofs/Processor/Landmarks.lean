import Sm83.Proofs.Listing.Image
import Sm83.Proofs.Processor.Lockup
import Sm83.Proofs.Processor.Traffic
import Sm83.Proofs.Schedule.Landmarks

/-!
# What ticks report of where the program is

The landmarks of a tick are known from the processor and the memory before it: the instruction that
starts, with the address of its first byte and what a listing reads there, behind it for a HALT and
a STOP where fetching is suspended, and where a relative jump leads. What they depend on is kept by
every command of a run: behind a prefix byte that byte still stands, and the start of a relative
jump that executes was reported last.
-/

namespace Sm83

/-- The instruction of a line is settled by its first byte or, behind the prefix byte, by its
second. -/
theorem Line.instruction_ofImage (image : Array UInt8) (address : UInt16) :
    (Line.ofImage image address).instruction =
      if imageByte image address = prefixByte then
        Decode.prefixed (imageByte image (address + 1))
      else
        Decode.plain (imageByte image address) := by
  have completed (fetch : StateM UInt16 UInt8) (opcode : List UInt8) (instruction : Instruction)
      (cursor : UInt16) :
      ((complete fetch opcode instruction).run cursor).1.instruction = instruction := by
    unfold complete
    split <;> rfl
  unfold ofImage next
  by_cases isPrefix : imageByte image address = prefixByte
  · simp [fetchImage, isPrefix, completed]
  · simp [fetchImage, isPrefix, completed]

namespace Processor

open Phase

variable {processor : Processor} {ram : Ram} {opcode : Opcode} {cycle : Nat}
  {activation : Activation} {command : Command} {commands : List Command}

/-! ## One step of an opcode -/

/-- A step that is due reports the landmarks of its cycle. -/
theorem always_advance_landmarks (processor : Processor) (defined : opcode.instruction ≠ .invalid)
    (due : activation.violation opcode.lastCycle cycle = none) :
    (processor.advance opcode cycle activation).Always fun _ _ events =>
      events.filter Event.isLandmark =
        opcode.instruction.landmarks cycle
          ⟨processor.regs, (activation.entering cycle).latch⟩ := by
  obtain ⟨work, listed, step⟩ := Opcode.step_of_due processor.regs defined due
  unfold advance
  rw [step, Bus.always_bind, Opcode.always_carryOut]
  apply (opcode.instruction.landmarks_cycles _ listed ⟨processor.regs, _⟩).mono
  rintro ⟨outcome, context⟩ accesses events landmarks
  rcases outcome with fault | _ | _
  · simpa [Bus.log, Event.isLandmark] using landmarks
  · simpa using landmarks
  · simpa using landmarks

/-- What a step of a relative jump leaves: it moves past the offset with its second cycle, and by
the offset with its last. -/
theorem always_advance_jr (processor : Processor) {condition : Option Condition}
    (jumps : opcode.instruction = .jr condition)
    (due : activation.violation opcode.lastCycle cycle = none) :
    (processor.advance opcode cycle activation).Always fun answer _ _ =>
      match answer.processor.phase with
      | .executing .. =>
        answer.processor.regs.pc = processor.regs.pc + if cycle = 1 then 0 else 1
      | _ => cycle = 3 → answer.processor.regs.pc =
          processor.regs.pc + Word.ofOffset (activation.entering cycle).latch.low := by
  have defined : opcode.instruction ≠ .invalid := by simp [jumps]
  obtain ⟨work, listed, step⟩ := Opcode.step_of_due processor.regs defined due
  rw [jumps] at listed
  unfold advance
  rw [step, Bus.always_bind, Opcode.always_carryOut]
  apply Bus.Always.mono (Instruction.succeeds_cycles_jr condition _ listed ⟨processor.regs, _⟩)
  rintro ⟨outcome, context⟩ accesses events moved
  rcases outcome with fault | _ | _
  · exact moved.elim
  · exact moved
  · exact moved

/-! ## One tick -/

/-- The landmarks with which an instruction starts: what starts at the address and, for a HALT or a
STOP, that fetching is suspended there. -/
def opening (address : UInt16) (instruction : Instruction) : List Event :=
  .dispatched address instruction ::
    match instruction with
    | .halt => [.halted address]
    | .stop => [.stopped address]
    | _ => []

/-- The landmarks that a tick reports: the instruction that starts, with the address of its first
byte and what a listing reads there, or where a relative jump leads. -/
def landmarks (processor : Processor) (ram : Ram) : List Event :=
  let pc := processor.regs.pc
  match processor.phase with
  | .idle =>
    if processor.regs.halted ∨ ram.read pc = prefixByte then
      []
    else
      opening pc (Line.ofImage ram.toArray pc).instruction
  | .prefixed => opening (pc - 1) (Line.ofImage ram.toArray (pc - 1)).instruction
  | .executing ⟨_, .jr _⟩ 2 activation =>
    [.jumped activation.latch.low pc (pc + Word.ofOffset activation.latch.low)]
  | _ => []

/-- Only a HALT starts with the report of one. -/
theorem halted_mem_opening {address start : UInt16} {instruction : Instruction} :
    .halted address ∈ opening start instruction ↔ instruction = .halt ∧ address = start := by
  cases instruction <;> simp [opening]

/-- Only a STOP starts with the report of one. -/
theorem stopped_mem_opening {address start : UInt16} {instruction : Instruction} :
    .stopped address ∈ opening start instruction ↔ instruction = .stop ∧ address = start := by
  cases instruction <;> simp [opening]

/-- No instruction starts with the report of a jump. -/
theorem jumped_not_mem_opening {offset : UInt8} {source target start : UInt16}
    {instruction : Instruction} : .jumped offset source target ∉ opening start instruction := by
  cases instruction <;> simp [opening]

/-- An instruction behind the prefix starts with no further landmark. -/
theorem opening_prefixed (address : UInt16) (code : UInt8) :
    opening address (Decode.prefixed code) = [.dispatched address (Decode.prefixed code)] := by
  unfold Decode.prefixed
  split <;> rfl

/-- Whether the next tick fetches an opcode, or would if the processor were not halted. -/
def awaitsOpcode (processor : Processor) : Bool :=
  match processor.phase with
  | .idle | .prefixed => true
  | _ => false

/-- No instruction starts in the middle of one or of a dispatch, or while the processor is locked
up. -/
theorem filter_isDispatch_landmarks (busy : processor.awaitsOpcode = false) (ram : Ram) :
    (processor.landmarks ram).filter Event.isDispatch = [] := by
  unfold awaitsOpcode at busy
  unfold landmarks
  split <;> simp_all [Event.isDispatch]

/-- The landmarks of the tick that fetches an opcode of the plain space. -/
theorem landmarks_of_plain (idle : processor.phase = .idle)
    (fetching : processor.regs.halted = false)
    (plain : ram.read processor.regs.pc ≠ prefixByte) :
    processor.landmarks ram =
      opening processor.regs.pc (Decode.plain (ram.read processor.regs.pc)) := by
  simp [landmarks, idle, fetching, plain, Line.instruction_ofImage]

/-- The landmarks of the tick that fetches the byte behind the prefix. -/
theorem landmarks_of_prefixed (phase : processor.phase = .prefixed)
    (behind : ram.read (processor.regs.pc - 1) = prefixByte) :
    processor.landmarks ram =
      opening (processor.regs.pc - 1) (Decode.prefixed (ram.read processor.regs.pc)) := by
  have next : processor.regs.pc - 1 + 1 = processor.regs.pc := UInt16.sub_add_cancel _ _
  simp [landmarks, phase, behind, next, Line.instruction_ofImage]

/-- The first step of a plain opcode reports where a HALT and a STOP are. -/
theorem filter_events_advance_plain {code : UInt8} {address : UInt16}
    (behind : processor.regs.pc = address + 1) :
    .dispatched address (Decode.plain code) ::
        ((processor.advance ⟨⟨code, false⟩, Decode.plain code⟩ 1 {}).exec ram).events.filter
          Event.isLandmark =
      opening address (Decode.plain code) := by
  have start : processor.regs.pc - 1 = address := by rw [behind, UInt16.add_sub_cancel]
  generalize Decode.plain code = instruction
  by_cases undefined : instruction = .invalid
  · rw [advance_of_invalid undefined, undefined]
    rfl
  · have step := (@always_advance_landmarks ⟨⟨code, false⟩, instruction⟩ 1 {} processor undefined
      (Opcode.due_first _)).exec ram
    rw [step]
    cases instruction <;> simp [Instruction.landmarks, opening, start]

/-- The first step of an opcode behind the prefix reports nothing further. -/
theorem filter_events_advance_prefixed (processor : Processor) (code : UInt8) (address : UInt16) :
    .dispatched address (Decode.prefixed code) ::
        ((processor.advance ⟨⟨code, true⟩, Decode.prefixed code⟩ 1 {}).exec ram).events.filter
          Event.isLandmark =
      opening address (Decode.prefixed code) := by
  have step := (@always_advance_landmarks ⟨⟨code, true⟩, Decode.prefixed code⟩ 1 {} processor
    (Decode.prefixed_ne_invalid code) (Opcode.due_first _)).exec ram
  rw [step, opening_prefixed]
  unfold Decode.prefixed
  split <;> rfl

/-- Before a tick of a run: what is known of the processor and the memory where these starts of
instructions were reported so far. -/
structure Trailing (processor : Processor) (ram : Ram) (lines : List Event) : Prop where
  /-- The phase is sound. -/
  sound : processor.phase.Sound
  /-- Behind the prefix byte, that byte was read where it still stands. -/
  behind : processor.phase = .prefixed → ram.read (processor.regs.pc - 1) = prefixByte
  /-- The start of a relative jump that executes was reported last, and the program counter has
  moved on from it by as many bytes as cycles were made. -/
  jumping : ∀ {opcode cycle activation condition},
    processor.phase = .executing opcode cycle activation → opcode.instruction = .jr condition →
      lines.getLast? =
        some (.dispatched (processor.regs.pc - UInt16.ofNat cycle) (.jr condition))

variable {lines : List Event}

/-- A fetched byte is the one before the program counter. -/
theorem pc_skipByte_promote (processor : Processor) :
    processor.promote.skipByte.regs.pc = processor.regs.pc + 1 := by
  simp [skipByte, withRegs]

/-- The tick that fetches an opcode of the plain space reports how its instruction starts. -/
theorem landmarks_tick_of_idle (idle : processor.phase = .idle) :
    (processor.tick.exec ram).events.filter Event.isLandmark = processor.landmarks ram := by
  cases halted : processor.regs.halted with
  | true => simp [landmarks, tick, idle, halted]
  | false =>
    by_cases isPrefix : ram.read processor.regs.pc = prefixByte
    · have fetched : processor.tick.exec ram = _ := exec_tick_of_prefix idle halted isPrefix
      rw [fetched]
      simp [landmarks, idle, isPrefix]
    · rw [exec_tick_of_plain idle halted isPrefix, OpcodeTable.lookup_standard_plain,
        landmarks_of_plain idle halted isPrefix,
        ← filter_events_advance_plain (pc_skipByte_promote processor)]
      rfl

/-- The tick that fetches the byte behind the prefix reports how its instruction starts, with the
address of the prefix byte. -/
theorem Trailing.landmarks_tick_of_prefixed (trailing : processor.Trailing ram lines)
    (phase : processor.phase = .prefixed) :
    (processor.tick.exec ram).events.filter Event.isLandmark = processor.landmarks ram := by
  rw [exec_tick_of_prefixed phase, OpcodeTable.lookup_standard_prefixed,
    landmarks_of_prefixed phase (trailing.behind phase),
    ← filter_events_advance_prefixed processor.skipByte]
  rfl

/-- A tick in the middle of an opcode reports where a relative jump leads. -/
theorem Trailing.landmarks_tick_of_executing (trailing : processor.Trailing ram lines)
    (phase : processor.phase = .executing opcode cycle activation) :
    (processor.tick.exec ram).events.filter Event.isLandmark = processor.landmarks ram := by
  have sound := trailing.sound
  rw [phase] at sound
  have underway : Underway opcode cycle activation := sound
  have step := (always_advance_landmarks processor underway.defined underway.due).exec ram
  have started := underway.started
  rw [tick_of_executing phase, step, Activation.entering_of_ne_one _ (by omega)]
  obtain ⟨encoding, instruction⟩ := opcode
  match cycle, started with
  | 1, _ => cases instruction <;> simp [landmarks, phase, Instruction.landmarks]
  | 2, _ => cases instruction <;> simp [landmarks, phase, Instruction.landmarks]
  | cycle + 3, _ => cases instruction <;> simp [landmarks, phase, Instruction.landmarks]

/-- A cycle of the dispatch of an interrupt reports nothing, and starts no instruction. -/
theorem always_dispatchCycle_silent (processor : Processor) (interrupt : Interrupt) (cycle : Nat) :
    (processor.dispatchCycle interrupt cycle).Always fun answer _ events =>
      events = [] ∧
        (answer.processor.phase = .idle ∨
          answer.processor.phase = .servicing interrupt cycle) := by
  unfold dispatchCycle
  split <;> simp [Bus.writeByte]

/-- A tick reports the landmarks that it should, and no others. -/
theorem Trailing.landmarks_tick (trailing : processor.Trailing ram lines) :
    (processor.tick.exec ram).events.filter Event.isLandmark = processor.landmarks ram := by
  cases phase : processor.phase with
  | idle => exact landmarks_tick_of_idle phase
  | prefixed => exact trailing.landmarks_tick_of_prefixed phase
  | executing opcode cycle activation => exact trailing.landmarks_tick_of_executing phase
  | servicing interrupt cycle =>
    have silent := (processor.always_dispatchCycle_silent interrupt (cycle + 1)).exec ram
    rw [tick, phase, silent.1]
    simp [landmarks, phase]
  | locked fault => simp [landmarks, tick, phase]

/-! ## What a tick leaves -/

/-- A step leaves the opcode that was stepped, if any, and no other. -/
theorem always_advance_onward (processor : Processor) (opcode : Opcode) (cycle : Nat)
    (activation : Activation) :
    (processor.advance opcode cycle activation).Always fun answer _ _ =>
      match answer.processor.phase with
      | .idle | .locked _ => True
      | .executing other reached _ => other = opcode ∧ reached = cycle
      | .prefixed | .servicing .. => False := by
  unfold advance
  rw [Bus.always_bind]
  apply Bus.always_of_forall
  rintro ⟨outcome, after, regs⟩ accesses events
  rcases outcome with fault | _ | _ <;> simp [Bus.log]

/-- Neither behind the prefix byte nor in an opcode, only the phase has to be sound. -/
theorem trailing_of_settled (sound : processor.phase.Sound)
    (unprefixed : processor.phase ≠ .prefixed)
    (settled : ∀ opcode cycle activation, processor.phase ≠ .executing opcode cycle activation) :
    processor.Trailing ram lines where
  sound := sound
  behind phase := absurd phase unprefixed
  jumping phase _ := absurd phase (settled _ _ _)

/-- A step that is due goes on from the start that was reported last. -/
theorem trailing_advance {start : UInt16} (listed : opcode ∈ OpcodeTable.standard.entries)
    (defined : opcode.instruction ≠ .invalid)
    (due : activation.violation opcode.lastCycle cycle = none)
    (told : ∀ {condition}, opcode.instruction = .jr condition →
      lines.getLast? = some (.dispatched start (.jr condition)))
    (moves : (processor.regs.pc + if cycle = 1 then 0 else 1) = start + UInt16.ofNat cycle) :
    let advanced := (processor.advance opcode cycle activation).exec ram
    advanced.value.processor.Trailing advanced.memory lines := by
  intro advanced
  have sound : advanced.value.processor.phase.Sound :=
    ((always_advance_sound listed defined due).exec ram).2
  have onward := (processor.always_advance_onward opcode cycle activation).exec ram
  cases phase : advanced.value.processor.phase with
  | executing other reached after =>
    rw [phase] at onward
    obtain ⟨rfl, rfl⟩ := onward
    refine ⟨sound, fun impossible => ?_, fun executes jumps => ?_⟩
    · rw [phase] at impossible
      cases impossible
    · rw [phase] at executes
      cases executes
      have moved := (processor.always_advance_jr jumps due).exec ram
      rw [phase] at moved
      have behind : advanced.value.processor.regs.pc - UInt16.ofNat reached = start := by
        rw [moved, moves, UInt16.add_sub_cancel]
      rw [behind]
      exact told jumps
  | idle | locked =>
    exact trailing_of_settled sound (by simp [phase]) (by simp [phase])
  | prefixed | servicing =>
    rw [phase] at onward
    exact onward.elim

/-- Of the landmarks with which an instruction starts, one reports the start. -/
@[simp] theorem filter_isDispatch_opening (address : UInt16) (instruction : Instruction) :
    (opening address instruction).filter Event.isDispatch =
      [.dispatched address instruction] := by
  cases instruction <;> rfl

/-- The starts of instructions that a tick reports are those among its landmarks. -/
theorem Trailing.filter_isDispatch_tick (trailing : processor.Trailing ram lines) :
    (processor.tick.exec ram).events.filter Event.isDispatch =
      (processor.landmarks ram).filter Event.isDispatch := by
  rw [← trailing.landmarks_tick, Event.filter_isDispatch_filter]

/-- The start of the instruction that is fetched between two others is the last one reported. -/
theorem Trailing.after_idle (trailing : processor.Trailing ram lines)
    (idle : processor.phase = .idle) :
    let ticked := processor.tick.exec ram
    ticked.value.processor.Trailing ticked.memory
      (lines ++ ticked.events.filter Event.isDispatch) := by
  have sound := ((always_tick trailing.sound).exec ram).1
  have told := trailing.filter_isDispatch_tick
  intro ticked
  cases halted : processor.regs.halted with
  | true =>
    have phase : ticked.value.processor.phase = .idle := by simp [ticked, tick, idle, halted]
    exact trailing_of_settled sound (by simp [phase]) (by simp [phase])
  | false =>
    by_cases isPrefix : ram.read processor.regs.pc = prefixByte
    · have fetched : ticked = _ := exec_tick_of_prefix idle halted isPrefix
      have moved : processor.promote.skipByte.regs.pc - 1 = processor.regs.pc := by
        rw [pc_skipByte_promote, UInt16.add_sub_cancel]
      refine ⟨sound, fun _ => ?_, fun executes => ?_⟩
      · rw [fetched]
        simpa [moved] using isPrefix
      · rw [fetched] at executes
        cases executes
    · have fetched : ticked = _ := exec_tick_of_plain idle halted isPrefix
      rw [OpcodeTable.lookup_standard_plain] at fetched
      rw [landmarks_of_plain idle halted isPrefix, filter_isDispatch_opening] at told
      by_cases undefined : Decode.plain (ram.read processor.regs.pc) = .invalid
      · have locks : ticked.value.processor.phase =
            .locked (.undefinedOpcode ⟨ram.read processor.regs.pc, false⟩) := by
          rw [fetched, advance_of_invalid undefined]
          rfl
        exact trailing_of_settled sound (by simp [locks]) (by simp [locks])
      · have listed := OpcodeTable.standard.lookup_mem_entries ⟨ram.read processor.regs.pc, false⟩
        rw [OpcodeTable.lookup_standard_plain] at listed
        have last {condition : Option Condition}
            (jumps : Decode.plain (ram.read processor.regs.pc) = .jr condition) :
            (lines ++ [Event.dispatched processor.regs.pc
              (Decode.plain (ram.read processor.regs.pc))]).getLast? =
                some (.dispatched processor.regs.pc (.jr condition)) := by
          rw [List.getLast?_concat, jumps]
        rw [told, fetched]
        exact trailing_advance listed undefined (Opcode.due_first _) last
          (by simp [pc_skipByte_promote])

/-- No instruction behind the prefix is a relative jump. -/
theorem prefixed_ne_jr (code : UInt8) (condition : Option Condition) :
    Decode.prefixed code ≠ .jr condition := by
  unfold Decode.prefixed
  split <;> exact Instruction.noConfusion

/-- Behind the prefix byte no relative jump starts. -/
theorem trailing_after_prefixed (phase : processor.phase = .prefixed) :
    let ticked := processor.tick.exec ram
    ticked.value.processor.Trailing ticked.memory lines := by
  have listed := OpcodeTable.standard.lookup_mem_entries ⟨ram.read processor.regs.pc, true⟩
  intro ticked
  have fetched : ticked = _ := exec_tick_of_prefixed phase
  rw [OpcodeTable.lookup_standard_prefixed] at fetched listed
  rw [fetched]
  exact trailing_advance listed (Decode.prefixed_ne_invalid _) (Opcode.due_first _)
    (fun jumps => absurd jumps (prefixed_ne_jr _ _)) (UInt16.add_zero _)

/-- In the middle of an opcode its start stays the last one reported. -/
theorem Trailing.after_executing (trailing : processor.Trailing ram lines)
    (phase : processor.phase = .executing opcode cycle activation) :
    let ticked := processor.tick.exec ram
    ticked.value.processor.Trailing ticked.memory lines := by
  have sound := trailing.sound
  rw [phase] at sound
  have underway : Underway opcode cycle activation := sound
  have started := underway.started
  intro ticked
  have advanced : ticked =
      (processor.advance opcode (cycle + 1) activation).exec ram := by
    rw [← tick_of_executing phase]
  rw [advanced]
  refine trailing_advance underway.listed underway.defined underway.due
    (fun jumps => trailing.jumping phase jumps) ?_
  rw [if_neg (by omega), UInt16.ofNat_add]
  grind

/-- A tick keeps what is known of a run, with the starts of instructions that it reports. -/
theorem Trailing.after_tick (trailing : processor.Trailing ram lines) :
    let ticked := processor.tick.exec ram
    ticked.value.processor.Trailing ticked.memory
      (lines ++ ticked.events.filter Event.isDispatch) := by
  have sound := ((always_tick trailing.sound).exec ram).1
  intro ticked
  cases phase : processor.phase with
  | idle => exact trailing.after_idle phase
  | prefixed => exact trailing_after_prefixed phase
  | executing opcode cycle activation =>
    have busy : processor.awaitsOpcode = false := by simp [awaitsOpcode, phase]
    rw [trailing.filter_isDispatch_tick, filter_isDispatch_landmarks busy, List.append_nil]
    exact trailing.after_executing phase
  | servicing interrupt cycle =>
    have left := ((processor.always_dispatchCycle_silent interrupt (cycle + 1)).exec ram).2
    have dispatching : ticked = (processor.dispatchCycle interrupt (cycle + 1)).exec ram := by
      simp only [ticked, tick, phase]
    rw [← dispatching] at left
    rcases left with idle | servicing
    · exact trailing_of_settled sound (by simp [idle]) (by simp [idle])
    · exact trailing_of_settled sound (by simp [servicing]) (by simp [servicing])
  | locked fault =>
    have stays : ticked.value.processor = processor := by simp [ticked, tick, phase]
    exact trailing_of_settled sound (by simp [stays, phase]) (by simp [stays, phase])

/-! ## Commands -/

/-- Whether the command is a tick, a request or resumes fetching. -/
def Command.isHosted : Command → Bool
  | .call .tick | .call .resume | .call (.request _) => true
  | .call (.reset _) | .call (.rewrite _) | .run => false

/-- Obeying the command to tick does what a tick does. -/
theorem exec_obey_tick (processor : Processor) (ram : Ram) :
    let done := (processor.obey (.call .tick)).exec ram
    let ticked := processor.tick.exec ram
    done.value.processor = ticked.value.processor ∧ done.memory = ticked.memory ∧
      done.accesses = ticked.accesses ∧ done.events = ticked.events := by
  simp [obey, Bus.exec_bind, Answer.map, Execution.behind]

/-- A request and resuming to fetch report no landmark and make no access. They leave the phase and
the program counter alone, unless a dispatch starts between two instructions. -/
theorem exec_obey_between (hosted : command.isHosted = true) (between : command ≠ .call .tick)
    (processor : Processor) (ram : Ram) :
    let done := (processor.obey command).exec ram
    let left := done.value.processor
    (done.events.filter Event.isLandmark = [] ∧ done.accesses = [] ∧ done.memory = ram) ∧
      (left.phase = processor.phase ∧ left.regs.pc = processor.regs.pc ∨
        processor.phase = .idle ∧ ∃ interrupt, left.phase = .servicing interrupt 0) := by
  cases command with
  | run => cases hosted
  | call call =>
    cases call with
    | tick => exact absurd rfl between
    | reset | rewrite => cases hosted
    | resume =>
      simp only [obey, after, resume]
      split <;> exact ⟨⟨rfl, rfl, rfl⟩, .inl ⟨rfl, rfl⟩⟩
    | request interrupt =>
      simp only [obey, request]
      cases phase : processor.phase with
      | idle => exact ⟨⟨rfl, rfl, rfl⟩, .inr ⟨rfl, interrupt, rfl⟩⟩
      | _ => exact ⟨⟨rfl, rfl, rfl⟩, .inl ⟨phase, rfl⟩⟩

/-- A command keeps what is known of a run, with the starts of instructions that it reports. -/
theorem Trailing.after_command (trailing : processor.Trailing ram lines)
    (hosted : command.isHosted = true) :
    let done := (processor.obey command).exec ram
    done.value.processor.Trailing done.memory
      (lines ++ done.events.filter Event.isDispatch) := by
  intro done
  by_cases ticks : command = .call .tick
  · obtain ⟨left, memory, -, events⟩ := processor.exec_obey_tick ram
    simp only [done, ticks, left, memory, events]
    exact trailing.after_tick
  · obtain ⟨⟨unmarked, -, memory⟩, left⟩ := exec_obey_between hosted ticks processor ram
    have silent : done.events.filter Event.isDispatch = [] := by
      rw [← Event.filter_isDispatch_filter, unmarked]
      rfl
    rw [silent, memory, List.append_nil]
    rcases left with ⟨phase, pc⟩ | ⟨-, interrupt, phase⟩
    · have sound := trailing.sound
      have behind := trailing.behind
      have jumping := @trailing.jumping
      rw [← phase] at sound behind jumping
      rw [← pc] at behind jumping
      exact ⟨sound, behind, jumping⟩
    · have servicing : done.value.processor.phase = .servicing interrupt 0 := phase
      have sound : done.value.processor.phase.Sound := by
        rw [servicing]
        exact Nat.zero_le 4
      exact trailing_of_settled sound (by simp [servicing]) (by simp [servicing])

/-- The commands of a run keep what is known of it, with the starts of instructions that they
report. -/
theorem Trailing.after_commands (trailing : processor.Trailing ram lines)
    (hosted : ∀ command ∈ commands, command.isHosted = true) :
    (processor.left ram commands).1.Trailing (processor.left ram commands).2
      (lines ++ ((processor.transcript ram commands).flatMap (·.done.events)).filter
        Event.isDispatch) := by
  induction commands generalizing processor ram lines with
  | nil =>
    simpa [left, transcript] using trailing
  | cons command rest ih =>
    have first := trailing.after_command (hosted command List.mem_cons_self)
    have others := ih first fun other listed => hosted other (List.mem_cons_of_mem _ listed)
    simpa [left, transcript] using others

end Processor

end Sm83
