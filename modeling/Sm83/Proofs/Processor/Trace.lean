import Sm83.Proofs.Processor.Landmarks

/-!
# The trace of a run

Each instruction is reported as it starts, with the address of its first byte and what a listing
reads there, and nothing else is reported so. A run from between two instructions therefore reports
the opcodes that it fetches, in order. A HALT and a STOP report where their opcodes are, and a
relative jump where the instruction behind it is and where it ends.
-/

namespace Sm83

namespace Decode

/-- Only one byte is a HALT. -/
theorem eq_of_plain_eq_halt : ∀ code : UInt8, plain code = .halt → code = 0x76 :=
  forall_byte (by decide +kernel)

/-- Only one byte is a STOP. -/
theorem eq_of_plain_eq_stop : ∀ code : UInt8, plain code = .stop → code = 0x10 :=
  forall_byte (by decide +kernel)

end Decode

namespace Processor

open Phase

variable {processor : Processor} {ram : Ram} {opcode : Opcode} {cycle : Nat}
  {activation : Activation} {command : Command} {commands : List Command} {lines : List Event}

/-! ## Opcodes that a run fetches -/

/-- An opcode that was fetched: the address of its first byte, and its bytes. -/
structure Fetched where
  /-- The address of the first byte. -/
  address : UInt16
  /-- The bytes, the prefix byte included. -/
  bytes : List UInt8
deriving DecidableEq, Repr

/-- The instruction that a listing of the bytes of an opcode shows. -/
def Fetched.instruction (fetched : Fetched) : Instruction :=
  (Line.ofImage fetched.bytes.toArray 0).instruction

/-- How the start of the instruction is reported. -/
def Fetched.report (fetched : Fetched) : Event := .dispatched fetched.address fetched.instruction

/-- The opcodes in the reads that fetch them: a prefix byte with the byte that is read next, and any
other byte alone. Behind a prefix byte that is read last there is no opcode yet. -/
def opcodesOf : List Access → List Fetched
  | .read address first :: rest =>
    if first = prefixByte then
      match rest with
      | .read _ second :: rest => ⟨address, [first, second]⟩ :: opcodesOf rest
      | _ => []
    else
      ⟨address, [first]⟩ :: opcodesOf rest
  | _ => []

/-- A byte that is not the prefix byte is an opcode alone. -/
theorem opcodesOf_plain {first : UInt8} (plain : first ≠ prefixByte) (address : UInt16)
    (rest : List Access) :
    opcodesOf (.read address first :: rest) = ⟨address, [first]⟩ :: opcodesOf rest := by
  rw [opcodesOf.eq_def]
  simp [plain]

/-- The prefix byte is an opcode with the byte behind it. -/
theorem opcodesOf_prefixed (address next : UInt16) (second : UInt8) (rest : List Access) :
    opcodesOf (.read address prefixByte :: .read next second :: rest) =
      ⟨address, [prefixByte, second]⟩ :: opcodesOf rest := by
  rw [opcodesOf.eq_def]
  simp

/-- The accesses of the ticks of a run that begin between two instructions or behind the prefix
byte. -/
def opcodeReads (processor : Processor) (ram : Ram) : List Command → List Access
  | [] => []
  | command :: rest =>
    let done := (processor.obey command).exec ram
    (if processor.awaitsOpcode then done.accesses else []) ++
      done.value.processor.opcodeReads done.memory rest

/-- The read of the prefix byte that the processor is behind. -/
def prefixRead (processor : Processor) : List Access :=
  if processor.phase = .prefixed then [.read (processor.regs.pc - 1) prefixByte] else []

/-- The first step of an opcode makes no access. -/
theorem accesses_advance_first (processor : Processor) (opcode : Opcode) (ram : Ram) :
    ((processor.advance opcode 1 {}).exec ram).accesses = [] := by
  rw [(processor.exec_advance opcode 1 {} ram).2.2]
  exact (opcode.always_step_first {} processor.regs).exec ram

/-- The tick that fetches an opcode between two instructions makes no other access. -/
theorem accesses_tick_of_plain (idle : processor.phase = .idle)
    (fetching : processor.regs.halted = false)
    (plain : ram.read processor.regs.pc ≠ prefixByte) :
    (processor.tick.exec ram).accesses =
      [.read processor.regs.pc (ram.read processor.regs.pc)] := by
  rw [exec_tick_of_plain idle fetching plain]
  simp only [Execution.behind, accesses_advance_first, List.append_nil]
  rfl

/-- A step leaves the processor behind no prefix byte. -/
theorem prefixRead_advance (processor : Processor) (opcode : Opcode) (cycle : Nat)
    (activation : Activation) (ram : Ram) :
    ((processor.advance opcode cycle activation).exec ram).value.processor.prefixRead = [] := by
  have onward := (processor.always_advance_onward opcode cycle activation).exec ram
  refine if_neg fun phase => ?_
  rw [phase] at onward
  exact onward

/-- Between two processors of a run these opcodes were fetched and reported. -/
structure Adds (before after : Processor) (reads : List Access) (events : List Event)
    (fetched : List Fetched) : Prop where
  /-- The starts that were reported are those of the opcodes. -/
  reported : events.filter Event.isDispatch = fetched.map Fetched.report
  /-- The opcodes are in what was read, with a prefix byte from before and one for later. -/
  read : ∀ later, opcodesOf (before.prefixRead ++ (reads ++ later)) =
    fetched ++ opcodesOf (after.prefixRead ++ later)

/-- Nothing is added where no opcode is read and none is reported. -/
theorem adds_nil {before after : Processor} {events : List Event}
    (unreported : events.filter Event.isDispatch = [])
    (unread : after.prefixRead = before.prefixRead) : Adds before after [] events [] :=
  ⟨unreported, fun later => by rw [unread]; rfl⟩

/-- A tick between two instructions adds the byte that it fetches, unless that is the prefix byte
or the processor is halted. -/
theorem Trailing.exists_adds_of_idle (trailing : processor.Trailing ram lines)
    (idle : processor.phase = .idle) :
    let ticked := processor.tick.exec ram
    ∃ fetched, Adds processor ticked.value.processor ticked.accesses ticked.events fetched := by
  have unprefixed : processor.prefixRead = [] := if_neg (by simp [idle])
  intro ticked
  cases halted : processor.regs.halted with
  | true =>
    have waits : ticked = ⟨⟨.ok (), processor.promote⟩, ram, [], []⟩ := by
      simp [ticked, tick, idle, halted]
    have still : processor.promote.prefixRead = processor.prefixRead := by
      simp [prefixRead]
    rw [waits]
    exact ⟨[], adds_nil rfl still⟩
  | false =>
    by_cases isPrefix : ram.read processor.regs.pc = prefixByte
    · have fetched : ticked = _ := exec_tick_of_prefix idle halted isPrefix
      have moved : processor.promote.skipByte.regs.pc - 1 = processor.regs.pc := by
        rw [pc_skipByte_promote, UInt16.add_sub_cancel]
      rw [fetched]
      refine ⟨[], rfl, fun later => ?_⟩
      rw [unprefixed, prefixRead, if_pos rfl]
      simp only [moved]
      rfl
    · have fetched : ticked = _ := exec_tick_of_plain idle halted isPrefix
      have told := trailing.filter_isDispatch_tick
      rw [landmarks_of_plain idle halted isPrefix, filter_isDispatch_opening] at told
      have read : ticked.accesses = [.read processor.regs.pc (ram.read processor.regs.pc)] :=
        accesses_tick_of_plain idle halted isPrefix
      have left : ticked.value.processor.prefixRead = [] := by
        rw [fetched]
        exact prefixRead_advance _ _ _ _ _
      have listed : Fetched.instruction ⟨processor.regs.pc, [ram.read processor.regs.pc]⟩ =
          Decode.plain (ram.read processor.regs.pc) := by
        simp [Fetched.instruction, Line.instruction_ofImage, Line.imageByte, isPrefix]
      refine ⟨[⟨processor.regs.pc, [ram.read processor.regs.pc]⟩], ?_, fun later => ?_⟩
      · rw [told, List.map_singleton, Fetched.report, listed]
      · rw [unprefixed, read, left]
        exact opcodesOf_plain isPrefix _ later

/-- A tick behind the prefix byte adds that byte and the one that it fetches. -/
theorem Trailing.exists_adds_of_prefixed (trailing : processor.Trailing ram lines)
    (phase : processor.phase = .prefixed) :
    let ticked := processor.tick.exec ram
    ∃ fetched, Adds processor ticked.value.processor ticked.accesses ticked.events fetched := by
  intro ticked
  have prefixed : processor.prefixRead = [.read (processor.regs.pc - 1) prefixByte] :=
    if_pos phase
  have fetched : ticked = _ := exec_tick_of_prefixed phase
  have told := trailing.filter_isDispatch_tick
  rw [landmarks_of_prefixed phase (trailing.behind phase), filter_isDispatch_opening] at told
  have read : ticked.accesses = [.read processor.regs.pc (ram.read processor.regs.pc)] := by
    rw [fetched]
    simp only [Execution.behind, accesses_advance_first, List.append_nil]
    rfl
  have left : ticked.value.processor.prefixRead = [] := by
    rw [fetched]
    exact prefixRead_advance _ _ _ _ _
  have listed : Fetched.instruction
      ⟨processor.regs.pc - 1, [prefixByte, ram.read processor.regs.pc]⟩ =
        Decode.prefixed (ram.read processor.regs.pc) := by
    simp [Fetched.instruction, Line.instruction_ofImage, Line.imageByte]
  refine ⟨[⟨processor.regs.pc - 1, [prefixByte, ram.read processor.regs.pc]⟩], ?_,
    fun later => ?_⟩
  · rw [told, List.map_singleton, Fetched.report, listed]
  · rw [prefixed, read, left]
    exact opcodesOf_prefixed _ _ _ later

/-- A tick that fetches no opcode leaves the processor behind no prefix byte. -/
theorem prefixRead_tick_of_busy (busy : processor.awaitsOpcode = false) :
    (processor.tick.exec ram).value.processor.prefixRead = [] := by
  unfold awaitsOpcode at busy
  unfold tick
  cases phase : processor.phase with
  | idle | prefixed => simp [phase] at busy
  | executing opcode cycle activation => exact prefixRead_advance _ _ _ _ _
  | servicing interrupt cycle =>
    have left := ((processor.always_dispatchCycle_silent interrupt (cycle + 1)).exec ram).2
    refine if_neg fun prefixed => ?_
    simp [prefixed] at left
  | locked fault => exact if_neg (by simp [phase])

/-- A tick that fetches no opcode adds none. -/
theorem Trailing.adds_of_busy (trailing : processor.Trailing ram lines)
    (busy : processor.awaitsOpcode = false) :
    let ticked := processor.tick.exec ram
    Adds processor ticked.value.processor [] ticked.events [] := by
  have unprefixed : processor.prefixRead = [] := by
    refine if_neg fun prefixed => ?_
    simp [awaitsOpcode, prefixed] at busy
  refine adds_nil ?_ (by rw [prefixRead_tick_of_busy busy, unprefixed])
  rw [trailing.filter_isDispatch_tick, filter_isDispatch_landmarks busy]

/-- A command of a run adds the opcodes that it fetches and reports. -/
theorem Trailing.exists_adds (trailing : processor.Trailing ram lines)
    (hosted : command.isHosted = true) :
    let done := (processor.obey command).exec ram
    ∃ fetched, Adds processor done.value.processor
      (if processor.awaitsOpcode then done.accesses else []) done.events fetched := by
  intro done
  by_cases ticks : command = .call .tick
  · obtain ⟨left, memory, accesses, events⟩ := processor.exec_obey_tick ram
    simp only [done, ticks, left, accesses, events]
    cases phase : processor.phase with
    | idle =>
      have awaits : processor.awaitsOpcode = true := by simp [awaitsOpcode, phase]
      rw [if_pos awaits]
      exact trailing.exists_adds_of_idle phase
    | prefixed =>
      have awaits : processor.awaitsOpcode = true := by simp [awaitsOpcode, phase]
      rw [if_pos awaits]
      exact trailing.exists_adds_of_prefixed phase
    | executing | servicing | locked =>
      have busy : processor.awaitsOpcode = false := by simp [awaitsOpcode, phase]
      rw [if_neg (by simp [busy])]
      exact ⟨[], trailing.adds_of_busy busy⟩
  · obtain ⟨⟨unmarked, silent, -⟩, left⟩ := exec_obey_between hosted ticks processor ram
    have unreported : done.events.filter Event.isDispatch = [] := by
      rw [← Event.filter_isDispatch_filter, unmarked]
      rfl
    have unread : done.value.processor.prefixRead = processor.prefixRead := by
      rcases left with ⟨phase, pc⟩ | ⟨idle, interrupt, phase⟩
      · simp only [prefixRead, done, phase, pc]
      · simp [prefixRead, done, phase, idle]
    simp only [done, silent, ite_self]
    exact ⟨[], adds_nil unreported unread⟩

/-- A run reports the starts of the opcodes that it fetches, in order, and no others. -/
theorem Trailing.filter_isDispatch_transcript (trailing : processor.Trailing ram lines)
    (hosted : ∀ command ∈ commands, command.isHosted = true) :
    ((processor.transcript ram commands).flatMap (·.done.events)).filter Event.isDispatch =
      (opcodesOf (processor.prefixRead ++ processor.opcodeReads ram commands)).map
        Fetched.report := by
  induction commands generalizing processor ram lines with
  | nil =>
    unfold prefixRead
    split <;> rfl
  | cons command rest ih =>
    have first := hosted command List.mem_cons_self
    obtain ⟨fetched, adds⟩ := trailing.exists_adds first
    have others := ih (trailing.after_command first) fun other listed =>
      hosted other (List.mem_cons_of_mem _ listed)
    simp only [transcript, List.flatMap_cons, List.filter_append, opcodeReads, adds.read,
      List.map_append, others, adds.reported]

/-! ## Where the reports lead -/

/-- What a tick reports of a HALT or a STOP starts with the report of its opcode, which it reads. -/
theorem Trailing.opening_of_suspended (trailing : processor.Trailing ram lines) {event : Event}
    (listed : event ∈ (processor.tick.exec ram).events) (address : UInt16)
    (suspends : event = .halted address ∨ event = .stopped address) :
    event ∈ opening processor.regs.pc (Decode.plain (ram.read processor.regs.pc)) ∧
      (processor.tick.exec ram).accesses =
        [.read processor.regs.pc (ram.read processor.regs.pc)] := by
  have mark : event.isLandmark = true := by rcases suspends with rfl | rfl <;> rfl
  have told : event ∈ processor.landmarks ram := by
    rw [← trailing.landmarks_tick]
    exact List.mem_filter.mpr ⟨listed, mark⟩
  cases phase : processor.phase with
  | idle =>
    cases halted : processor.regs.halted with
    | true => simp [landmarks, phase, halted] at told
    | false =>
      by_cases isPrefix : ram.read processor.regs.pc = prefixByte
      · simp [landmarks, phase, isPrefix] at told
      · rw [landmarks_of_plain phase halted isPrefix] at told
        exact ⟨told, accesses_tick_of_plain phase halted isPrefix⟩
  | prefixed =>
    rw [landmarks_of_prefixed phase (trailing.behind phase), opening_prefixed,
      List.mem_singleton] at told
    subst told
    rcases suspends with suspends | suspends <;> cases suspends
  | executing | servicing | locked =>
    unfold landmarks at told
    rcases suspends with rfl | rfl <;> split at told <;> simp_all

/-- Where a HALT is reported, its opcode is read there. -/
theorem Trailing.accesses_of_halted (trailing : processor.Trailing ram lines) {address : UInt16}
    (listed : .halted address ∈ (processor.tick.exec ram).events) :
    (processor.tick.exec ram).accesses = [.read address 0x76] := by
  obtain ⟨told, accesses⟩ := trailing.opening_of_suspended listed address (.inl rfl)
  obtain ⟨halts, rfl⟩ := halted_mem_opening.mp told
  rw [accesses, Decode.eq_of_plain_eq_halt _ halts]

/-- Where a STOP is reported, its opcode is read there. -/
theorem Trailing.accesses_of_stopped (trailing : processor.Trailing ram lines) {address : UInt16}
    (listed : .stopped address ∈ (processor.tick.exec ram).events) :
    (processor.tick.exec ram).accesses = [.read address 0x10] := by
  obtain ⟨told, accesses⟩ := trailing.opening_of_suspended listed address (.inr rfl)
  obtain ⟨stops, rfl⟩ := stopped_mem_opening.mp told
  rw [accesses, Decode.eq_of_plain_eq_stop _ stops]

/-- The last cycle of a relative jump completes it where it leads. -/
theorem tick_of_jumping {encoding : Encoding} {condition : Option Condition}
    (sound : processor.phase.Sound)
    (phase : processor.phase = .executing ⟨encoding, .jr condition⟩ 2 activation) :
    let left := (processor.tick.exec ram).value.processor
    left.phase = .idle ∧
      left.regs.pc = processor.regs.pc + Word.ofOffset activation.latch.low := by
  rw [phase] at sound
  have underway : Underway ⟨encoding, .jr condition⟩ 2 activation := sound
  have last : (Instruction.jr condition).progress 3 processor.regs = .retired := if_pos (.inl rfl)
  have completes :=
    (always_advance processor underway.listed underway.defined underway.due).exec ram
  have moved := (processor.always_advance_jr rfl underway.due).exec ram
  rw [last] at completes
  rw [tick_of_executing phase]
  rw [completes.2] at moved
  exact ⟨completes.2, moved rfl⟩

/-- Where a relative jump is reported, it ends at its target, and it comes from behind its two
bytes, whose start was reported last. -/
theorem Trailing.of_jumped (trailing : processor.Trailing ram lines) {offset : UInt8}
    {source target : UInt16}
    (listed : .jumped offset source target ∈ (processor.tick.exec ram).events) :
    let left := (processor.tick.exec ram).value.processor
    left.phase = .idle ∧ left.regs.pc = target ∧ target = source + Word.ofOffset offset ∧
      ∃ address condition, lines.getLast? = some (.dispatched address (.jr condition)) ∧
        source = address + 2 := by
  have told : .jumped offset source target ∈ processor.landmarks ram := by
    rw [← trailing.landmarks_tick]
    exact List.mem_filter.mpr ⟨listed, rfl⟩
  simp only [landmarks] at told
  split at told
  · split at told
    · exact absurd told List.not_mem_nil
    · exact absurd told jumped_not_mem_opening
  · exact absurd told jumped_not_mem_opening
  · rename_i encoding condition activation phase
    simp only [List.mem_singleton, Event.jumped.injEq] at told
    obtain ⟨rfl, rfl, rfl⟩ := told
    obtain ⟨idle, moved⟩ := tick_of_jumping trailing.sound phase
    have last := trailing.jumping phase rfl
    have behind : processor.regs.pc - 2 + 2 = processor.regs.pc := UInt16.sub_add_cancel _ _
    exact ⟨idle, moved, rfl, _, condition, last, behind.symm⟩
  · exact absurd told List.not_mem_nil

/-- The tick that fetches an undefined byte reports it before the processor locks up. -/
theorem events_tick_locking (idle : processor.phase = .idle)
    (fetching : processor.regs.halted = false)
    (undefined : ram.read processor.regs.pc ∈ Decode.undefinedCodes) :
    let ticked := processor.tick.exec ram
    let fault := Fault.undefinedOpcode ⟨ram.read processor.regs.pc, false⟩
    ticked.events = [.dispatched processor.regs.pc .invalid,
      .locked fault ticked.value.processor.regs] ∧
      ticked.value.processor.phase = .locked fault := by
  intro ticked fault
  have locks : ticked = _ := exec_tick_locking idle fetching undefined
  rw [locks]
  exact ⟨rfl, rfl⟩

/-- The trace of a run is a listing of it. From between two instructions, over any memory, with
requests and resumptions between the ticks, the starts that are reported are those of the opcodes
that are fetched, in order, each with the address of its first byte and the instruction that a
listing reads in its bytes. At every point of the run a tick reports just the landmarks that are
there: the start of an instruction, as a listing of the memory reads it at its first byte, and where
a HALT, a STOP or the last cycle of a relative jump is. An undefined opcode is reported before it
locks the processor up; a HALT and a STOP are reported where their opcodes are read; and a relative
jump where it ends, from behind the instruction that was reported last. -/
theorem trace_lists_run (processor : Processor) (ram : Ram) (commands : List Command)
    (idle : processor.phase = .idle)
    (hosted : ∀ command ∈ commands, command.isHosted = true) :
    let lines := ((processor.transcript ram commands).flatMap (·.done.events)).filter
      Event.isDispatch
    let fetched := opcodesOf (processor.opcodeReads ram commands)
    (lines = fetched.map fun opcode =>
      .dispatched opcode.address (Line.ofImage opcode.bytes.toArray 0).instruction) ∧
    (lines.map (fun line => (line.level, line.text)) = fetched.map fun opcode =>
      (.trace, Text.upperHexWord opcode.address ++ ": " ++
        (Line.ofImage opcode.bytes.toArray 0).instruction.text)) ∧
    ∀ early command late, commands = early ++ command :: late →
      let here := (processor.left ram early).1
      let memory := (processor.left ram early).2
      let told := ((processor.transcript ram early).flatMap (·.done.events)).filter
        Event.isDispatch
      let done := (here.obey command).exec memory
      let left := done.value.processor
      (done.events.filter Event.isLandmark =
        if command = .call .tick then here.landmarks memory else []) ∧
      (command = .call .tick → here.phase = .idle → here.regs.halted = false →
        memory.read here.regs.pc ∈ Decode.undefinedCodes →
          let fault := Fault.undefinedOpcode ⟨memory.read here.regs.pc, false⟩
          done.events = [.dispatched here.regs.pc .invalid, .locked fault left.regs] ∧
            left.phase = .locked fault) ∧
      (∀ address, .halted address ∈ done.events → done.accesses = [.read address 0x76]) ∧
      (∀ address, .stopped address ∈ done.events → done.accesses = [.read address 0x10]) ∧
      ∀ offset source target, .jumped offset source target ∈ done.events →
        left.phase = .idle ∧ left.regs.pc = target ∧ target = source + Word.ofOffset offset ∧
          ∃ address condition, told.getLast? = some (.dispatched address (.jr condition)) ∧
            source = address + 2 := by
  intro lines fetched
  have started : processor.Trailing ram [] := by
    have sound : processor.phase.Sound := by
      rw [idle]
      trivial
    exact trailing_of_settled sound (by simp [idle]) (by simp [idle])
  have unprefixed : processor.prefixRead = [] := if_neg (by simp [idle])
  have listed : lines = fetched.map Fetched.report := by
    have told := started.filter_isDispatch_transcript hosted
    rwa [unprefixed] at told
  refine ⟨listed, ?_, ?_⟩
  · rw [listed, List.map_map]
    rfl
  · rintro early command late rfl here memory told done left
    have first : ∀ command ∈ early, command.isHosted = true :=
      fun other among => hosted other (List.mem_append_left _ among)
    have trailing : here.Trailing memory told := started.after_commands first
    by_cases ticks : command = .call .tick
    · obtain ⟨after, -, accesses, events⟩ := here.exec_obey_tick memory
      simp only [left, done, ticks, after, accesses, events, if_true]
      exact ⟨trailing.landmarks_tick, fun _ => events_tick_locking,
        fun _ => trailing.accesses_of_halted, fun _ => trailing.accesses_of_stopped,
        fun _ _ _ => trailing.of_jumped⟩
    · have among : command ∈ early ++ command :: late := by simp
      obtain ⟨⟨unmarked, -, -⟩, -⟩ := exec_obey_between (hosted command among) ticks here memory
      have unreported {event : Event} (marked : event.isLandmark = true) : event ∉ done.events := by
        intro reported
        have landmark : event ∈ done.events.filter Event.isLandmark :=
          List.mem_filter.mpr ⟨reported, marked⟩
        rw [unmarked] at landmark
        exact List.not_mem_nil landmark
      rw [if_neg ticks]
      exact ⟨unmarked, fun impossible => absurd impossible ticks,
        fun _ reported => absurd reported (unreported rfl),
        fun _ reported => absurd reported (unreported rfl),
        fun _ _ _ reported => absurd reported (unreported rfl)⟩

/-- An instruction behind the prefix byte, a jump and a HALT are listed in order, and the jump ends
where it says. -/
theorem trace_of_jump :
    let ram := Ram.ofProgram 0x0000 [0xCB, 0x37, 0x18, 0x01, 0x00, 0x76]
    let processor : Processor := ⟨{ pc := 0x0000 }, .idle⟩
    let early : List Command := List.replicate 4 (.call .tick)
    let late : List Command := List.replicate 2 (.call .tick)
    let commands := early ++ .call .tick :: late
    let here := processor.left ram early
    let jumped := (here.1.obey (.call .tick)).exec here.2
    (processor.phase = .idle ∧ ∀ command ∈ commands, command.isHosted = true) ∧
    ((processor.transcript ram commands).flatMap (·.done.events)).filter Event.isDispatch =
      [.dispatched 0x0000 (.shift .swap (.register .a)), .dispatched 0x0002 (.jr none),
        .dispatched 0x0005 .halt] ∧
    .jumped 0x01 0x0004 0x0005 ∈ jumped.events ∧ jumped.value.processor.regs.pc = 0x0005 := by
  intro ram processor early late commands here jumped
  have hosted : ∀ command ∈ commands, command.isHosted = true := by decide
  obtain ⟨listed, -, points⟩ := trace_lists_run processor ram commands rfl hosted
  obtain ⟨-, -, -, -, jumps⟩ := points early (.call .tick) late rfl
  have fetched : opcodesOf (processor.opcodeReads ram commands) =
      [⟨0x0000, [0xCB, 0x37]⟩, ⟨0x0002, [0x18]⟩, ⟨0x0005, [0x76]⟩] := by decide +kernel
  have reported : .jumped 0x01 0x0004 0x0005 ∈ jumped.events := by decide +kernel
  obtain ⟨-, ends, -⟩ := jumps 0x01 0x0004 0x0005 reported
  refine ⟨⟨rfl, hosted⟩, ?_, reported, ?_⟩
  · rw [listed, fetched]
    decide +kernel
  · simpa only [jumped, here] using ends

end Processor

end Sm83
