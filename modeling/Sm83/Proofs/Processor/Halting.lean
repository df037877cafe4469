import Sm83.Proofs.Processor.Service
import Sm83.Proofs.Processor.Transcript

/-!
# Halting as a delay

HALT and STOP take one tick and then wait, for as many ticks and runs as their owner makes. No
access goes out meanwhile, and nothing changes. Resuming to fetch, or the request for an interrupt,
leaves the processor as if it had passed a NOP instead, with the program counter behind the
instruction that waited.
-/

namespace Sm83.Processor

variable {μ : Type} [Memory μ] {processor after : Processor} {memory left : μ} {ram : Ram}
  {command : Command}

/-! ## Commands that wait -/

/-- Whether the command makes ticks. -/
def Command.ticks : Command → Bool
  | .call .tick | .run => true
  | _ => false

/-- What is answered to a command that makes ticks if it makes one. -/
def Command.single : Command → Option Nat
  | .run => some 1
  | .call _ => none

/-- Where a tick leaves the processor idle, a command that makes ticks makes that one. -/
theorem exec_obey_of_single {accesses : List Access} {events : List Event}
    (ticked : processor.tick.exec memory = ⟨⟨.ok (), after⟩, left, accesses, events⟩)
    (idle : after.phase = .idle) (ticks : command.ticks = true) :
    (processor.obey command).exec memory =
      ⟨⟨.ok command.single, after⟩, left, accesses, events⟩ := by
  cases command with
  | run =>
    simp only [obey, runUntilIdle, tickLimit, runFor, Bus.exec_bind, ticked, isIdle, idle]
    simp [Answer.map, Except.map, Execution.behind, Command.single]
  | call call =>
    cases call with
    | tick =>
      simp only [obey, Bus.exec_bind, ticked]
      simp [Answer.map, Except.map, Execution.behind, Command.single]
    | request | resume | reset | rewrite => cases ticks

/-! ## The processor behind an instruction of one tick -/

/-- The processor between instructions with the program counter moved, halted or not. Interrupts
that were about to be enabled are. -/
def passed (processor : Processor) (length : UInt16) (halted : Bool) : Processor :=
  ⟨{ processor.regs with
    pc := processor.regs.pc + length
    ime := processor.regs.ime || processor.regs.imePending
    imePending := false
    halted := halted }, .idle⟩

/-- Fetching an opcode of the plain space moves the program counter behind it. -/
theorem skipByte_promote (idle : processor.phase = .idle)
    (fetching : processor.regs.halted = false) :
    processor.promote.skipByte = processor.passed 1 false := by
  cases pending : processor.regs.imePending with
  | true => simp [promote, skipByte, withRegs, passed, pending, idle, fetching]
  | false => simp [promote, skipByte, withRegs, passed, pending, idle, fetching]

/-- A tick that fetches a NOP does nothing else. -/
theorem exec_tick_of_nop (idle : processor.phase = .idle)
    (fetching : processor.regs.halted = false) (passing : ram.read processor.regs.pc = 0x00) :
    processor.tick.exec ram = ⟨⟨.ok (), processor.passed 1 false⟩, ram,
      [.read processor.regs.pc 0x00], [.dispatched processor.regs.pc .nop]⟩ := by
  have fetched : (Memory.read ram processor.regs.pc).1 = 0x00 := passing
  rw [exec_tick_of_plain idle fetching (by rw [fetched]; decide), fetched,
    OpcodeTable.lookup_standard_plain, skipByte_promote idle fetching]
  rfl

/-- The bytes that a HALT or a STOP moves past. A STOP skips a byte unread behind its opcode. -/
def suspensionLength (code : UInt8) : UInt16 := if code = 0x10 then 2 else 1

/-- A tick that fetches a HALT or a STOP reads its opcode, and leaves the processor halted behind
it. -/
theorem exec_tick_of_suspending (idle : processor.phase = .idle)
    (fetching : processor.regs.halted = false)
    (suspends : ram.read processor.regs.pc = 0x76 ∨ ram.read processor.regs.pc = 0x10) :
    ∃ events, processor.tick.exec ram =
      ⟨⟨.ok (), processor.passed (suspensionLength (ram.read processor.regs.pc)) true⟩, ram,
        [.read processor.regs.pc (ram.read processor.regs.pc)], events⟩ := by
  have fetched : (Memory.read ram processor.regs.pc).1 = ram.read processor.regs.pc := rfl
  rcases suspends with halts | stops
  · rw [exec_tick_of_plain idle fetching (by rw [fetched, halts]; decide), fetched, halts,
      OpcodeTable.lookup_standard_plain, skipByte_promote idle fetching]
    exact ⟨_, rfl⟩
  · have behind : processor.regs.pc + suspensionLength 0x10 = processor.regs.pc + 1 + 1 :=
      (Word.add_one_add_one _).symm
    rw [exec_tick_of_plain idle fetching (by rw [fetched, stops]; decide), fetched, stops,
      OpcodeTable.lookup_standard_plain, skipByte_promote idle fetching]
    unfold passed
    rw [behind]
    exact ⟨_, rfl⟩

/-! ## Waiting -/

/-- Halted between instructions, with no interrupts about to be enabled, the processor stays as it
is. -/
theorem exec_tick_of_waiting (processor : Processor) (length : UInt16) (memory : μ) :
    (processor.passed length true).tick.exec memory =
      ⟨⟨.ok (), processor.passed length true⟩, memory, [], []⟩ := rfl

/-- However many ticks and runs are made of a halted processor, each takes a tick, none makes an
access, and the processor stays as it is. -/
theorem transcript_of_waiting (processor : Processor) (length : UInt16) (memory : μ)
    {further : List Command} (ticks : ∀ command ∈ further, command.ticks = true) :
    let waiting := processor.passed length true
    (∀ entry ∈ waiting.transcript memory further,
      entry.done.value.outcome = .ok entry.command.single ∧ entry.done.accesses = []) ∧
    waiting.left memory further = (waiting, memory) := by
  intro waiting
  induction further with
  | nil => exact ⟨fun _ listed => absurd listed List.not_mem_nil, rfl⟩
  | cons command rest ih =>
    have obeyed := exec_obey_of_single (exec_tick_of_waiting processor length memory) rfl
      (ticks command List.mem_cons_self)
    obtain ⟨entries, ends⟩ := ih fun other listed => ticks other (List.mem_cons_of_mem _ listed)
    simp only [waiting, transcript, left, obeyed]
    refine ⟨fun entry listed => ?_, ends⟩
    rcases List.mem_cons.mp listed with rfl | listed
    · exact ⟨rfl, rfl⟩
    · exact entries entry listed

/-- A HALT or a STOP takes the first of some ticks and runs, whose only access is to fetch its
opcode; the others wait behind it. -/
theorem transcript_of_suspending (idle : processor.phase = .idle)
    (fetching : processor.regs.halted = false)
    (suspends : ram.read processor.regs.pc = 0x76 ∨ ram.read processor.regs.pc = 0x10)
    {first : Command} {further : List Command}
    (ticks : ∀ command ∈ first :: further, command.ticks = true) :
    let code := ram.read processor.regs.pc
    let entries := processor.transcript ram (first :: further)
    (∀ entry ∈ entries, entry.done.value.outcome = .ok entry.command.single) ∧
      entries.flatMap (·.done.accesses) = [.read processor.regs.pc code] ∧
      processor.left ram (first :: further) =
        (processor.passed (suspensionLength code) true, ram) := by
  intro code entries
  obtain ⟨events, ticked⟩ := exec_tick_of_suspending idle fetching suspends
  have obeyed := exec_obey_of_single ticked rfl (ticks first List.mem_cons_self)
  obtain ⟨others, ends⟩ := transcript_of_waiting processor (suspensionLength code) ram
    fun other listed => ticks other (List.mem_cons_of_mem _ listed)
  simp only [entries, transcript, left, obeyed]
  refine ⟨fun entry listed => ?_, ?_, ends⟩
  · rcases List.mem_cons.mp listed with rfl | listed
    · rfl
    · exact (others entry listed).1
  · have silent : ∀ entry ∈ (processor.passed (suspensionLength code) true).transcript ram further,
        entry.done.accesses = [] := fun entry listed => (others entry listed).2
    rw [List.flatMap_cons, List.flatMap_eq_nil_iff.mpr silent]
    rfl

/-- Halting is a delay. A HALT or a STOP fetched between instructions takes the first of any number
of ticks and runs, and each of the others takes a tick and waits: the fetch of the opcode is the
only access, and the processor is left idle and halted behind the instruction, with interrupts
enabled that were about to be. Resuming leaves the memory and, whatever the number was, the
processor that a NOP there leaves, but for the byte that a STOP skips. A request for an interrupt is
accepted instead, and leaves what it leaves behind that NOP, so its dispatch pushes the address
behind the instruction. -/
theorem halt_delays (processor : Processor) (ram : Ram) (first : Command) (further : List Command)
    (idle : processor.phase = .idle) (fetching : processor.regs.halted = false)
    (suspends : ram.read processor.regs.pc = 0x76 ∨ ram.read processor.regs.pc = 0x10)
    (ticks : ∀ command ∈ first :: further, command = .call .tick ∨ command = .run) :
    let regs := processor.regs
    let code := ram.read regs.pc
    let next := regs.pc + (if code = 0x10 then 2 else 1)
    let entries := processor.transcript ram (first :: further)
    let waiting := (processor.left ram (first :: further)).1
    let nop := (processor.tick.exec (ram.write regs.pc 0x00)).value
    let passed := nop.processor.withRegs fun regs => { regs with pc := next }
    let resumed := waiting.resume.exec ram
    (∀ entry ∈ entries,
      entry.done.value.outcome = .ok (if entry.command = .run then some 1 else none)) ∧
    entries.flatMap (·.done.accesses) = [.read regs.pc code] ∧
    (processor.left ram (first :: further)).2 = ram ∧
    waiting = ⟨{ regs with
      pc := next
      ime := regs.ime || regs.imePending
      imePending := false
      halted := true }, .idle⟩ ∧
    (nop.outcome = .ok () ∧ nop.processor.regs.pc = regs.pc + 1) ∧
    (resumed.value = passed ∧ resumed.memory = ram ∧ resumed.accesses = []) ∧
    ∀ interrupt : Interrupt,
      let asked := (waiting.request interrupt).exec ram
      let served := (asked.value.processor.ticks 5).exec asked.memory
      asked.value = ((passed.request interrupt).exec ram).value ∧
        asked.value.outcome = .ok () ∧ asked.memory = ram ∧ asked.accesses = [] ∧
        served.value = ⟨.ok (), ⟨{ regs with
          sp := regs.sp - 2
          pc := interrupt.handler
          ime := false
          imePending := false
          halted := false }, .idle⟩⟩ ∧
        served.memory = ram.pushWord regs.sp next := by
  intro regs code next entries waiting nop passed resumed
  have making : ∀ command ∈ first :: further, command.ticks = true := by
    intro command listed
    rcases ticks command listed with rfl | rfl <;> rfl
  obtain ⟨outcomes, accesses, ends⟩ := transcript_of_suspending idle fetching suspends making
  have waits : waiting = processor.passed (suspensionLength code) true := congrArg Prod.fst ends
  have passing : (ram.write regs.pc 0x00).read regs.pc = 0x00 := Ram.read_write_self _ _ _
  have nopped : nop = ⟨.ok (), processor.passed 1 false⟩ :=
    congrArg Execution.value (exec_tick_of_nop idle fetching passing)
  have passes : passed = processor.passed (suspensionLength code) false := by
    simp only [passed, nopped]
    rfl
  refine ⟨fun entry listed => ?_, accesses, congrArg Prod.snd ends, waits, ?_, ?_, ?_⟩
  · rw [outcomes entry listed]
    cases entry.command with
    | run => rfl
    | call call => rfl
  · rw [nopped]
    exact ⟨rfl, rfl⟩
  · obtain ⟨value, remains, silent⟩ := waiting.exec_resume ram
    refine ⟨?_, remains, silent⟩
    rw [value, waits, passes]
    rfl
  · intro interrupt asked served
    have accepted : asked = _ := exec_request (by rw [waits]; rfl) interrupt ram
    have idle' : (processor.passed (suspensionLength code) true).phase = .idle := rfl
    obtain ⟨value, pushed⟩ := exec_ticks_accepted idle' interrupt ram
    simp only [served, accepted, waits, passes]
    refine ⟨rfl, trivial, trivial, trivial, ?_, ?_⟩
    · exact value
    · exact pushed

/-- A STOP at the last address waits for two further commands, and its dispatch pushes the address
behind the byte that it skips. -/
theorem stop_delays_at_last_address :
    let ram := Ram.ofProgram 0xFFFF [0x10]
    let processor : Processor := ⟨{ sp := 0xC000, pc := 0xFFFF, imePending := true }, .idle⟩
    let commands : List Command := [.call .tick, .run, .call .tick]
    let waiting := (processor.left ram commands).1
    let asked := (waiting.request .vblank).exec ram
    (processor.phase = .idle ∧ processor.regs.halted = false ∧
      ram.read processor.regs.pc = 0x10 ∧
      ∀ command ∈ commands, command = .call .tick ∨ command = .run) ∧
    ((processor.transcript ram commands).flatMap (·.done.accesses) = [.read 0xFFFF 0x10]) ∧
    waiting = ⟨{ sp := 0xC000, pc := 0x0001, ime := true, halted := true }, .idle⟩ ∧
    (waiting.resume.exec ram).value.regs.pc = 0x0001 ∧
    ((asked.value.processor.ticks 5).exec asked.memory).memory = ram.pushWord 0xC000 0x0001 := by
  intro ram processor commands waiting asked
  have loaded : ram.read processor.regs.pc = 0x10 := Ram.read_write_self _ _ _
  clear_value ram
  have waits : ∀ command ∈ commands, command = .call .tick ∨ command = .run := by
    simp [commands]
  obtain ⟨-, accesses, -, waited, -, resumed, served⟩ :=
    halt_delays processor ram _ _ rfl rfl (.inr loaded) waits
  obtain ⟨-, -, -, -, -, pushed⟩ := served .vblank
  have next : processor.regs.pc + 2 = 0x0001 := by decide
  rw [loaded] at accesses
  rw [loaded, if_pos rfl, next] at waited resumed pushed
  refine ⟨⟨rfl, rfl, loaded, waits⟩, accesses, waited, ?_, ?_⟩
  · rw [resumed.1]
    rfl
  · have top : processor.regs.sp = 0xC000 := rfl
    rw [top] at pushed
    simpa only [asked, waiting, commands] using pushed

end Sm83.Processor
