import Sm83.Proofs.Schedule.Remaining
import Sm83.Proofs.Stack.Effects

/-!
# The timetable of an instruction

The timetable of an instruction says which access it makes in which tick, from the registers and the
RAM that it starts with: first the bytes that encode it, one a tick, and then what it has to do with
the memory beyond them. It is told without the machine cycles of the instruction, and what the
cycles do is compared with it instruction by instruction.
-/

namespace Sm83

open MachineCycle Schedule

namespace Schedule

/-- The accesses of each cycle of a schedule that is run over a memory, up to the cycle that
completes the instruction or fails. -/
def trace {μ : Type} [Memory μ] (schedule : Schedule) (context : Context) (memory : μ) :
    List (List Access) :=
  match schedule with
  | [] => []
  | cycle :: rest =>
    let done := (cycle.perform context).exec memory
    done.accesses ::
      match done.value with
      | (.ok .running, after) => trace rest after done.memory
      | _ => []

section

variable {μ : Type} [Memory μ] {cycle : MachineCycle Progress} {rest : Schedule}
  {context : Context} {memory : μ}

/-- Behind a cycle that does not complete the instruction the others are traced. -/
theorem trace_of_running
    (running : ((cycle.perform context).exec memory).value.1 = .ok .running) :
    let done := (cycle.perform context).exec memory
    trace (cycle :: rest) context memory =
      done.accesses :: trace rest done.value.2 done.memory := by
  rcases done : (cycle.perform context).exec memory with ⟨⟨outcome, after⟩, left, accesses, events⟩
  rw [done] at running
  obtain rfl : outcome = .ok .running := running
  simp only [trace, done]

/-- No other cycle is traced behind one that completes the instruction or fails. -/
theorem trace_of_ends (ends : ((cycle.perform context).exec memory).value.1 ≠ .ok .running) :
    trace (cycle :: rest) context memory = [((cycle.perform context).exec memory).accesses] := by
  rcases done : (cycle.perform context).exec memory with ⟨⟨outcome, after⟩, left, accesses, events⟩
  rw [done] at ends
  simp only [trace, done]
  rcases outcome with fault | _ | _
  · rfl
  · exact absurd rfl ends
  · rfl

/-- A cycle that decides a branch is the last one to be traced unless its condition holds. -/
theorem trace_deciding (condition : Option Condition) (work : MachineCycle Unit) (rest : Schedule)
    (context : Context) (memory : μ)
    (succeeds : ((work.perform context).exec memory).value.1 = .ok ()) :
    let worked := (work.perform context).exec memory
    trace (deciding condition work :: rest) context memory =
      worked.accesses ::
        if worked.value.2.regs.holds condition then
          trace rest worked.value.2 worked.memory
        else [] := by
  rcases worked : (work.perform context).exec memory with ⟨⟨outcome, after⟩, left, accesses, events⟩
  rw [worked] at succeeds
  obtain rfl : outcome = .ok () := succeeds
  have decided : ((deciding condition work).perform context).exec memory =
      ⟨(.ok (if after.regs.holds condition then .running else .retired), after), left, accesses,
        events⟩ := by
    simp only [deciding, perform_bind, Bus.exec_bind, worked]
    simp [Execution.behind]
  simp only [trace, decided]
  cases after.regs.holds condition <;> rfl

end

/-- The accesses of the first tick behind those that the tick makes before. -/
def inFront (accesses : List Access) : List (List Access) → List (List Access)
  | [] => [accesses]
  | first :: rest => (accesses ++ first) :: rest

/-- Every access with the number of its tick, the first tick having the given one. -/
def stamped (number : Nat) : List (List Access) → List (Access × Nat)
  | [] => []
  | accesses :: rest => accesses.map (·, number) ++ stamped (number + 1) rest

end Schedule

/-! ## What the timetable says -/

/-- Reads of so many bytes at rising addresses, one a tick from the given one on. -/
def readsFrom (ram : Ram) (address : UInt16) (tick : Nat) : Nat → List (Access × Nat)
  | 0 => []
  | count + 1 =>
    (.read address (ram.read address), tick) :: readsFrom ram (address + 1) (tick + 1) count

/-- Writes of a word below the stack pointer, its upper half first. -/
def pushesFrom (regs : RegisterFile) (word : UInt16) (tick : Nat) : List (Access × Nat) :=
  [(.write (regs.sp - 1) (Word.high word), tick), (.write (regs.sp - 2) (Word.low word), tick + 1)]

/-- The address that a memory operand stands for. -/
def AddressMode.effective (mode : AddressMode) (regs : RegisterFile) (ram : Ram) : UInt16 :=
  match mode with
  | pair rr => regs.getPair rr
  | hlIncrement | hlDecrement => regs.hl
  | absolute => ram.wordAt (regs.pc + 1)
  | highPage => 0xFF00 + (ram.read (regs.pc + 1)).toUInt16
  | highPageC => 0xFF00 + regs.c.toUInt16

/-- A word with the topmost page as its upper half is that far behind the start of the page. -/
theorem Word.ofBytes_page : ∀ byte : UInt8, Word.ofBytes 0xFF byte = 0xFF00 + byte.toUInt16 :=
  forall_byte (by decide +kernel)

/-- The byte that an operand holds. -/
def Operand.held (operand : Operand) (regs : RegisterFile) (ram : Ram) : UInt8 :=
  match operand with
  | register r => regs.get r
  | immediate => ram.read (regs.pc + 1)
  | memory mode => ram.read (mode.effective regs ram)

/-- A word is pushed with its lower half one address further down. -/
theorem pushesFrom_eq (regs : RegisterFile) (word : UInt16) (tick : Nat) :
    pushesFrom regs word tick =
      [(.write (regs.sp - 1) (Word.high word), tick),
        (.write (regs.sp - 1 - 1) (Word.low word), tick + 1)] := by
  rw [Word.sub_one_sub_one]
  rfl

namespace Instruction

/-- The byte that the instruction puts in the place of one in memory. -/
def replaced (instruction : Instruction) (regs : RegisterFile) (byte : UInt8) : UInt8 :=
  match instruction with
  | inc _ => byte + 1
  | dec _ => byte - 1
  | shift kind _ => (kind.apply byte regs.f.c).value
  | res index _ => byte &&& ~~~bitMask index
  | set index _ => byte ||| bitMask index
  | _ => byte

/-- The number of bytes that are read of those that encode the instruction. -/
def bytesRead : Instruction → Nat
  | stop => 1
  | instruction => instruction.length

/-- What the instruction has to do with the memory beyond its own bytes, and in which ticks. -/
def dataAccesses (instruction : Instruction) (regs : RegisterFile) (ram : Ram) :
    List (Access × Nat) :=
  let last := instruction.ticks regs
  match instruction with
  | load (.memory mode) source =>
    [(.write (mode.effective regs ram) (source.held regs ram), last)]
  | load _ (.memory mode) | combine _ (.memory mode) | bit _ (.memory mode) =>
    let address := mode.effective regs ram
    [(.read address (ram.read address), last)]
  | inc (.memory mode) | dec (.memory mode) | shift _ (.memory mode) | res _ (.memory mode)
  | set _ (.memory mode) =>
    let address := mode.effective regs ram
    [(.read address (ram.read address), last - 1),
      (.write address (instruction.replaced regs (ram.read address)), last)]
  | storeSp =>
    let address := ram.wordAt (regs.pc + 1)
    [(.write address (Word.low regs.sp), 4), (.write (address + 1) (Word.high regs.sp), 5)]
  | push rr => pushesFrom regs (regs.getPair rr) 3
  | rst _ => pushesFrom regs (regs.pc + 1) 3
  | call condition => if regs.holds condition then pushesFrom regs (regs.pc + 3) 5 else []
  | pop _ | ret none | reti => readsFrom ram regs.sp 2 2
  | ret (some condition) => if regs.holds (some condition) then readsFrom ram regs.sp 3 2 else []
  | _ => []

/-- The accesses of the instruction at the program counter, each with its tick. -/
def timetable (instruction : Instruction) (regs : RegisterFile) (ram : Ram) :
    List (Access × Nat) :=
  readsFrom ram regs.pc 1 instruction.bytesRead ++ instruction.dataAccesses regs ram

/-! ## What the cycles do -/

/-- The accesses of the ticks that the instruction at the program counter takes, its latches being
given behind the fetch of its opcode: the fetch of a prefix is a tick of its own, and that of the
opcode belongs to the first cycle. -/
def traffic (instruction : Instruction) (regs : RegisterFile) (ime imePending : Bool) (ram : Ram) :
    List (List Access) :=
  let opcode := regs.fetched ime imePending
  if instruction.isPrefixed then
    [.read regs.pc (ram.read regs.pc)] :: inFront [.read opcode.pc (ram.read opcode.pc)]
      (trace instruction.cycles ⟨{ opcode with pc := opcode.pc + 1 }, {}⟩ ram)
  else
    inFront [.read regs.pc (ram.read regs.pc)] (trace instruction.cycles ⟨opcode, {}⟩ ram)

variable {instruction : Instruction}

/-- The first cycle of an instruction behind the prefix byte is in its second tick. -/
theorem traffic_of_prefixed (isPrefixed : instruction.isPrefixed = true) (regs : RegisterFile)
    (ime imePending : Bool) (ram : Ram) :
    instruction.traffic regs ime imePending ram =
      [.read regs.pc (ram.read regs.pc)] ::
        inFront [.read (regs.pc + 1) (ram.read (regs.pc + 1))]
          (trace instruction.cycles
            ⟨{ regs.fetched ime imePending with pc := regs.pc + 1 + 1 }, {}⟩ ram) :=
  if_pos isPrefixed

/-- The first cycle of any other instruction is in its first tick. -/
theorem traffic_of_plain (plain : instruction.isPrefixed = false) (regs : RegisterFile)
    (ime imePending : Bool) (ram : Ram) :
    instruction.traffic regs ime imePending ram =
      inFront [.read regs.pc (ram.read regs.pc)]
        (trace instruction.cycles ⟨regs.fetched ime imePending, {}⟩ ram) :=
  if_neg (by simp [plain])

end Instruction

/-- Whether the operand is a register or the byte that HL points at. -/
def Operand.isNamed : Operand → Bool
  | register _ | memory (.pair .hl) => true
  | _ => false

/-- Whether the instruction uses operands only as the opcodes of the tables do: none is addressed by
the program counter, only a named one is changed or tested, and what is copied to the memory is a
register or goes where HL points. -/
def Instruction.isOrdinary : Instruction → Bool
  | load (.register _) (.memory mode) | load (.memory mode) (.register _)
  | combine _ (.memory mode) => mode ≠ .pair .pc
  | load (.register _) _ | load (.memory (.pair .hl)) .immediate => true
  | load _ _ => false
  | inc operand | dec operand | shift _ operand | bit _ operand | res _ operand
  | set _ operand => operand.isNamed
  | instruction => !instruction.movesPointer

namespace Instruction

variable {regs : RegisterFile} {ime imePending : Bool} {ram : Ram} {mode : AddressMode}
  {condition : Option Condition}

/-- The instruction makes the accesses of its timetable. -/
def KeepsTime (instruction : Instruction) (regs : RegisterFile) (ime imePending : Bool)
    (ram : Ram) : Prop :=
  stamped 1 (instruction.traffic regs ime imePending ram) = instruction.timetable regs ram

/-! ### Operands -/

/-- A copy uses the effective address of its operand in memory. -/
theorem keepsTime_load {target source : Operand}
    (ordinary : (load target source).isOrdinary = true) :
    (load target source).KeepsTime regs ime imePending ram := by
  rcases target with target | _ | mode
  · rcases source with source | _ | mode
    · rfl
    · rfl
    · have data : (load (.register target) (.memory mode)).dataAccesses regs ram =
          [(.read (mode.effective regs ram) (ram.read (mode.effective regs ram)),
            (load (.register target) (.memory mode)).ticks regs)] := rfl
      rw [KeepsTime, timetable, data]
      cases mode with
      | pair rr => cases rr <;> first | rfl | cases ordinary
      | highPage | highPageC =>
        rw [AddressMode.effective, ← Word.ofBytes_page]
        rfl
      | _ => rfl
  · cases ordinary
  · rcases source with source | _ | _
    · have data : (load (.memory mode) (.register source)).dataAccesses regs ram =
          [(.write (mode.effective regs ram) (regs.get source),
            (load (.memory mode) (.register source)).ticks regs)] := rfl
      rw [KeepsTime, timetable, data]
      cases mode with
      | pair rr => cases rr <;> first | rfl | cases ordinary
      | highPage | highPageC =>
        rw [AddressMode.effective, ← Word.ofBytes_page]
        rfl
      | _ => rfl
    · cases mode with
      | pair rr => cases rr <;> first | rfl | cases ordinary
      | _ => cases ordinary
    · cases ordinary

/-- An operation on the accumulator uses the effective address of an operand in memory. -/
theorem keepsTime_combine {op : ByteOp} {source : Operand}
    (ordinary : (combine op source).isOrdinary = true) :
    (combine op source).KeepsTime regs ime imePending ram := by
  rcases source with source | _ | mode
  · rfl
  · rfl
  · have data : (combine op (.memory mode)).dataAccesses regs ram =
        [(.read (mode.effective regs ram) (ram.read (mode.effective regs ram)),
          (combine op (.memory mode)).ticks regs)] := rfl
    rw [KeepsTime, timetable, data]
    cases mode with
    | pair rr => cases rr <;> first | rfl | cases ordinary
    | highPage | highPageC =>
      rw [AddressMode.effective, ← Word.ofBytes_page]
      rfl
    | _ => rfl

/-- A named operand is a register or the byte that HL points at. -/
theorem eq_of_isNamed {operand : Operand} (named : operand.isNamed = true) :
    (∃ r, operand = .register r) ∨ operand = .memory (.pair .hl) := by
  rcases operand with r | _ | rr | _ | _ | _ | _ | _
  · exact .inl ⟨r, rfl⟩
  · cases named
  · cases rr <;> first | exact .inr rfl | cases named
  all_goals cases named

/-- Counting up adds one. -/
theorem value_increment (byte : UInt8) : (Arithmetic.increment byte).value = byte + 1 :=
  UInt8.add_zero (byte + 1)

/-- Counting down takes one. -/
theorem value_decrement (byte : UInt8) : (Arithmetic.decrement byte).value = byte - 1 :=
  UInt8.sub_zero (byte - 1)

/-- Counting up reads the byte that HL points at a tick before it is written. -/
theorem keepsTime_inc {operand : Operand} (named : operand.isNamed = true) :
    (inc operand).KeepsTime regs ime imePending ram := by
  rcases eq_of_isNamed named with ⟨r, rfl⟩ | rfl
  · rfl
  · have data : (inc (.memory (.pair .hl))).dataAccesses regs ram =
        [(.read regs.hl (ram.read regs.hl), 2), (.write regs.hl (ram.read regs.hl + 1), 3)] := rfl
    rw [KeepsTime, timetable, data, ← value_increment]
    rfl

/-- Counting down reads the byte that HL points at a tick before it is written. -/
theorem keepsTime_dec {operand : Operand} (named : operand.isNamed = true) :
    (dec operand).KeepsTime regs ime imePending ram := by
  rcases eq_of_isNamed named with ⟨r, rfl⟩ | rfl
  · rfl
  · have data : (dec (.memory (.pair .hl))).dataAccesses regs ram =
        [(.read regs.hl (ram.read regs.hl), 2), (.write regs.hl (ram.read regs.hl - 1), 3)] := rfl
    rw [KeepsTime, timetable, data, ← value_decrement]
    rfl

/-! ### The stack -/

/-- A push writes the word of its pair. -/
theorem keepsTime_push {rr : RegisterPair} (ordinary : (push rr).isOrdinary = true) :
    (push rr).KeepsTime regs ime imePending ram := by
  have data : (push rr).dataAccesses regs ram = pushesFrom regs (regs.getPair rr) 3 := rfl
  rw [KeepsTime, timetable, data, pushesFrom_eq]
  cases rr <;> first | rfl | cases ordinary

/-- A call of a fixed address writes the address behind it. -/
theorem keepsTime_rst (vector : UInt8) : (rst vector).KeepsTime regs ime imePending ram := by
  have data : (rst vector).dataAccesses regs ram = pushesFrom regs (regs.pc + 1) 3 := rfl
  rw [KeepsTime, timetable, data, pushesFrom_eq]
  rfl

/-- A return that depends on a condition reads nothing but its own byte unless it is taken. -/
theorem keepsTime_ret (condition : Condition) :
    (ret (some condition)).KeepsTime regs ime imePending ram := by
  have decides := trace_deciding (some condition) idle
    [continuing popLow, continuing popHigh, retiring jumpLatched] ⟨regs.fetched ime imePending, {}⟩
    ram rfl
  have traffic : (ret (some condition)).traffic regs ime imePending ram =
      [.read regs.pc (ram.read regs.pc)] :: [] ::
        if regs.holds (some condition) then
          [[.read regs.sp (ram.read regs.sp)], [.read (regs.sp + 1) (ram.read (regs.sp + 1))], []]
        else [] :=
    congrArg (_ :: ·) decides
  have data : (ret (some condition)).dataAccesses regs ram =
      if regs.holds (some condition) then readsFrom ram regs.sp 3 2 else [] := rfl
  rw [KeepsTime, timetable, data, traffic]
  cases regs.holds (some condition) <;> rfl

/-! ### Branches -/

/-- A relative jump reads its offset, whether it is taken or not. -/
theorem keepsTime_jr : (jr condition).KeepsTime regs ime imePending ram := by
  have decides := trace_deciding condition fetchLow [retiring jumpRelative]
    ⟨regs.fetched ime imePending, {}⟩ ram rfl
  have traffic : (jr condition).traffic regs ime imePending ram =
      [.read regs.pc (ram.read regs.pc)] :: [.read (regs.pc + 1) (ram.read (regs.pc + 1))] ::
        if regs.holds condition then [[]] else [] :=
    congrArg (_ :: ·) decides
  unfold KeepsTime
  rw [traffic]
  cases regs.holds condition <;> rfl

/-- A branch to a word that is read decides in its third cycle, behind the reads of the word. -/
theorem trace_word_branch (regs : RegisterFile) (ime imePending : Bool) (ram : Ram)
    (condition : Option Condition) (rest : Schedule) :
    trace (continuing idle :: continuing fetchLow :: deciding condition fetchHigh :: rest)
        ⟨regs.fetched ime imePending, {}⟩ ram =
      [] :: [.read (regs.pc + 1) (ram.read (regs.pc + 1))] ::
        [.read (regs.pc + 1 + 1) (ram.read (regs.pc + 1 + 1))] ::
        if regs.holds condition then
          trace rest ⟨{ regs.fetched ime imePending with pc := regs.pc + 1 + 1 + 1 },
            { low := ram.read (regs.pc + 1), high := ram.read (regs.pc + 1 + 1) }⟩ ram
        else [] := by
  have decides := trace_deciding condition fetchHigh rest
    ⟨{ regs.fetched ime imePending with pc := regs.pc + 1 + 1 },
      { low := ram.read (regs.pc + 1) }⟩ ram rfl
  exact congrArg (_ :: _ :: ·) decides

/-- A jump reads its target, whether it is taken or not. -/
theorem keepsTime_jp : (jp condition).KeepsTime regs ime imePending ram := by
  have traced := trace_word_branch regs ime imePending ram condition [retiring jumpLatched]
  unfold KeepsTime
  rw [traffic_of_plain rfl, cycles, traced]
  cases regs.holds condition <;> rfl

/-- A call reads its target, and writes the address behind it if it is taken. -/
theorem keepsTime_call : (call condition).KeepsTime regs ime imePending ram := by
  have traced := trace_word_branch regs ime imePending ram condition (pushing (·.pc) jumpLatched)
  have data : (call condition).dataAccesses regs ram =
      if regs.holds condition then pushesFrom regs (regs.pc + 3) 5 else [] := rfl
  rw [KeepsTime, timetable, data, pushesFrom_eq, ← Word.add_one_add_one_add_one,
    traffic_of_plain rfl, cycles, traced]
  cases regs.holds condition <;> rfl

/-! ### All instructions -/

/-- Every ordinary instruction makes the accesses of its timetable, each in its tick, and no
other. -/
theorem keepsTime (instruction : Instruction) (ordinary : instruction.isOrdinary = true) :
    instruction.KeepsTime regs ime imePending ram := by
  cases instruction with
  | load target source => exact keepsTime_load ordinary
  | combine op source => exact keepsTime_combine ordinary
  | inc operand => exact keepsTime_inc ordinary
  | dec operand => exact keepsTime_dec ordinary
  | shift _ operand | bit _ operand | res _ operand | set _ operand =>
    rcases eq_of_isNamed ordinary with ⟨r, rfl⟩ | rfl
    · rfl
    · rfl
  | push rr => exact keepsTime_push ordinary
  | rst vector => exact keepsTime_rst vector
  | jp condition => exact keepsTime_jp
  | jr condition => exact keepsTime_jr
  | call condition => exact keepsTime_call
  | ret condition =>
    cases condition with
    | none => rfl
    | some condition => exact keepsTime_ret condition
  | di => cases ime <;> cases imePending <;> rfl
  | ei => cases ime <;> rfl
  | _ => rfl

end Instruction

/-- The opcodes of the tables use their operands in an ordinary way. -/
theorem OpcodeTable.isOrdinary_of_mem_entries {opcode : Opcode}
    (listed : opcode ∈ standard.entries) : opcode.instruction.isOrdinary = true :=
  of_mem_entries (p := (·.isOrdinary = true)) listed
    (forall_byte (by decide +kernel)) (forall_byte (by decide +kernel))

/-- Whether the instruction calculates only with what the opcodes of the tables name: with a byte
that is named or stands behind the opcode, with a pair that holds a whole word and is not the
program counter, and by turning the accumulator by one place. -/
def Instruction.isRegular : Instruction → Bool
  | combine _ source => source.isNamed || source = .immediate
  | incPair rr | decPair rr | addHl rr => rr ≠ .af && rr ≠ .pc
  | rotateA kind => kind ∈ [.rlc, .rrc, .rl, .rr]
  | _ => true

/-- The opcodes of the tables calculate in a regular way. -/
theorem OpcodeTable.isRegular_of_mem_entries {opcode : Opcode}
    (listed : opcode ∈ standard.entries) : opcode.instruction.isRegular = true :=
  of_mem_entries (p := (·.isRegular = true)) listed
    (forall_byte (by decide +kernel)) (forall_byte (by decide +kernel))

end Sm83
