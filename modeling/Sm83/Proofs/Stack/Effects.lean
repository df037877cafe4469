import Sm83.Proofs.MachineCycle.Does
import Sm83.Proofs.Opcode.Table
import Sm83.Proofs.Stack.Discipline
import Sm83.Proofs.Stack.Words

/-!
# What instructions do to the stack

Every instruction that pushes runs the same three cycles, and every one that returns the same three.
A push writes a word below the stack pointer, which is left pointing at it; a pop takes the word at
the stack pointer. What each of these instructions leads to is told exactly, from the registers and
the RAM before it. So whatever an instruction has to do with the stack is one event of it, and its
run moves the words and the stack pointer as the event says.
-/

namespace Sm83

open MachineCycle

namespace Schedule

variable {regs : RegisterFile} {latch : Latch} {ram left : Ram} {after : Context} {count : Nat}
  {finish : MachineCycle Unit}

/-- The cycles that push a word write it below the stack pointer and leave the stack pointer at it.
What completes the instruction comes behind them. -/
theorem does_run_pushing {word : RegisterFile → UInt16}
    (kept : ∀ pointer, word { regs with sp := pointer } = word regs)
    (finishes : finish.Does ⟨{ regs with sp := regs.sp - 2 }, latch⟩
      (ram.pushWord regs.sp (word regs)) () after left) :
    (run (pushing word finish)).Does ⟨regs, latch⟩ ram 3 after left := by
  have room : MachineCycle.reserve.Does ⟨regs, latch⟩ ram ()
      ⟨{ regs with sp := regs.sp - 1 }, latch⟩ ram := ⟨_, _, rfl⟩
  have upper : (pushHigh word).Does ⟨{ regs with sp := regs.sp - 1 }, latch⟩ ram ()
      ⟨{ regs with sp := regs.sp - 2 }, latch⟩
      (ram.write (regs.sp - 1) (Word.high (word regs))) := by
    rw [← kept (regs.sp - 1), ← Word.sub_one_sub_one]
    exact ⟨_, _, rfl⟩
  have lower : (pushLow word).Does ⟨{ regs with sp := regs.sp - 2 }, latch⟩
      (ram.write (regs.sp - 1) (Word.high (word regs))) ()
      ⟨{ regs with sp := regs.sp - 2 }, latch⟩ (ram.pushWord regs.sp (word regs)) := by
    unfold Ram.pushWord
    rw [← kept (regs.sp - 2)]
    exact ⟨_, _, rfl⟩
  exact does_run_continuing room
    (does_run_continuing upper (does_run_retiring (lower.bind finishes)))

/-- What completes a jump continues at the word in the latch. -/
theorem does_jumpLatched (regs : RegisterFile) (latch : Latch) (ram : Ram) :
    jumpLatched.Does ⟨regs, latch⟩ ram () ⟨{ regs with pc := latch.word }, latch⟩ ram :=
  ⟨_, _, rfl⟩

/-- What completes a return from an interrupt continues at the word in the latch with interrupts
enabled. -/
theorem does_returnFromInterrupt (regs : RegisterFile) (latch : Latch) (ram : Ram) :
    returnFromInterrupt.Does ⟨regs, latch⟩ ram ()
      ⟨{ regs with pc := latch.word, ime := true, imePending := false }, latch⟩ ram :=
  ⟨_, _, rfl⟩

/-- The cycles that call push the program counter and continue at the word in the latch. -/
theorem does_run_calling (regs : RegisterFile) (latch : Latch) (ram : Ram) :
    (run (pushing (·.pc) jumpLatched)).Does ⟨regs, latch⟩ ram 3
      ⟨{ regs with sp := regs.sp - 2, pc := latch.word }, latch⟩
      (ram.pushWord regs.sp regs.pc) :=
  does_run_pushing (fun _ => rfl) (does_jumpLatched _ _ _)

/-- The latch that holds the word at an address. -/
def popped (latch : Latch) (ram : Ram) (pointer : UInt16) : Latch :=
  { latch with low := ram.read pointer, high := ram.read (pointer + 1) }

/-- The cycle that pops the lower half of a word. -/
theorem does_popLow (regs : RegisterFile) (latch : Latch) (ram : Ram) :
    popLow.Does ⟨regs, latch⟩ ram ()
      ⟨{ regs with sp := regs.sp + 1 }, { latch with low := ram.read regs.sp }⟩ ram :=
  ⟨_, _, rfl⟩

/-- The cycle that pops the upper half of a word behind the lower one. -/
theorem does_popHigh (regs : RegisterFile) (latch : Latch) (ram : Ram) :
    popHigh.Does ⟨{ regs with sp := regs.sp + 1 }, { latch with low := ram.read regs.sp }⟩ ram ()
      ⟨{ regs with sp := regs.sp + 2 }, popped latch ram regs.sp⟩ ram := by
  rw [← Word.add_one_add_one]
  exact ⟨_, _, rfl⟩

/-- The cycles that return pop a word, and what completes the instruction finds it in the latch. -/
theorem does_run_returning
    (finishes : finish.Does ⟨{ regs with sp := regs.sp + 2 }, popped latch ram regs.sp⟩ ram ()
      after left) :
    (run [continuing popLow, continuing popHigh, retiring finish]).Does ⟨regs, latch⟩ ram 3
      after left :=
  does_run_continuing (does_popLow regs latch ram)
    (does_run_continuing (does_popHigh regs latch ram) (does_run_retiring finishes))

end Schedule

/-- The registers that the fetch of a plain opcode leaves, its latches being given. -/
def RegisterFile.fetched (before : RegisterFile) (ime imePending : Bool) : RegisterFile :=
  { before with pc := before.pc + 1, ime, imePending }

section

open Schedule

variable {before : RegisterFile} {ime imePending : Bool} {ram : Ram} {rr : RegisterPair}
  {condition : Option Condition}

/-! ## Branches to a word behind the opcode -/

namespace Schedule

/-- The cycles of a branch to a word have fetched the word when they decide. -/
theorem does_fetches_word (before : RegisterFile) (ime imePending : Bool) (ram : Ram) :
    let fetched := before.fetched ime imePending
    fetchLow.Does ⟨fetched, {}⟩ ram ()
        ⟨{ fetched with pc := before.pc + 1 + 1 }, { low := ram.read (before.pc + 1) }⟩ ram ∧
      fetchHigh.Does
        ⟨{ fetched with pc := before.pc + 1 + 1 }, { low := ram.read (before.pc + 1) }⟩ ram ()
        ⟨{ fetched with pc := before.pc + 3 }, popped {} ram (before.pc + 1)⟩ ram := by
  rw [← Word.add_one_add_one_add_one]
  exact ⟨⟨_, _, rfl⟩, ⟨_, _, rfl⟩⟩

variable {rest : Schedule} {after : Context} {left : Ram} {count : Nat}

/-- A branch to a word that is taken goes on behind the word and with the word in the latch. -/
theorem does_run_branching_of_holds (holds : before.holds condition = true)
    (behind : (run rest).Does ⟨{ before.fetched ime imePending with pc := before.pc + 3 },
      popped {} ram (before.pc + 1)⟩ ram count after left) :
    (run (continuing idle :: continuing fetchLow :: deciding condition fetchHigh :: rest)).Does
      ⟨before.fetched ime imePending, {}⟩ ram (count + 1 + 1 + 1) after left := by
  obtain ⟨low, high⟩ := does_fetches_word before ime imePending ram
  exact does_run_continuing (does_idle _ _)
    (does_run_continuing low (does_run_deciding_of_holds high holds behind))

/-- A branch to a word that is not taken ends behind the word. -/
theorem does_run_branching_of_not_holds (fails : before.holds condition = false) :
    (run (continuing idle :: continuing fetchLow :: deciding condition fetchHigh :: rest)).Does
      ⟨before.fetched ime imePending, {}⟩ ram (1 + 1 + 1)
      ⟨{ before.fetched ime imePending with pc := before.pc + 3 }, popped {} ram (before.pc + 1)⟩
      ram := by
  obtain ⟨low, high⟩ := does_fetches_word before ime imePending ram
  exact does_run_continuing (does_idle _ _)
    (does_run_continuing low (does_run_deciding_of_not_holds high fails))

end Schedule

/-! ## Instructions that use the stack -/

namespace Instruction

/-- A push puts the word of its pair, if that points neither at the stack nor at the program. -/
theorem leads_push (proper : rr ≠ .sp ∧ rr ≠ .pc) :
    (push rr).Leads (before.fetched ime imePending) ram
      { before.fetched ime imePending with sp := before.sp - 2 }
      (ram.pushWord before.sp (before.getPair rr)) := by
  have word (pointer : UInt16) :
      { before.fetched ime imePending with sp := pointer }.getPair rr = before.getPair rr := by
    cases rr with
    | sp => exact absurd rfl proper.1
    | pc => exact absurd rfl proper.2
    | _ => rfl
  have same := word before.sp
  have pushes : (run (pushing (·.getPair rr) Schedule.idle)).Does
      ⟨before.fetched ime imePending, {}⟩ ram 3
      ⟨{ before.fetched ime imePending with sp := before.sp - 2 }, {}⟩
      (ram.pushWord before.sp (before.getPair rr)) := by
    refine does_run_pushing (fun pointer => (word pointer).trans same.symm) ?_
    rw [← same]
    exact does_idle _ _
  exact ⟨_, _, does_run_continuing (does_idle _ _) pushes⟩

/-- A pop takes a word and puts it into its pair. -/
theorem leads_pop :
    (pop rr).Leads (before.fetched ime imePending) ram
      ({ before.fetched ime imePending with sp := before.sp + 2 }.setPair rr (ram.wordAt before.sp))
      ram := by
  have puts : (do
      popHigh
      let word := (← latch).word
      changeRegs (·.setPair rr word)).Does
        ⟨{ before.fetched ime imePending with sp := before.sp + 1 },
          { low := ram.read before.sp }⟩ ram ()
        ⟨{ before.fetched ime imePending with sp := before.sp + 2 }.setPair rr
          (ram.wordAt before.sp), popped {} ram before.sp⟩ ram :=
    (does_popHigh (before.fetched ime imePending) {} ram).bind ⟨_, _, rfl⟩
  exact ⟨_, _, does_run_continuing (does_idle _ _)
    (does_run_continuing (does_popLow _ _ _) (does_run_retiring puts))⟩

/-- A call that is taken puts the address behind it and continues at its word. -/
theorem leads_call_of_holds (holds : before.holds condition = true) :
    (call condition).Leads (before.fetched ime imePending) ram
      { before.fetched ime imePending with sp := before.sp - 2, pc := ram.wordAt (before.pc + 1) }
      (ram.pushWord before.sp (before.pc + 3)) :=
  ⟨_, _, does_run_branching_of_holds holds (does_run_calling _ _ _)⟩

/-- A call that is not taken continues behind it. -/
theorem leads_call_of_not_holds (fails : before.holds condition = false) :
    (call condition).Leads (before.fetched ime imePending) ram
      { before.fetched ime imePending with pc := before.pc + 3 } ram :=
  ⟨_, _, does_run_branching_of_not_holds fails⟩

/-- A call of a fixed address puts the address behind it and continues at the fixed one. -/
theorem leads_rst (vector : UInt8) :
    (rst vector).Leads (before.fetched ime imePending) ram
      { before.fetched ime imePending with sp := before.sp - 2, pc := vector.toUInt16 }
      (ram.pushWord before.sp (before.pc + 1)) := by
  have pushes := @does_run_pushing (before.fetched ime imePending) {} ram _ _
    (jump vector.toUInt16) (·.pc) (fun _ => rfl) ⟨_, _, rfl⟩
  exact ⟨_, _, does_run_continuing (does_idle _ _) pushes⟩

/-- A return that is taken takes the address that it continues at. -/
theorem leads_ret_of_holds (holds : before.holds condition = true) :
    (ret condition).Leads (before.fetched ime imePending) ram
      { before.fetched ime imePending with sp := before.sp + 2, pc := ram.wordAt before.sp }
      ram := by
  have returns := @does_run_returning (before.fetched ime imePending) {} ram _ _ jumpLatched
    (does_jumpLatched _ _ _)
  cases condition with
  | none => exact ⟨_, _, does_run_continuing (does_idle _ _) returns⟩
  | some condition =>
    exact ⟨_, _, does_run_continuing (does_idle _ _)
      (does_run_deciding_of_holds (does_idle _ _) holds returns)⟩

/-- A return that is not taken continues behind it. -/
theorem leads_ret_of_not_holds (fails : before.holds condition = false) :
    (ret condition).Leads (before.fetched ime imePending) ram (before.fetched ime imePending)
      ram := by
  cases condition with
  | none => cases fails
  | some condition =>
    have unchanged := does_idle ⟨before.fetched ime imePending, {}⟩ ram
    exact ⟨_, _, does_run_continuing unchanged (does_run_deciding_of_not_holds unchanged fails)⟩

/-- A return from an interrupt also enables interrupts. -/
theorem leads_reti :
    reti.Leads (before.fetched ime imePending) ram
      { before with
        sp := before.sp + 2
        pc := ram.wordAt before.sp
        ime := true
        imePending := false }
      ram :=
  ⟨_, _, does_run_continuing (does_idle _ _)
    (does_run_returning (does_returnFromInterrupt _ _ _))⟩

end Instruction

end

/-! ## Events of the stack -/

/-- A word whose flags lost their lower half lost it alone. -/
theorem Word.ofBytes_high_low_and (word : UInt16) :
    Word.ofBytes (Word.high word) (Word.low word &&& 0xF0) = word &&& 0xFFF0 := by
  have upper : ∀ byte : UInt8, byte.toUInt16 <<< 8 &&& (0xFFF0 : UInt16) = byte.toUInt16 <<< 8 :=
    forall_byte (by decide +kernel)
  have lower : ∀ byte : UInt8, (byte &&& 0xF0).toUInt16 = byte.toUInt16 &&& 0xFFF0 :=
    forall_byte (by decide +kernel)
  have distributes (left right : UInt16) :
      (left ||| right) &&& 0xFFF0 = left &&& 0xFFF0 ||| right &&& 0xFFF0 := by
    apply UInt16.toNat_inj.mp
    simp only [UInt16.toNat_and, UInt16.toNat_or, Nat.and_or_distrib_right]
  calc Word.ofBytes (Word.high word) (Word.low word &&& 0xF0)
      = Word.ofBytes (Word.high word) (Word.low word) &&& 0xFFF0 := by
        unfold Word.ofBytes
        rw [distributes, upper, lower]
    _ = word &&& 0xFFF0 := by rw [Word.ofBytes_high_low]

/-- A pair keeps of a word what it says it does. -/
theorem RegisterFile.getPair_setPair (regs : RegisterFile) (pair : RegisterPair) (word : UInt16) :
    (regs.setPair pair word).getPair pair = pair.kept word := by
  rw [getPair_setPair_self, RegisterPair.kept, Word.ofBytes_high_low_and]

/-- An event turns a RAM and a stack pointer into others: a word is put below the stack pointer,
the word at the stack pointer is taken, or nothing happens. -/
inductive Moves (ram : Ram) (pointer : UInt16) : StackEvent → Ram → UInt16 → Prop where
  /-- A word is put below the stack pointer, which is left at it. -/
  | push (word : UInt16) : Moves ram pointer (.push word) (ram.pushWord pointer word) (pointer - 2)
  /-- The word at the stack pointer is taken. -/
  | take {event : StackEvent} (takes : event.Takes (ram.wordAt pointer)) :
    Moves ram pointer event ram (pointer + 2)
  /-- The stack is left alone. -/
  | keep : Moves ram pointer .keep ram pointer

namespace Instruction

open Schedule

/-- What an instruction does to the stack, from the registers before its fetch to those behind it,
if it has to do with the stack. -/
def stackEvent? (instruction : Instruction) (before after : RegisterFile) : Option StackEvent :=
  match instruction with
  | push rr => some (.push (before.getPair rr))
  | pop rr => some (.pop rr (after.getPair rr))
  | call condition => some (if before.holds condition then .push (before.pc + 3) else .keep)
  | rst _ => some (.push (before.pc + 1))
  | ret condition => some (if before.holds condition then .ret after.pc else .keep)
  | reti => some (.ret after.pc)
  | _ => none

/-- Whether the instruction pushes or pops what points at the stack or at the program. No opcode of
the tables does. -/
def movesPointer : Instruction → Bool
  | push rr | pop rr => rr = .sp || rr = .pc
  | _ => false

variable {before : RegisterFile} {ime imePending : Bool} {ram : Ram} {rr : RegisterPair}
  {condition : Option Condition}

/-- The run of an instruction behind its fetch moves the stack as the event of the instruction
says. -/
def MovesStack (instruction : Instruction) (before fetched : RegisterFile) (ram : Ram) : Prop :=
  ∃ count after latch left event,
    (run instruction.cycles).Does ⟨fetched, {}⟩ ram count ⟨after, latch⟩ left ∧
      instruction.stackEvent? before after = some event ∧ Moves ram before.sp event left after.sp

/-- An instruction whose cycles move the stack as its event says moves it so. -/
theorem Leads.movesStack {instruction : Instruction} {fetched after : RegisterFile} {left : Ram}
    {event : StackEvent} (leads : instruction.Leads fetched ram after left)
    (caused : instruction.stackEvent? before after = some event)
    (moves : Moves ram before.sp event left after.sp) :
    instruction.MovesStack before fetched ram := by
  obtain ⟨count, latch, does⟩ := leads
  exact ⟨count, after, latch, left, event, does, caused, moves⟩

/-- A push puts the word of its pair. -/
theorem movesStack_push (proper : (push rr).movesPointer = false) :
    (push rr).MovesStack before (before.fetched ime imePending) ram := by
  have named : rr ≠ .sp ∧ rr ≠ .pc := by
    simpa [movesPointer] using proper
  exact (leads_push named).movesStack rfl (.push _)

/-- A pop takes a word and puts it into its pair. -/
theorem movesStack_pop (proper : (pop rr).movesPointer = false) :
    (pop rr).MovesStack before (before.fetched ime imePending) ram := by
  refine leads_pop.movesStack rfl ?_
  have pointer : ({ before.fetched ime imePending with sp := before.sp + 2 }.setPair rr
      (ram.wordAt before.sp)).sp = before.sp + 2 := by
    cases rr <;> first | rfl | cases proper
  rw [pointer]
  exact .take (RegisterFile.getPair_setPair _ rr _)

/-- A call puts the address behind it if it is taken, and leaves the stack alone if it is not. -/
theorem movesStack_call :
    (call condition).MovesStack before (before.fetched ime imePending) ram := by
  cases decided : before.holds condition with
  | true =>
    exact (leads_call_of_holds decided).movesStack (congrArg some (if_pos decided)) (.push _)
  | false =>
    exact (leads_call_of_not_holds decided).movesStack
      (congrArg some (if_neg (by simp [decided]))) .keep

/-- A return takes the address that it continues at if it is taken, and leaves the stack alone if
it is not. -/
theorem movesStack_ret :
    (ret condition).MovesStack before (before.fetched ime imePending) ram := by
  cases decided : before.holds condition with
  | true =>
    exact (leads_ret_of_holds decided).movesStack (congrArg some (if_pos decided)) (.take rfl)
  | false =>
    exact (leads_ret_of_not_holds decided).movesStack
      (congrArg some (if_neg (by simp [decided]))) .keep

/-- The run of an instruction that has to do with the stack moves it as its event says. -/
theorem movesStack {instruction : Instruction} (proper : instruction.movesPointer = false)
    {after : RegisterFile} (uses : (instruction.stackEvent? before after).isSome = true) :
    instruction.MovesStack before (before.fetched ime imePending) ram := by
  cases instruction with
  | push rr => exact movesStack_push proper
  | pop rr => exact movesStack_pop proper
  | call condition => exact movesStack_call
  | rst vector => exact (leads_rst vector).movesStack rfl (.push _)
  | ret condition => exact movesStack_ret
  | reti => exact leads_reti.movesStack rfl (.take rfl)
  | _ => cases uses

end Instruction

end Sm83
