import Sm83.Proofs.Schedule.Progress
import Sm83.Proofs.Schedule.Run

/-!
# What a schedule fetches

The run of an instruction reads the bytes after its opcode before it makes any other access, in
order from the program counter on. It leaves the program counter behind them unless it departs for
another address: the word that it read for a jump or a call, the offset from there for a relative
jump.
-/

namespace Sm83

/-- Whether an event reports the start of an instruction. -/
def Event.isDispatch : Event → Bool
  | dispatched .. => true
  | _ => false

/-- Reads of bytes at rising addresses. -/
def reads (address : UInt16) : List UInt8 → List Access
  | [] => []
  | byte :: rest => .read address byte :: reads (address + 1) rest

/-- Reads of two blocks of bytes are reads of the first block and then of the second. -/
theorem reads_append (address : UInt16) (first second : List UInt8) :
    reads address (first ++ second) =
      reads address first ++ reads (address + UInt16.ofNat first.length) second := by
  induction first generalizing address with
  | nil => simp [reads]
  | cons byte rest ih =>
    simp only [List.cons_append, reads, ih, List.length_cons, Word.add_one_add_ofNat]

namespace Instruction

/-- Whether the instruction continues elsewhere than behind its last byte. -/
def departs (instruction : Instruction) (regs : RegisterFile) : Bool :=
  match instruction with
  | jp condition | jr condition | call condition | ret condition => regs.holds condition
  | jpHl | reti | rst _ => true
  | _ => false

/-- Whether an instruction departs depends on the flags alone. -/
theorem departs_congr {left right : RegisterFile} (instruction : Instruction)
    (flags : left.f = right.f) : instruction.departs left = instruction.departs right := by
  cases instruction with
  | jp | jr | call | ret => exact RegisterFile.holds_congr flags
  | _ => rfl

/-- The number of bytes after the opcode. -/
def operandBytes (instruction : Instruction) : Nat :=
  instruction.extraBytes - instruction.isPrefixed.toNat

/-- The number of bytes after the opcode that are read: all, but for the padding byte of a stop. -/
def fetchedBytes (instruction : Instruction) : Nat :=
  if instruction = stop then 0 else instruction.operandBytes

/-- Whether the instruction changes the program counter as it would any other pair. No opcode of the
tables does. -/
def changesPc : Instruction → Bool
  | loadPair .pc | pop .pc | incPair .pc | decPair .pc => true
  | _ => false

/-- A pair that the instruction changes as any other is not the program counter. -/
theorem ne_pc_of_changesPc {family : RegisterPair → Instruction} {pair : RegisterPair}
    (sequential : (family pair).changesPc = false) (changes : (family .pc).changesPc = true) :
    pair ≠ .pc := by
  rintro rfl
  rw [changes] at sequential
  cases sequential

/-- Where an instruction leaves the program counter, given the registers from before it and the
bytes that it fetched. -/
def Lands (instruction : Instruction) (before : RegisterFile) (bytes : List UInt8) (pc : UInt16) :
    Prop :=
  if instruction.departs before then
    match instruction with
    | jp _ | call _ => ∃ low high, bytes = [low, high] ∧ pc = Word.ofBytes high low
    | jr _ => ∃ offset, bytes = [offset] ∧ pc = before.pc + 1 + Word.ofOffset offset
    | _ => True
  else
    pc = before.pc + UInt16.ofNat instruction.operandBytes

/-- The run of an instruction fetches the bytes after its opcode first, reports the start of no
other instruction, and lands where it should. -/
def Covers (instruction : Instruction) (before : RegisterFile) : MachineCycle.Post Nat :=
  fun _ after accesses events =>
    (∀ event ∈ events, event.isDispatch = false) ∧
      ∃ bytes rest, bytes.length = instruction.fetchedBytes ∧
        accesses = reads before.pc bytes ++ rest ∧ instruction.Lands before bytes after.regs.pc

end Instruction

namespace Schedule

open MachineCycle

variable {α β : Type}

/-- The work does not fail, keeps the program counter and reports the start of no instruction. -/
def Stays (work : MachineCycle α) : Prop :=
  ∀ context, work.Succeeds context fun _ after _ events =>
    after.regs.pc = context.regs.pc ∧ ∀ event ∈ events, event.isDispatch = false

/-- The work reads so many bytes from the program counter on, moves the program counter past them
and does nothing else on the bus. -/
def Fetches (count : Nat) (work : MachineCycle α) : Prop :=
  ∀ context, work.Succeeds context fun _ after accesses events =>
    after.regs.pc = context.regs.pc + UInt16.ofNat count ∧ events = [] ∧
      ∃ bytes, bytes.length = count ∧ accesses = reads context.regs.pc bytes

/-! ## Work that stays -/

/-- Work that stays stays in turn. -/
@[simp] theorem Stays.bind {first : MachineCycle α} {next : α → MachineCycle β}
    (before : Stays first) (after : ∀ value, Stays (next value)) : Stays (first >>= next) := by
  intro context
  rw [succeeds_bind]
  apply (before context).mono
  rintro value between accesses events ⟨kept, quiet⟩
  apply (after value between).mono
  rintro result last further later ⟨still, silent⟩
  refine ⟨still.trans kept, fun event reported => ?_⟩
  rcases List.mem_append.mp reported with early | late
  · exact quiet event early
  · exact silent event late

/-- A result stays. -/
@[simp] theorem stays_pure (value : α) : Stays (pure value) := by simp [Stays]

/-- A cycle without work stays. -/
@[simp] theorem stays_idle : Stays idle := by simp [Stays, idle]

/-- Looking at the registers stays. -/
@[simp] theorem stays_regs : Stays regs := by simp [Stays]

/-- Looking at the latch stays. -/
@[simp] theorem stays_latch : Stays latch := by simp [Stays]

/-- Changing the latch stays. -/
@[simp] theorem stays_changeLatch (change : Latch → Latch) : Stays (changeLatch change) := by
  simp [Stays]

/-- A change of the registers that keeps the program counter stays. -/
theorem stays_changeRegs {change : RegisterFile → RegisterFile}
    (kept : ∀ regs, (change regs).pc = regs.pc) : Stays (changeRegs change) := by
  intro context
  simpa using kept context.regs

/-- Reading an operand stays. -/
@[simp] theorem stays_load (operand : Operand) : Stays operand.load := by
  rcases operand with _ | _ | _ | _ | _ | _ <;>
    simp [Stays, Operand.load, AddressMode.address, RegisterFile.setPair]

/-- Remembering the byte of an operand stays. -/
theorem stays_keep (operand : Operand) : Stays (keep operand) :=
  (stays_load operand).bind fun _ => stays_changeLatch _

/-- Reading an operand and remembering its byte stays. -/
theorem stays_loadKeeping (operand : Operand) : Stays (loadKeeping operand) := by
  unfold loadKeeping
  split
  · exact (stays_keep operand).bind fun _ => stays_latch.bind fun held => stays_pure _
  · exact stays_load operand

/-- Putting a byte into a register keeps the program counter. -/
@[simp] theorem pc_set (regs : RegisterFile) (register : Register) (byte : UInt8) :
    (regs.set register byte).pc = regs.pc := by
  cases register <;> rfl

/-- Putting a word into another pair keeps the program counter. -/
theorem pc_setPair {pair : RegisterPair} (other : pair ≠ .pc) (regs : RegisterFile)
    (word : UInt16) : (regs.setPair pair word).pc = regs.pc := by
  cases pair with
  | pc => exact absurd rfl other
  | _ => rfl

/-- Writing an operand stays, if it can be written. -/
theorem stays_store {operand : Operand} (place : operand ≠ .immediate) (byte : UInt8) :
    Stays (operand.store byte) := by
  rcases operand with _ | _ | _ | _ | _ | _ <;>
    simp_all [Stays, Operand.store, AddressMode.address, RegisterFile.setPair]

/-- Making room on the stack stays. -/
@[simp] theorem stays_reserve : Stays reserve := by simp [Stays, reserve]

/-- Pushing the upper half of a word stays. -/
@[simp] theorem stays_pushHigh (word : RegisterFile → UInt16) : Stays (pushHigh word) := by
  simp [Stays, pushHigh, reserve]

/-- Pushing the lower half of a word stays. -/
@[simp] theorem stays_pushLow (word : RegisterFile → UInt16) : Stays (pushLow word) := by
  simp [Stays, pushLow]

/-- Popping the lower half of a word stays. -/
theorem stays_popLow : Stays popLow := by simp [Stays, popLow, popByte]

/-- Popping the upper half of a word stays. -/
theorem stays_popHigh : Stays popHigh := by simp [Stays, popHigh, popByte]

/-- Halting stays. -/
@[simp] theorem stays_waitForInterrupt : Stays waitForInterrupt := by
  simp [Stays, waitForInterrupt, suspend, Event.isDispatch]

/-- Disabling interrupts stays. -/
@[simp] theorem stays_disableInterrupts : Stays disableInterrupts := by
  intro context
  simp only [disableInterrupts, succeeds_bind, succeeds_regs]
  split <;> simp [Event.isDispatch]

/-- Enabling interrupts stays. -/
@[simp] theorem stays_requestInterrupts : Stays requestInterrupts := by
  intro context
  simp only [requestInterrupts, succeeds_bind, succeeds_regs]
  split <;> simp [Event.isDispatch]

/-! ## Work that fetches -/

/-- Fetches in turn fetch as many bytes together. -/
theorem Fetches.bind {first second : Nat} {work : MachineCycle α} {next : α → MachineCycle β}
    (before : Fetches first work) (after : ∀ value, Fetches second (next value)) :
    Fetches (first + second) (work >>= next) := by
  intro context
  rw [succeeds_bind]
  apply (before context).mono
  rintro value between accesses events ⟨moved, rfl, bytes, count, rfl⟩
  apply (after value between).mono
  rintro result last further later ⟨onward, rfl, more, others, rfl⟩
  refine ⟨?_, rfl, bytes ++ more, ?_, ?_⟩
  · rw [onward, moved, UInt16.ofNat_add, UInt16.add_assoc]
  · rw [List.length_append, count, others]
  · rw [reads_append, moved, count]

/-- A cycle without work fetches nothing. -/
theorem fetches_idle : Fetches 0 idle := by
  intro context
  simp [idle, reads]

/-- Fetching a first byte fetches one. -/
theorem fetches_fetchLow : Fetches 1 fetchLow := by
  intro context
  simp only [fetchLow, fetch, succeeds_bind, succeeds_regs, succeeds_changeRegs,
    succeeds_readByte, succeeds_changeLatch]
  intro byte
  exact ⟨rfl, rfl, [byte], rfl, rfl⟩

/-- Fetching a further byte fetches one. -/
theorem fetches_fetchHigh : Fetches 1 fetchHigh := by
  intro context
  simp only [fetchHigh, fetch, succeeds_bind, succeeds_regs, succeeds_changeRegs,
    succeeds_readByte, succeeds_changeLatch]
  intro byte
  exact ⟨rfl, rfl, [byte], rfl, rfl⟩

/-- Parts that fetch a byte each fetch as many bytes as there are parts. -/
theorem fetches_inTurn {count : Nat} {parts : List (MachineCycle Unit)}
    (each : ∀ part ∈ parts, Fetches count part) :
    Fetches (count * parts.length) (inTurn parts) := by
  induction parts with
  | nil =>
    intro context
    simp [inTurn, reads]
  | cons part rest ih =>
    have first := each part List.mem_cons_self
    have others := ih fun part listed => each part (List.mem_cons_of_mem _ listed)
    rw [List.length_cons, Nat.mul_succ, Nat.add_comm]
    exact first.bind fun _ => others

/-- Parts in turn are a first block of them and then a second one. -/
theorem inTurn_append (first second : List (MachineCycle Unit)) :
    inTurn (first ++ second) = inTurn first >>= fun _ => inTurn second := by
  induction first with
  | nil => simp [inTurn]
  | cons part rest ih => simp [inTurn, ih]

/-- Before the work that completes it, an instruction fetches the bytes after its opcode. -/
theorem fetches_parts (bytes accesses : Nat) :
    Fetches bytes (inTurn (idle :: fetches bytes ++ List.replicate accesses idle)) := by
  have fetched : ∀ part ∈ fetches bytes, Fetches 1 part := by
    intro part listed
    rcases eq_fetch_of_mem_fetches listed with rfl | rfl
    · exact fetches_fetchLow
    · exact fetches_fetchHigh
  have waited : ∀ part ∈ List.replicate accesses idle, Fetches 0 part := by
    intro part listed
    rw [List.eq_of_mem_replicate listed]
    exact fetches_idle
  have reading := fetches_inTurn fetched
  have waiting := fetches_inTurn waited
  rw [Nat.one_mul, length_fetches] at reading
  rw [Nat.zero_mul] at waiting
  have whole := fetches_idle.bind fun _ => reading.bind fun _ => waiting
  rw [Nat.zero_add, Nat.add_zero] at whole
  rw [List.cons_append, inTurn, inTurn_append]
  exact whole

/-! ## Shapes of schedules -/

/-- Work that fetches and then stays covers an instruction that does not depart. -/
theorem covers_of_fetches {instruction : Instruction} {regs : RegisterFile} {count : Nat}
    {first : MachineCycle α} {next : α → MachineCycle Nat}
    (fetching : Fetches count first) (staying : ∀ value, Stays (next value))
    (counted : count = instruction.operandBytes) (ordinary : instruction ≠ .stop)
    (onward : instruction.departs regs = false) :
    (first >>= next).Succeeds ⟨regs, {}⟩ (instruction.Covers regs) := by
  rw [succeeds_bind]
  apply (fetching ⟨regs, {}⟩).mono
  rintro value between accesses events ⟨moved, rfl, bytes, length, rfl⟩
  apply (staying value between).mono
  rintro result after rest later ⟨kept, quiet⟩
  refine ⟨by simpa using quiet, bytes, rest, ?_, rfl, ?_⟩
  · rw [length, counted, Instruction.fetchedBytes, if_neg ordinary]
  · unfold Instruction.Lands
    rw [if_neg (by simp [onward]), kept, moved, counted]

/-- A closing schedule covers an instruction whose bytes are its parts and that does not depart. -/
theorem covers_closing {instruction : Instruction} {regs : RegisterFile} {bytes accesses : Nat}
    {finish : MachineCycle Unit} (staying : Stays finish)
    (counted : bytes = instruction.operandBytes) (ordinary : instruction ≠ .stop)
    (onward : instruction.departs regs = false) :
    (run (closing finish (idle :: fetches bytes ++ List.replicate accesses idle))).Succeeds
      ⟨regs, {}⟩ (instruction.Covers regs) := by
  rw [run_closing finish (by simp)]
  have finishing : ∀ value : Unit, Stays (finish >>= fun _ => pure
      (idle :: fetches bytes ++ List.replicate accesses idle).length) :=
    fun _ => staying.bind fun _ => stays_pure _
  exact covers_of_fetches (fetches_parts bytes accesses) finishing counted ordinary onward

/-- Work that stays covers an instruction without bytes of its own that does not depart. -/
theorem covers_of_stays {instruction : Instruction} {regs : RegisterFile} {work : MachineCycle Nat}
    (staying : Stays work) (counted : instruction.operandBytes = 0) (ordinary : instruction ≠ .stop)
    (onward : instruction.departs regs = false) :
    work.Succeeds ⟨regs, {}⟩ (instruction.Covers regs) := by
  have whole := covers_of_fetches fetches_idle (fun _ => staying) counted.symm ordinary onward
  simpa [idle] using whole

/-- A cycle that others follow stays if it and they do. -/
@[simp] theorem stays_run_continuing {work : MachineCycle Unit} {rest : Schedule}
    (working : Stays work) (resting : Stays (run rest)) :
    Stays (run (continuing work :: rest)) := by
  rw [run_continuing]
  exact working.bind fun _ => resting.bind fun _ => stays_pure _

/-- A retiring cycle stays if its work does. -/
@[simp] theorem stays_run_retiring {work : MachineCycle Unit} {rest : Schedule}
    (working : Stays work) : Stays (run (retiring work :: rest)) := by
  rw [run_retiring]
  exact working.bind fun _ => stays_pure _

/-- An updating schedule stays if its last cycle does. -/
theorem stays_updating {operand : Operand} {finish : UInt8 → MachineCycle Unit}
    (staying : ∀ byte, Stays (finish byte)) : Stays (run (updating operand finish)) := by
  have writing : Stays (do finish (← latch).value) :=
    stays_latch.bind fun held => staying held.value
  have working : Stays (do finish (← operand.load)) := (stays_load operand).bind staying
  unfold updating
  split
  · exact stays_run_continuing stays_idle
      (stays_run_continuing (stays_keep operand) (stays_run_retiring writing))
  · exact stays_run_retiring working

end Schedule

namespace Instruction

open MachineCycle Schedule

/-- What a run that reads its bytes first has to show. -/
theorem covers_intro {instruction : Instruction} {before : RegisterFile} {value : Nat}
    {after : Context} {events : List Event} (bytes : List UInt8) (rest : List Access)
    (quiet : ∀ event ∈ events, event.isDispatch = false)
    (counted : bytes.length = instruction.fetchedBytes)
    (lands : instruction.Lands before bytes after.regs.pc) :
    instruction.Covers before value after (reads before.pc bytes ++ rest) events :=
  ⟨quiet, bytes, rest, counted, rfl, lands⟩

/-- An instruction that does not depart lands behind its last byte. -/
theorem lands_of_onward {instruction : Instruction} {before : RegisterFile} {bytes : List UInt8}
    {pc : UInt16} (onward : instruction.departs before = false)
    (behind : pc = before.pc + UInt16.ofNat instruction.operandBytes) :
    instruction.Lands before bytes pc := by
  unfold Lands
  rwa [if_neg (by simp [onward])]

/-- A jump covers its word and lands there if it is taken. -/
theorem covers_jp (condition : Option Condition) (regs : RegisterFile) :
    (Schedule.run (jp condition).cycles).Succeeds ⟨regs, {}⟩ ((jp condition).Covers regs) := by
  simp only [cycles, succeeds_run_continuing, succeeds_run_deciding, succeeds_run_retiring,
    succeeds_idle, succeeds_fetchLow, succeeds_fetchHigh, succeeds_jumpLatched,
    RegisterFile.holds_pc]
  intro low high
  cases taken : regs.holds condition with
  | true =>
    rw [if_pos rfl]
    refine covers_intro [low, high] _ (by simp) rfl ?_
    unfold Lands
    rw [if_pos (by exact taken)]
    exact ⟨low, high, rfl, rfl⟩
  | false =>
    rw [if_neg Bool.false_ne_true]
    refine covers_intro [low, high] _ (by simp) rfl (lands_of_onward taken ?_)
    exact UInt16.add_assoc _ _ _

/-- A relative jump covers its offset and lands that far off if it is taken. -/
theorem covers_jr (condition : Option Condition) (regs : RegisterFile) :
    (Schedule.run (jr condition).cycles).Succeeds ⟨regs, {}⟩ ((jr condition).Covers regs) := by
  simp only [cycles, succeeds_run_continuing, succeeds_run_deciding, succeeds_run_retiring,
    succeeds_idle, succeeds_fetchLow, succeeds_jumpRelative, RegisterFile.holds_pc]
  intro offset
  cases taken : regs.holds condition with
  | true =>
    rw [if_pos rfl]
    refine covers_intro [offset] _ (by simp [Event.isDispatch]) rfl ?_
    unfold Lands
    rw [if_pos (by exact taken)]
    exact ⟨offset, rfl, rfl⟩
  | false =>
    rw [if_neg Bool.false_ne_true]
    exact covers_intro [offset] _ (by simp) rfl (lands_of_onward taken rfl)

/-- A call covers its word and lands there if it is taken. -/
theorem covers_call (condition : Option Condition) (regs : RegisterFile) :
    (Schedule.run (call condition).cycles).Succeeds ⟨regs, {}⟩ ((call condition).Covers regs) := by
  simp only [cycles, pushing, succeeds_run_continuing, succeeds_run_deciding,
    succeeds_run_retiring, succeeds_bind, succeeds_idle, succeeds_fetchLow, succeeds_fetchHigh,
    succeeds_reserve, succeeds_pushHigh, succeeds_pushLow, succeeds_jumpLatched,
    RegisterFile.holds_pc]
  intro low high
  cases taken : regs.holds condition with
  | true =>
    rw [if_pos rfl]
    refine covers_intro [low, high] _ (by simp) rfl ?_
    unfold Lands
    rw [if_pos (by exact taken)]
    exact ⟨low, high, rfl, rfl⟩
  | false =>
    rw [if_neg Bool.false_ne_true]
    refine covers_intro [low, high] _ (by simp) rfl (lands_of_onward taken ?_)
    exact UInt16.add_assoc _ _ _

/-- A return covers no byte and lands behind its opcode if it is not taken. -/
theorem covers_ret (condition : Option Condition) (regs : RegisterFile) :
    (Schedule.run (ret condition).cycles).Succeeds ⟨regs, {}⟩ ((ret condition).Covers regs) := by
  cases condition with
  | none =>
    simp only [cycles, succeeds_run_continuing, succeeds_run_retiring, succeeds_idle,
      succeeds_popLow, succeeds_popHigh, succeeds_jumpLatched]
    intro low high
    exact covers_intro [] _ (by simp) rfl trivial
  | some condition =>
    simp only [cycles, succeeds_run_continuing, succeeds_run_deciding, succeeds_run_retiring,
      succeeds_idle, succeeds_popLow, succeeds_popHigh, succeeds_jumpLatched]
    cases taken : regs.holds (some condition) with
    | true =>
      rw [if_pos rfl]
      intro low high
      refine covers_intro [] _ (by simp) rfl ?_
      unfold Lands
      rw [if_pos (by exact taken)]
      trivial
    | false =>
      rw [if_neg Bool.false_ne_true]
      refine covers_intro [] _ (by simp) rfl (lands_of_onward taken ?_)
      exact (UInt16.add_zero regs.pc).symm

/-- The run of an instruction covers it, unless it stores to the byte after its opcode or changes
the program counter as a pair. -/
theorem covers_run {instruction : Instruction} (defined : instruction ≠ .invalid)
    (storable : instruction.storesImmediate = false) (sequential : instruction.changesPc = false)
    (regs : RegisterFile) :
    (Schedule.run instruction.cycles).Succeeds ⟨regs, {}⟩ (instruction.Covers regs) := by
  cases instruction with
  | invalid => exact absurd rfl defined
  | load target source =>
    have place := @ne_immediate_of_storesImmediate (load · source) target storable rfl
    have staying : Stays (copy target source) := (stays_load source).bind (stays_store place)
    exact covers_closing staying rfl Instruction.noConfusion rfl
  | combine op source =>
    have staying : Stays (do let byte ← source.load; changeRegs (·.combine op byte)) :=
      (stays_load source).bind fun byte => stays_changeRegs fun _ => rfl
    exact covers_closing staying rfl Instruction.noConfusion rfl
  | bit index operand =>
    have staying : Stays (do
        let byte ← loadKeeping operand
        changeRegs (·.flagBit (byte &&& bitMask index != 0))) :=
      (stays_loadKeeping operand).bind fun byte => stays_changeRegs fun _ => rfl
    exact @covers_closing _ regs 0 operand.accessCycles _ staying rfl Instruction.noConfusion rfl
  | inc operand | dec operand =>
    have place : operand ≠ .immediate := ne_immediate_of_storesImmediate storable rfl
    refine covers_of_stays (stays_updating fun byte => ?_) rfl Instruction.noConfusion rfl
    exact (stays_store place _).bind fun _ => stays_changeRegs fun _ => rfl
  | shift kind operand =>
    have place : operand ≠ .immediate := ne_immediate_of_storesImmediate storable rfl
    refine covers_of_stays (stays_updating fun byte => ?_) rfl Instruction.noConfusion rfl
    refine stays_regs.bind fun regs => ?_
    exact Stays.bind (stays_changeRegs fun _ => rfl) fun _ => stays_store place _
  | res index operand | set index operand =>
    have place : operand ≠ .immediate := ne_immediate_of_storesImmediate storable rfl
    refine covers_of_stays (stays_updating fun byte => ?_) rfl Instruction.noConfusion rfl
    exact stays_store place _
  | nop =>
    exact covers_of_stays (stays_run_retiring stays_idle) rfl Instruction.noConfusion rfl
  | daa | cpl | scf | ccf | rotateA kind =>
    refine covers_of_stays (stays_run_retiring ?_) rfl Instruction.noConfusion rfl
    exact stays_changeRegs fun _ => rfl
  | halt =>
    exact covers_of_stays (stays_run_retiring stays_waitForInterrupt) rfl
      Instruction.noConfusion rfl
  | di =>
    exact covers_of_stays (stays_run_retiring stays_disableInterrupts) rfl
      Instruction.noConfusion rfl
  | ei =>
    exact covers_of_stays (stays_run_retiring stays_requestInterrupts) rfl
      Instruction.noConfusion rfl
  | loadSpHl | addHl rr =>
    refine covers_of_stays (stays_run_continuing stays_idle (stays_run_retiring ?_)) rfl
      Instruction.noConfusion rfl
    exact stays_changeRegs fun _ => rfl
  | incPair rr | decPair rr =>
    have other : rr ≠ .pc := ne_pc_of_changesPc sequential rfl
    refine covers_of_stays (stays_run_continuing stays_idle (stays_run_retiring ?_)) rfl
      Instruction.noConfusion rfl
    exact stays_changeRegs fun _ => pc_setPair other _ _
  | push rr =>
    refine covers_of_stays (stays_run_continuing stays_idle (stays_run_continuing stays_reserve
      (stays_run_continuing (stays_pushHigh _) (stays_run_retiring ?_)))) rfl
        Instruction.noConfusion rfl
    exact (stays_pushLow _).bind fun _ => stays_idle
  | pop rr =>
    have other : rr ≠ .pc := ne_pc_of_changesPc sequential rfl
    refine covers_of_stays (stays_run_continuing stays_idle
      (stays_run_continuing stays_popLow (stays_run_retiring ?_))) rfl Instruction.noConfusion rfl
    refine stays_popHigh.bind fun _ => stays_latch.bind fun latch => ?_
    exact stays_changeRegs fun _ => pc_setPair other _ _
  | stop =>
    simp only [cycles, powerDown, suspend, succeeds_run_retiring, succeeds_bind,
      succeeds_changeRegs, succeeds_regs, succeeds_log]
    exact covers_intro [] [] (by simp [Event.isDispatch]) rfl (lands_of_onward rfl rfl)
  | loadPair rr =>
    have other : rr ≠ .pc := ne_pc_of_changesPc sequential rfl
    simp only [cycles, succeeds_run_continuing, succeeds_run_retiring, succeeds_bind,
      succeeds_idle, succeeds_fetchLow, succeeds_fetchHigh, succeeds_latch, succeeds_changeRegs]
    intro low high
    refine covers_intro [low, high] [] (by simp) rfl (lands_of_onward rfl ?_)
    rw [pc_setPair other]
    exact UInt16.add_assoc _ _ _
  | storeSp =>
    simp only [cycles, succeeds_run_continuing, succeeds_run_retiring, succeeds_bind,
      succeeds_idle, succeeds_fetchLow, succeeds_fetchHigh, succeeds_latch, succeeds_regs,
      succeeds_writeByte]
    intro low high
    refine covers_intro [low, high] _ (by simp) rfl (lands_of_onward rfl ?_)
    exact UInt16.add_assoc _ _ _
  | loadHlSpOffset | addSpOffset =>
    simp only [cycles, succeeds_run_continuing, succeeds_run_retiring, succeeds_bind,
      succeeds_idle, succeeds_fetchLow, succeeds_latch, succeeds_changeRegs]
    intro offset
    exact covers_intro [offset] [] (by simp) rfl (lands_of_onward rfl rfl)
  | jp condition => exact covers_jp condition regs
  | jpHl =>
    simp only [cycles, succeeds_run_retiring, succeeds_changeRegs]
    exact covers_intro [] [] (by simp) rfl trivial
  | jr condition => exact covers_jr condition regs
  | call condition => exact covers_call condition regs
  | ret condition => exact covers_ret condition regs
  | reti =>
    simp only [cycles, returnFromInterrupt, succeeds_run_continuing, succeeds_run_retiring,
      succeeds_bind, succeeds_idle, succeeds_popLow, succeeds_popHigh, succeeds_jumpLatched,
      succeeds_regs, succeeds_log, succeeds_changeRegs]
    intro low high
    exact covers_intro [] _ (by simp [Event.isDispatch]) rfl trivial
  | rst vector =>
    simp only [cycles, pushing, succeeds_run_continuing, succeeds_run_retiring, succeeds_bind,
      succeeds_idle, succeeds_reserve, succeeds_pushHigh, succeeds_pushLow, succeeds_jump]
    exact covers_intro [] _ (by simp) rfl trivial

end Instruction

end Sm83
